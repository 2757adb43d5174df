import Dagger.Invariant

/-!
# What an operation leaves in place

`Frame s s'` says what every operation, from a state with the invariant, leaves
of the state before it: blocks, map entries and opened addresses are only
added; a block never changes its origin; and a block that is not open
afterwards is not touched at all. Since the builder and the register semantics
only ever insert into an open block, this is what makes the contents of the
exit block, the diff block, the call blocks and the unopened placeholders
final.
-/

namespace Dagger

theorem Origin.IsOpen.mono {o : Origin} {op op' : List UInt64} (h : o.IsOpen op)
    (hs : ∀ a ∈ op, a ∈ op') : o.IsOpen op' := by
  cases o <;> simp_all [Origin.IsOpen]

/-- What `s'` keeps of `s`. -/
structure Frame (s s' : DCFunction) : Prop where
  numBlocks : s.numBlocks ≤ s'.numBlocks
  map : ∀ a b, s.bbByAddr a = some b → s'.bbByAddr a = some b
  opened : ∀ a ∈ s.opened, a ∈ s'.opened
  origin : ∀ b < s.numBlocks, (s'.blocks b).origin = (s.blocks b).origin
  closed : ∀ b < s.numBlocks, ¬ (s'.blocks b).origin.IsOpen s'.opened → s'.blocks b = s.blocks b

namespace Frame

variable {cfg : Config} {s s' s'' : DCFunction}

theorem refl (s : DCFunction) : Frame s s :=
  ⟨Nat.le_refl _, fun _ _ h => h, fun _ h => h, fun _ _ => rfl, fun _ _ _ => rfl⟩

theorem trans (h₁ : Frame s s') (h₂ : Frame s' s'') : Frame s s'' := by
  refine ⟨Nat.le_trans h₁.numBlocks h₂.numBlocks, fun a b h => h₂.map a b (h₁.map a b h),
    fun a h => h₂.opened a (h₁.opened a h), fun b hb => ?_, fun b hb ho => ?_⟩
  · rw [h₂.origin b (Nat.lt_of_lt_of_le hb h₁.numBlocks), h₁.origin b hb]
  · have hb' := Nat.lt_of_lt_of_le hb h₁.numBlocks
    have ho' : ¬ (s'.blocks b).origin.IsOpen s'.opened := fun h =>
      ho (by rw [h₂.origin b hb']; exact h.mono h₂.opened)
    rw [h₂.closed b hb' ho, h₁.closed b hb ho']

theorem of_eq (hb : s'.blocks = s.blocks) (hn : s'.numBlocks = s.numBlocks)
    (hm : s'.bbByAddr = s.bbByAddr) (ho : s'.opened = s.opened) : Frame s s' := by
  refine ⟨Nat.le_of_eq hn.symm, fun _ _ h => hm ▸ h, fun _ h => ho ▸ h, fun b _ => by rw [hb], fun b _ _ => by rw [hb]⟩

theorem of_shape (h : s'.shape = s.shape) : Frame s s' := by
  simp only [DCFunction.shape, Shape.mk.injEq] at h
  exact of_eq h.1 h.2.1 h.2.2.1 h.2.2.2.2.2.2.2.2.1

/-- Appending to the insertion point. -/
theorem append (hw : Wf cfg s) (i : Inst) : Frame s (s.appendInst s.insertPt i) := by
  refine ⟨Nat.le_refl _, fun _ _ h => h, fun _ h => h, fun _ _ => by simp, fun b _ ho => ?_⟩
  exact DCFunction.appendInst_blocks_of_ne (hw.ne_insertPt (by simpa using ho))

theorem getOrCreate (s : DCFunction) (a : UInt64) : Frame s (getOrCreateBasicBlock a s).2 := by
  cases hn : s.bbByAddr a with
  | some b => rw [getOrCreateBasicBlock_of_some hn]; exact refl _
  | none =>
    rw [getOrCreateBasicBlock_of_none hn]
    refine ⟨by simp, fun a' b h => ?_, fun _ h => h, fun b hb => ?_, fun b hb _ => ?_⟩
    · have : a' ≠ a := fun e => by simp [e, hn] at h
      simpa [Function.update_apply, this] using h
    all_goals simp [Function.update_apply, Nat.ne_of_lt hb]

theorem insertCallBB (hw : Wf cfg s) {t : Value} {cb : Nat} (h : Dagger.insertCallBB t s = some (cb, s')) :
    Frame s s' := by
  have hlt := hw.insertPt_lt
  obtain ⟨-, rfl, rfl⟩ := insertCallBB_eq_some h hlt
  refine ⟨by simp, fun _ _ h => h, fun _ h => h, fun b hb => ?_, fun b hb ho => ?_⟩
  · simp only [show b ≠ s.numBlocks + 1 by omega, show b ≠ s.numBlocks by omega, if_false]
    split <;> rfl
  · simp only [show b ≠ s.numBlocks + 1 by omega, show b ≠ s.numBlocks by omega, if_false] at ho ⊢
    have hne : b ≠ s.insertPt := hw.ne_insertPt fun h => ho (by split <;> exact h)
    simp [hne]

theorem finalizeBasicBlock (hw : Wf cfg s) (h : Dagger.finalizeBasicBlock s = some s') : Frame s s' := by
  obtain ⟨bb, s1, hbb, hs1, rfl⟩ := finalizeBasicBlock_eq_some h
  refine trans ?_
    (of_eq rfl rfl rfl rfl : Frame s1 { DRS.finalizeBasicBlock s1 with theBB := none, theMCBB := none })
  rcases hs1 with ⟨-, rfl⟩ | ⟨-, mcbb, -, rfl⟩
  · exact refl _
  · have hi : (getOrCreateBasicBlock mcbb.endAddr s).2.insertPt = bb := by
      rw [getOrCreateBasicBlock_insertPt, hw.theBB_eq bb hbb]
    rw [← hi]
    exact (getOrCreate s _).trans (append (hw.getOrCreate _).1 _)

theorem insert (hw : Wf cfg s) (i : Inst) : Frame s (s.insert i) :=
  (append hw i).trans (of_eq rfl rfl rfl rfl)

/-- **Every primitive move of translation keeps the frame.** -/
theorem prim (hw : Wf cfg s) (h : Prim cfg s s') : Frame s s' := by
  cases h with
  | emit | brExit => exact insert hw _
  | undef => exact (insert hw _).trans (insert (hw.insert (by simp) (fun j h => by cases h; rfl) (by simp)) _)
  | rsiEmit v _ => rw [hw.rsiBB_eq]; exact append hw _
  | quiet hs _ _ => exact of_shape hs
  | getReg | setReg => exact of_eq rfl rfl rfl rfl
  | br a => exact (getOrCreate s a).trans (insert (hw.getOrCreate a).1 _)
  | call t cb _ h => exact insertCallBB hw h

theorem prims (hw : Wf cfg s) (h : Prims cfg s s') : Frame s s' := by
  induction h with
  | refl => exact refl _
  | tail h₁ hp ih => exact ih.trans (prim (hw.prims h₁) hp)

theorem switchToBasicBlock (hw : Wf cfg s) {a : UInt64} (h : Dagger.switchToBasicBlock cfg a s = some s') :
    Frame s s' := by
  obtain ⟨x, c, hx, -, rfl⟩ := switchToBasicBlock_eq_some h
  obtain ⟨hw1, hm⟩ := hw.getOrCreate a
  refine (getOrCreate s a).trans (Frame.trans ?_ (prims ?_ (setReg_prims _ _ .refl)))
  · simp only [DRS.switchToBasicBlock, DCFunction.log]
    refine ⟨Nat.le_refl _, fun _ _ h => h, fun _ h => List.mem_append_left _ h, fun b _ => by simp, fun b _ ho => ?_⟩
    dsimp only
    refine DCFunction.modifyInsts_blocks_of_ne fun e => ho ?_
    subst e
    simp [hw1.map a _ hm, Origin.IsOpen]
  · exact (hw1.openBlock hm hx).of_shape rfl

/-- **Every operation keeps the frame.** -/
theorem apply (hw : Wf cfg s) {op : Op} (h : op.apply cfg s = some s') : Frame s s' := by
  cases op with
  | switchToBasicBlock mcbb =>
    exact (of_eq rfl rfl rfl rfl : Frame s { s with theMCBB := some mcbb }).trans
      (switchToBasicBlock (hw.of_shape rfl) h)
  | translateInst i =>
    obtain ⟨⟨b, s1⟩, h1, rfl⟩ := Option.map_eq_some'.mp h
    have hw₀ : Wf cfg ({ s with currentInst := some i }.log (.switchToInst i.address)) := hw.of_shape rfl
    exact (of_eq rfl rfl rfl rfl : Frame s ({ s with currentInst := some i }.log _)).trans
      ((prims hw₀ (switchToInst_prims i)).trans
      (prims (hw₀.prims (switchToInst_prims i)) (translateInst_prims h1)))
  | finalizeBasicBlock => exact finalizeBasicBlock hw h
  | insertCall t => exact prims hw (insertCall_prims .refl h)
  | createExternalTailCallBB a =>
    obtain ⟨s1, cb, s2, h1, h2, rfl⟩ := createExternalTailCallBB_eq_some h
    have hw1 := hw.switchToBasicBlock h1
    have hw2 := hw1.insertCallBB (by rfl) h2
    exact (switchToBasicBlock hw h1).trans ((insertCallBB hw1 h2).trans
      ((insert hw2 .ret).trans (of_eq rfl rfl rfl rfl)))

theorem run (hw : Wf cfg s) {ops : List Op} (h : Op.run cfg ops s = some s') : Frame s s' := by
  induction ops generalizing s with
  | nil => cases h; exact refl _
  | cons op ops ih =>
    obtain ⟨s₁, h₁, h⟩ := Option.bind_eq_some.mp h
    exact (apply hw h₁).trans (ih (hw.apply h₁) h)

end Frame

end Dagger
