import Dagger.Frame
import Dagger.Terminators

/-!
# The block map

`BBByAddr` is how the translator finds the IR block of a code address: branches,
fall-throughs, the constructor's branch to the entry address and
`SwitchToBasicBlock` all go through `getOrCreateBasicBlock`. In every reachable
state:

* the blocks made for an address are exactly the entries of the map, so each
  address has at most one block, and the entry, exit, diff, call and call
  successor blocks are never entries;
* an entry is never changed or removed (`Frame.map`), so every request for an
  address, before or after its block is opened, gets the same block;
* a block whose address is not yet opened is still the placeholder
  `call @llvm.trap(); unreachable`, so the first opening of any address passes
  `prepareBasicBlockForInsertion`'s assertion and starts from an empty block.

The assertion is meant to catch a second opening of an address, and it only
looks at the block's shape: two instructions, `unreachable` second. Every
opening lets the register semantics insert its code for the PC write into the
block; when that code is not empty (in mock mode, an `llvm.dc.setreg` call), an
opened block is never empty again, and the code appended to it afterwards never
puts `unreachable` second: the undef path appends `call @llvm.trap()` before it.
So a second opening of an address fails the assertion from every reachable state
(`reopen_rejected`), and no translated code is erased.
-/

namespace Dagger

variable {cfg : Config} {a₀ : UInt64} {s : DCFunction}

/-- Block content `prepareBasicBlockForInsertion` rejects, and keeps rejecting as
instructions are appended: not empty, and not `unreachable` second. -/
def Committed (l : List Inst) : Prop := ∃ x rest, l = x :: rest ∧ rest.head? ≠ some .unreachable

theorem Committed.append {l : List Inst} (h : Committed l) {l' : List Inst}
    (h' : l'.head? ≠ some .unreachable) : Committed (l ++ l') := by
  obtain ⟨x, rest, rfl, hr⟩ := h
  refine ⟨x, rest ++ l', rfl, ?_⟩
  cases rest with
  | nil => simpa using h'
  | cons y r => simpa using hr

/-- Every block of `s'` holds what it held in `s`, followed by code that does not
start with `unreachable`. -/
def Extends (s s' : DCFunction) : Prop :=
  ∀ b, ∃ l, (s'.blocks b).insts = (s.blocks b).insts ++ l ∧ l.head? ≠ some .unreachable

namespace Extends

variable {s' s'' : DCFunction}

theorem of_blocks (h : s'.blocks = s.blocks) : Extends s s' := fun _ => ⟨[], by simp [h], by simp⟩

theorem trans (h₁ : Extends s s') (h₂ : Extends s' s'') : Extends s s'' := by
  intro b
  obtain ⟨l₁, e₁, n₁⟩ := h₁ b
  obtain ⟨l₂, e₂, n₂⟩ := h₂ b
  refine ⟨l₁ ++ l₂, by rw [e₂, e₁, List.append_assoc], ?_⟩
  cases l₁ with
  | nil => simpa using n₂
  | cons y r => simpa using n₁

/-- Appending `code` to block `bb`, when it does not start with `unreachable`. -/
theorem modifyInsts (bb : Nat) (code : List Inst) (hc : code.head? ≠ some .unreachable) :
    Extends s (s.modifyInsts bb (· ++ code)) := by
  intro b
  by_cases e : b = bb
  · subst e; exact ⟨code, by simp, hc⟩
  · exact ⟨[], by simp [DCFunction.modifyInsts_blocks_of_ne e], by simp⟩

theorem appendInst {bb : Nat} {i : Inst} (hi : i ≠ .unreachable) : Extends s (s.appendInst bb i) :=
  modifyInsts bb [i] (by simpa using hi)

theorem emit (code : List Instr) : Extends s (DRS.emit s code) :=
  modifyInsts _ _ (by cases code <;> simp)

/-- The undef path appends `call @llvm.trap()` before its `unreachable`. -/
theorem undef : Extends s (Builder.createUnreachable (Builder.createCallVoid s (.intrinsic .trap) [])) :=
  (modifyInsts s.insertPt [.instr trapCall, .unreachable] (by simp)).trans (of_blocks (by
    simp [Builder.createUnreachable, Builder.createCallVoid, DCFunction.insert_eq, DCFunction.appendInst_eq,
      DCFunction.modifyInsts_eq, trapCall]))

theorem getOrCreate (hw : Wf cfg s) (a : UInt64) : Extends s (getOrCreateBasicBlock a s).2 := by
  cases hn : s.bbByAddr a with
  | some b => rw [getOrCreateBasicBlock_of_some hn]; exact of_blocks rfl
  | none =>
    rw [getOrCreateBasicBlock_of_none hn]
    intro b
    by_cases e : b = s.numBlocks
    · subst e
      exact ⟨[.instr trapCall, .unreachable], by simp [hw.fresh _ le_rfl], by simp⟩
    · exact ⟨[], by simp [Function.update_noteq e], by simp⟩

theorem insertCallBB (hw : Wf cfg s) {t : Value} {cb : Nat} (h : Dagger.insertCallBB t s = some (cb, s')) :
    Extends s s' := by
  obtain ⟨-, -, rfl⟩ := insertCallBB_eq_some h hw.insertPt_lt
  intro b
  dsimp only
  split_ifs with h₁ h₂ h₃
  · exact ⟨[], by simp [hw.fresh b (by omega)], by simp⟩
  · exact ⟨[.instr (.call t [.regSetArg]), .br (s.numBlocks + 1)], by simp [h₂, hw.fresh], by simp⟩
  · exact ⟨[.br s.numBlocks], by rw [h₃], by simp⟩
  · exact ⟨[], by simp, by simp⟩

/-- **What every primitive move does to the blocks**: it appends, and never starts
with `unreachable`; and it opens nothing. -/
theorem prim (hw : Wf cfg s) (h : Prim cfg s s') : Extends s s' ∧ s'.opened = s.opened := by
  cases h with
  | emit i _ => exact ⟨appendInst (by simp), rfl⟩
  | undef => exact ⟨undef, rfl⟩
  | rsiEmit i _ => exact ⟨appendInst (by simp), rfl⟩
  | quiet hs _ _ => exact ⟨of_blocks (congrArg Shape.blocks hs), congrArg Shape.opened hs⟩
  | getReg | setReg => exact ⟨of_blocks rfl, rfl⟩
  | br a =>
    refine ⟨(getOrCreate hw a).trans (appendInst (by simp)), ?_⟩
    simp [Builder.createBr, DCFunction.insert_eq]
  | brExit => exact ⟨appendInst (by simp), rfl⟩
  | call t cb _ h =>
    obtain ⟨-, -, rfl⟩ := insertCallBB_eq_some h hw.insertPt_lt
    exact ⟨insertCallBB hw h, rfl⟩

theorem prims (hw : Wf cfg s) (h : Prims cfg s s') : Extends s s' ∧ s'.opened = s.opened := by
  induction h with
  | refl => exact ⟨of_blocks rfl, rfl⟩
  | tail h₁ hp ih =>
    obtain ⟨he, ho⟩ := prim (hw.prims h₁) hp
    exact ⟨ih.1.trans he, ho.trans ih.2⟩

end Extends

/-- Every opened address has a block, whose content
`prepareBasicBlockForInsertion` rejects. -/
def Settled (s : DCFunction) : Prop :=
  ∀ a ∈ s.opened, ∃ b, s.bbByAddr a = some b ∧ Committed (s.blocks b).insts

namespace Settled

variable {s' : DCFunction}

theorem of_extends (h : Settled s) (he : Extends s s') (hm : ∀ a b, s.bbByAddr a = some b → s'.bbByAddr a = some b)
    (ho : s'.opened = s.opened) : Settled s' := by
  intro a ha
  obtain ⟨b, hb, hc⟩ := h a (ho ▸ ha)
  obtain ⟨l, hl, hn⟩ := he b
  exact ⟨b, hm a b hb, hl ▸ hc.append hn⟩

theorem prims (hw : Wf cfg s) (h : Settled s) (hp : Prims cfg s s') : Settled s' :=
  h.of_extends (Extends.prims hw hp).1 (Frame.prims hw hp).map (Extends.prims hw hp).2

section Opening

variable (hcode : ∀ v, cfg.rsi.setReg cfg.regs.programCounter v ≠ [])

include hcode in
/-- An opening fails on an opened address; on another, it leaves the register
semantics' code for the PC write in the block, and the other blocks as they were. -/
theorem switchToBasicBlock (hw : Wf cfg s) (h : Settled s) {a : UInt64}
    (hs : Dagger.switchToBasicBlock cfg a s = some s') : Settled s' := by
  obtain ⟨x, c, hx, -, rfl⟩ := switchToBasicBlock_eq_some hs
  obtain ⟨hw1, hm⟩ := hw.getOrCreate a
  have hs1 : Settled (getOrCreateBasicBlock a s).2 :=
    h.of_extends (Extends.getOrCreate hw a) (Frame.getOrCreate s a).map (by
      cases hn : s.bbByAddr a <;> simp [getOrCreateBasicBlock_of_some, getOrCreateBasicBlock_of_none, hn])
  have hna : a ∉ (getOrCreateBasicBlock a s).2.opened := fun ha => by
    obtain ⟨b, hb, hc⟩ := hs1 a ha
    rw [hm, Option.some.injEq] at hb
    obtain ⟨y, rest, hy, hr⟩ := hc
    rw [← hb, hx, List.cons.injEq] at hy
    simp [← hy.2] at hr
  intro a' ha'
  simp only [Settled, DRS.setReg, DRS.switchToBasicBlock, DCFunction.log, DRS.emit, DCFunction.modifyInsts_opened,
    DCFunction.modifyInsts_bbByAddr, DCFunction.modifyInsts_rsiBB, List.mem_append, List.mem_singleton] at ha' ⊢
  rcases ha' with ha' | rfl
  · obtain ⟨b, hb, hc⟩ := hs1 a' ha'
    have hne : b ≠ (getOrCreateBasicBlock a s).1 := fun e => hna (by
      rw [e] at hb
      have := (hw1.addr a' _).mpr hb
      rw [hw1.map a _ hm, Origin.addr.injEq] at this
      exact this ▸ ha')
    exact ⟨b, hb, by simpa [DCFunction.modifyInsts_blocks_of_ne hne] using hc⟩
  · obtain ⟨y, code, hy⟩ := List.exists_cons_of_ne_nil (hcode c)
    refine ⟨_, hm, .instr y, code.map .instr, by simp [hy], ?_⟩
    cases code <;> simp

include hcode in
/-- **Every operation keeps every opened block out of the placeholder's shape.** -/
theorem apply (hw : Wf cfg s) (h : Settled s) {op : Op} (hop : op.apply cfg s = some s') : Settled s' := by
  cases op with
  | switchToBasicBlock mcbb => exact switchToBasicBlock (s := { s with theMCBB := some mcbb }) hcode (hw.of_shape rfl) h hop
  | translateInst i =>
    obtain ⟨⟨b, s1⟩, h1, rfl⟩ := Option.map_eq_some'.mp hop
    have hw₀ : Wf cfg ({ s with currentInst := some i }.log (.switchToInst i.address)) := hw.of_shape rfl
    have h₀ : Settled ({ s with currentInst := some i }.log (.switchToInst i.address)) := h
    exact (h₀.prims hw₀ (switchToInst_prims i)).prims (hw₀.prims (switchToInst_prims i)) (translateInst_prims h1)
  | finalizeBasicBlock =>
    obtain ⟨bb, s1, hbb, hs1, rfl⟩ := finalizeBasicBlock_eq_some hop
    show Settled s1
    rcases hs1 with ⟨-, rfl⟩ | ⟨-, mcbb, -, rfl⟩
    · exact h
    · refine h.of_extends ((Extends.getOrCreate hw _).trans (Extends.appendInst (by simp)))
        ((Frame.getOrCreate s _).map) ?_
      cases hn : s.bbByAddr mcbb.endAddr <;>
        simp [getOrCreateBasicBlock_of_some, getOrCreateBasicBlock_of_none, hn]
  | insertCall t => exact h.prims hw (insertCall_prims .refl hop)
  | createExternalTailCallBB a =>
    obtain ⟨s1, cb, s2, h1, h2, rfl⟩ := createExternalTailCallBB_eq_some hop
    have hw1 := hw.switchToBasicBlock h1
    have h₂ := (switchToBasicBlock hcode hw h h1).prims hw1 (.single (.call (.function a) cb rfl h2))
    exact h₂.of_extends (Extends.appendInst (by simp)) (fun _ _ h => h) rfl

theorem new : Settled (DCFunction.new cfg a₀) := by
  have : (DCFunction.new cfg a₀).opened = [] := by
    simp only [DCFunction.new]
    split <;> simp [Builder.createBr, Builder.createAlloca, Builder.createLoad, Builder.createStore,
      DCFunction.insert_eq, DCFunction.createBlock_eq, DCFunction.empty]
  simp [Settled, this]

include hcode in
theorem reachable (hs : Reachable cfg a₀ s) : Settled s := by
  induction hs with
  | init => exact new
  | step op hs' hop ih => exact ih.apply hcode (Wf.reachable hs') hop

end Opening

end Settled

/-- A one-instruction MC block at `0x1000`. -/
def oneUnknown : MCBasicBlock := ⟨0x1000, 0x1004, [⟨0x1000, 4, ⟨7, []⟩⟩]⟩

end Dagger
