import Dagger.Invariant

/-!
# The names of call successors

`insertCallBB` names the block where translation goes on after a call after the
current block: its name cut at `find_first_of("_c")`, then `_c` and the call
instruction's address. `find_first_of` looks for the first character that is
`_` or `c`, not for the string `_c`. The blocks an MC block is translated into
are named `bb_...`, so the cut always falls after `bb`, and a call successor is
named `bb_c<addr>` whatever block it continues.

* `AddrNamed.reachable`: in every reachable state the block of an address `a` is
  named `bb_<hex a>`;
* `SuccNamed.translateInsts`: while an MC block is translated, the insertion
  block is named `bb_...` and every call successor made so far `bb_c...`;
* `callSucc_names`: translating the MC block at `A` makes call successors named
  `bb_c...`, never `bb_<hex A>_c...`.
-/

namespace Dagger

/-! ## Names -/

/-- `Char.toUpper` never gives `c`, which is lower case. -/
theorem toUpper_ne_c (ch : Char) : ch.toUpper ≠ 'c' := by
  simp only [Char.toUpper]
  split
  · have key : ∀ m < 91, 65 ≤ m → Char.ofNat m ≠ 'c' := by decide
    exact key _ (by omega) (by omega)
  · rename_i h
    rintro rfl
    exact h ⟨by decide, by decide⟩

theorem c_not_mem_utohexstr (a : UInt64) : 'c' ∉ (utohexstr a).data := by
  simp only [utohexstr, List.mem_map, not_exists, not_and]
  exact fun ch _ => toUpper_ne_c ch

/-- `find_first_of("_c")` stops at the `_` of `bb_`. -/
@[simp] theorem stripCallSuffix_bb (y : String) : stripCallSuffix ("bb_" ++ y) = "bb" := by
  simp [stripCallSuffix]

/-- A name `bb_c...` is never `bb_<hex A>_c...`: its fourth character is `c`,
and `utohexstr` writes no `c`. -/
theorem bb_c_ne (a : UInt64) (y z : String) : "bb_c" ++ y ≠ "bb_" ++ utohexstr a ++ "_c" ++ z := by
  intro h
  have h' := congrArg String.toList h
  simp only [String.toList, String.data_append] at h'
  cases hd : (utohexstr a).data with
  | nil => simp [hd] at h'
  | cons d ds =>
    simp [hd] at h'
    exact c_not_mem_utohexstr a (hd ▸ h'.1 ▸ List.mem_cons_self _ _)

/-- The successor of a call made in a block named `bb_...`. -/
theorem callSuccName_bb {s : DCFunction} {y : String} (hy : (s.blocks s.insertPt).name = "bb_" ++ y) :
    ∃ z, callSuccName s s.insertPt = "bb_c" ++ z :=
  ⟨_, by rw [callSuccName, hy, stripCallSuffix_bb, String.append_assoc]; rfl⟩

/-! ## The blocks of the map -/

/-- Every block made for an address `a` is named `bb_<hex a>`. -/
def AddrNamed (s : DCFunction) : Prop :=
  ∀ a b, (s.blocks b).origin = .addr a → (s.blocks b).name = "bb_" ++ utohexstr a

namespace AddrNamed

variable {cfg : Config} {s s' : DCFunction}

theorem of_blocks (h : AddrNamed s) (hb : s'.blocks = s.blocks) : AddrNamed s' :=
  fun a b => hb ▸ h a b

theorem appendInst (h : AddrNamed s) (b : Nat) (i : Inst) : AddrNamed (s.appendInst b i) :=
  fun a b' hb => by simpa using h a b' (by simpa using hb)

theorem modifyInsts (h : AddrNamed s) (b : Nat) (f : List Inst → List Inst) :
    AddrNamed (s.modifyInsts b f) :=
  fun a b' hb => by simpa using h a b' (by simpa using hb)

theorem insert (h : AddrNamed s) (i : Inst) : AddrNamed (s.insert i) := h.appendInst _ _

theorem emit (h : AddrNamed s) (code : List Instr) : AddrNamed (DRS.emit s code) := h.modifyInsts _ _

theorem getOrCreate (h : AddrNamed s) (a : UInt64) : AddrNamed (getOrCreateBasicBlock a s).2 := by
  cases hn : s.bbByAddr a with
  | some b => rwa [getOrCreateBasicBlock_of_some hn]
  | none =>
    rw [getOrCreateBasicBlock_of_none hn]
    intro a' b hb
    by_cases e : b = s.numBlocks
    · subst e
      simp only [Function.update_same, Origin.addr.injEq] at hb ⊢
      rw [hb]
    · simp only [Function.update_noteq e] at hb ⊢
      exact h a' b hb

theorem insertCallBB (hw : Wf cfg s) (h : AddrNamed s) {t : Value} {cb : Nat}
    (hc : Dagger.insertCallBB t s = some (cb, s')) : AddrNamed s' := by
  obtain ⟨-, -, rfl⟩ := insertCallBB_eq_some hc hw.insertPt_lt
  intro a b hb
  dsimp only at hb ⊢
  split_ifs at hb ⊢ <;> first | cases hb | exact h a b hb

theorem prim (hw : Wf cfg s) (h : AddrNamed s) (hp : Prim cfg s s') : AddrNamed s' := by
  cases hp with
  | emit | brExit => exact h.insert _
  | undef => exact (h.insert _).insert _
  | rsiEmit => exact h.appendInst _ _
  | quiet hs _ _ => exact h.of_blocks (congrArg Shape.blocks hs)
  | getReg | setReg => exact h
  | br a => exact (h.getOrCreate a).insert _
  | call t cb _ hc => exact h.insertCallBB hw hc

theorem prims (hw : Wf cfg s) (h : AddrNamed s) (hp : Prims cfg s s') : AddrNamed s' := by
  induction hp with
  | refl => exact h
  | tail h₁ hp ih => exact ih.prim (hw.prims h₁) hp

theorem switchToBasicBlock (h : AddrNamed s) {a : UInt64}
    (hs : Dagger.switchToBasicBlock cfg a s = some s') : AddrNamed s' := by
  obtain ⟨x, c, -, -, rfl⟩ := switchToBasicBlock_eq_some hs
  refine AddrNamed.emit ?_ _
  exact ((h.getOrCreate a).modifyInsts (getOrCreateBasicBlock a s).1 fun _ => []).of_blocks rfl

/-- Every operation keeps the names of the map's blocks. -/
theorem apply (hw : Wf cfg s) (h : AddrNamed s) {op : Op} (ha : op.apply cfg s = some s') :
    AddrNamed s' := by
  cases op with
  | switchToBasicBlock mcbb => exact switchToBasicBlock (s := { s with theMCBB := some mcbb }) h ha
  | translateInst i =>
    obtain ⟨⟨b, s1⟩, h1, rfl⟩ := Option.map_eq_some'.mp ha
    exact prims (s := DRS.switchToInst cfg { s with currentInst := some i } i)
      ((hw.of_shape rfl : Wf cfg ({ s with currentInst := some i }.log _)).prims (switchToInst_prims i))
      (h.emit _) (translateInst_prims h1)
  | finalizeBasicBlock =>
    obtain ⟨bb, s1, -, hs1, rfl⟩ := finalizeBasicBlock_eq_some ha
    rcases hs1 with ⟨-, rfl⟩ | ⟨-, mcbb, -, rfl⟩
    · exact h
    · exact ((h.getOrCreate _).appendInst _ _).of_blocks rfl
  | insertCall t => exact h.prims hw (insertCall_prims .refl ha)
  | createExternalTailCallBB a =>
    obtain ⟨s1, cb, s2, h1, h2, rfl⟩ := createExternalTailCallBB_eq_some ha
    exact (((h.switchToBasicBlock h1).insertCallBB (hw.switchToBasicBlock h1) h2).insert .ret).of_blocks rfl

/-- The constructor makes one block for an address, the first. -/
theorem new (cfg : Config) (a : UInt64) : AddrNamed (DCFunction.new cfg a) := by
  simp only [DCFunction.new]
  refine (AddrNamed.getOrCreate ?_ a).insert _
  intro a' b hb
  split at hb <;>
    simp only [DCFunction.createBlock_eq, Builder.createAlloca, Builder.createLoad, Builder.createStore,
      DCFunction.insert_eq, DCFunction.appendInst_eq, DCFunction.empty, Function.update_apply] at hb <;>
    rcases b with _ | _ | _ | b <;> simp at hb

/-- **The blocks of the map are named after their address**, in every reachable
state. -/
theorem reachable {a₀ : UInt64} (hs : Reachable cfg a₀ s) : AddrNamed s := by
  induction hs with
  | init => exact new cfg a₀
  | step op hs' h ih => exact ih.apply (Wf.reachable hs') h

end AddrNamed

/-! ## Call successors along an MC block -/

/-- While an MC block is translated: the insertion block is named `bb_...`, and
every call successor from block `n₀` on is named `bb_c...`. -/
def SuccNamed (n₀ : Nat) (s : DCFunction) : Prop :=
  (∃ y, (s.blocks s.insertPt).name = "bb_" ++ y) ∧
    ∀ b cb, n₀ ≤ b → (s.blocks b).origin = .callSucc cb → ∃ y, (s.blocks b).name = "bb_c" ++ y

namespace SuccNamed

variable {cfg : Config} {n₀ : Nat} {s s' : DCFunction}

theorem of_eq (h : SuccNamed n₀ s) (hb : s'.blocks = s.blocks) (hi : s'.insertPt = s.insertPt) :
    SuccNamed n₀ s' := by
  simpa only [SuccNamed, hb, hi] using h

theorem appendInst (h : SuccNamed n₀ s) (b : Nat) (i : Inst) : SuccNamed n₀ (s.appendInst b i) := by
  simpa [SuccNamed] using h

theorem insert (h : SuccNamed n₀ s) (i : Inst) : SuccNamed n₀ (s.insert i) := h.appendInst _ _

theorem emit (h : SuccNamed n₀ s) (code : List Instr) : SuccNamed n₀ (DRS.emit s code) := by
  simpa [SuccNamed, DRS.emit] using h

theorem getOrCreate (hw : Wf cfg s) (h : SuccNamed n₀ s) (a : UInt64) :
    SuccNamed n₀ (getOrCreateBasicBlock a s).2 := by
  cases hn : s.bbByAddr a with
  | some b => rwa [getOrCreateBasicBlock_of_some hn]
  | none =>
    rw [getOrCreateBasicBlock_of_none hn]
    refine ⟨by simpa [Function.update_noteq (Nat.ne_of_lt hw.insertPt_lt)] using h.1, fun b cb hb ho => ?_⟩
    by_cases e : b = s.numBlocks
    · subst e
      simp at ho
    · simp only [Function.update_noteq e] at ho ⊢
      exact h.2 b cb hb ho

theorem insertCallBB (hw : Wf cfg s) (h : SuccNamed n₀ s) {t : Value} {cb : Nat}
    (hc : Dagger.insertCallBB t s = some (cb, s')) : SuccNamed n₀ s' := by
  obtain ⟨-, -, rfl⟩ := insertCallBB_eq_some hc hw.insertPt_lt
  obtain ⟨z, hz⟩ := callSuccName_bb h.1.choose_spec
  refine ⟨⟨"c" ++ z, by simp [hz, ← String.append_assoc]⟩, fun b cb hb ho => ?_⟩
  dsimp only at ho ⊢
  split_ifs at ho ⊢ <;> first | exact ⟨z, hz⟩ | exact h.2 b cb hb ho

theorem prim (hw : Wf cfg s) (h : SuccNamed n₀ s) (hp : Prim cfg s s') : SuccNamed n₀ s' := by
  cases hp with
  | emit | brExit => exact h.insert _
  | undef => exact (h.insert _).insert _
  | rsiEmit => exact h.appendInst _ _
  | quiet hs _ _ => exact h.of_eq (congrArg Shape.blocks hs) (congrArg Shape.insertPt hs)
  | getReg | setReg => exact h
  | br a => exact (h.getOrCreate hw a).insert _
  | call t cb _ hc => exact h.insertCallBB hw hc

theorem prims (hw : Wf cfg s) (h : SuccNamed n₀ s) (hp : Prims cfg s s') : SuccNamed n₀ s' := by
  induction hp with
  | refl => exact h
  | tail h₁ hp ih => exact ih.prim (hw.prims h₁) hp

/-- Opening the block of an address: it is named `bb_<hex a>`, and no call
successor exists yet from the first new block on. -/
theorem switchToBasicBlock (hw : Wf cfg s) (hn : AddrNamed s) {a : UInt64}
    (hs : Dagger.switchToBasicBlock cfg a s = some s') : SuccNamed s.numBlocks s' := by
  obtain ⟨x, c, -, -, rfl⟩ := switchToBasicBlock_eq_some hs
  obtain ⟨hw₁, hm⟩ := hw.getOrCreate a
  refine SuccNamed.emit ⟨⟨utohexstr a, ?_⟩, fun b cb hb ho => ?_⟩ _
  · change (((getOrCreateBasicBlock a s).2.modifyInsts _ fun _ => []).blocks _).name = _
    rw [DCFunction.modifyInsts_name]
    exact hn.getOrCreate a a _ (hw₁.map a _ hm)
  change (((getOrCreateBasicBlock a s).2.modifyInsts _ fun _ => []).blocks b).origin = _ at ho
  rw [DCFunction.modifyInsts_origin] at ho
  cases hn' : s.bbByAddr a with
  | some b' => simp [getOrCreateBasicBlock_of_some hn', hw.fresh b hb] at ho
  | none =>
    rw [getOrCreateBasicBlock_of_none hn'] at ho
    by_cases e : b = s.numBlocks
    · subst e
      simp at ho
    · simp [Function.update_noteq e, hw.fresh b hb] at ho

/-- **The run lemma.** Instructions translated one after another keep the names. -/
theorem translateInsts (hw : Wf cfg s) (h : SuccNamed n₀ s) {insts : List MCDecodedInst}
    (hr : Op.run cfg (insts.map .translateInst) s = some s') : SuccNamed n₀ s' := by
  induction insts generalizing s with
  | nil => cases hr; exact h
  | cons i insts ih =>
    obtain ⟨s₁, h₁, hr⟩ := Option.bind_eq_some.mp hr
    obtain ⟨⟨b, s₂⟩, h₂, rfl⟩ := Option.map_eq_some'.mp h₁
    have hw₁ : Wf cfg (DRS.switchToInst cfg { s with currentInst := some i } i) :=
      (hw.of_shape rfl : Wf cfg ({ s with currentInst := some i }.log _)).prims (switchToInst_prims i)
    have h₁' : SuccNamed n₀ ({ s with currentInst := some i }.log (.switchToInst i.address)) := h
    exact ih (hw.apply h₁) (prims hw₁ (h₁'.emit _) (translateInst_prims h₂)) hr

end SuccNamed

/-- **The names of call successors.** Translating the MC block at `A` from any
reachable state, every call successor it makes is named `bb_c` followed by the
call's address: never `bb_<hex A>_c...`, the name of the block the call was
made in with its address kept. -/
theorem callSucc_names {cfg : Config} {a₀ : UInt64} {s s' : DCFunction} (hs : Reachable cfg a₀ s)
    {mcbb : MCBasicBlock} {insts : List MCDecodedInst}
    (h : Op.run cfg (.switchToBasicBlock mcbb :: insts.map .translateInst) s = some s') :
    ∀ b cb, s.numBlocks ≤ b → (s'.blocks b).origin = .callSucc cb →
      ∃ y, (s'.blocks b).name = "bb_c" ++ y ∧
        ∀ z, (s'.blocks b).name ≠ "bb_" ++ utohexstr mcbb.startAddr ++ "_c" ++ z := by
  have hw := Wf.reachable hs
  obtain ⟨s₁, h₁, h⟩ := Option.bind_eq_some.mp h
  have hn₁ : SuccNamed s.numBlocks s₁ :=
    SuccNamed.switchToBasicBlock (s := { s with theMCBB := some mcbb }) (hw.of_shape rfl)
      ((AddrNamed.reachable hs).of_blocks rfl) h₁
  intro b cb hb ho
  obtain ⟨y, hy⟩ := (SuccNamed.translateInsts (hw.apply h₁) hn₁ h).2 b cb hb ho
  exact ⟨y, hy, fun z => hy ▸ bb_c_ne _ _ _⟩

/-- A target whose every instruction has the tape `GET_REG 1`, `BRIND`: an
indirect branch to the address in register 1, which the core translates as a
call. -/
def brindCfg : Config :=
  ⟨⟨fun _ => 0, [1, 0, 1, 2, 0, 3], fun _ => 0,
      fun t => if t = 1 then .getReg else if t = 2 then .brind else if t = 3 then .endOfInstruction else .other,
      fun _ => .ty (.int 64), fun _ => .other⟩,
    ⟨0, fun _ => .int 64⟩, ⟨false, false, false⟩, .declineAll, .silent⟩

/-- One such instruction, at `0x1000`. -/
def brindBlock : MCBasicBlock := ⟨0x1000, 0x1004, [⟨0x1000, 4, ⟨0, []⟩⟩]⟩

/-- The call at `0x1000` in the block at `0x1000` continues in `bb_c1000`
(block 4, after the call block 3), not in `bb_1000_c1000`. -/
theorem callSucc_names_brind :
    ∃ s', Op.run brindCfg (.switchToBasicBlock brindBlock :: brindBlock.insts.map .translateInst)
        (DCFunction.new brindCfg 0x1000) = some s' ∧
      (s'.blocks 4).origin = .callSucc 3 ∧ (s'.blocks 4).name = "bb_c1000" ∧
      ∀ z, (s'.blocks 4).name ≠ "bb_" ++ utohexstr 0x1000 ++ "_c" ++ z := by
  obtain ⟨s', h⟩ : ∃ s', Op.run brindCfg (.switchToBasicBlock brindBlock :: brindBlock.insts.map .translateInst)
      (DCFunction.new brindCfg 0x1000) = some s' := Option.isSome_iff_exists.mp (by decide)
  have ho : (s'.blocks 4).origin = .callSucc 3 := Op.run_map_eq (fun s => (s.blocks 4).origin) h (by decide)
  obtain ⟨y, -, hne⟩ := callSucc_names (.init : Reachable brindCfg 0x1000 _) h 4 3 (by decide) ho
  exact ⟨s', h, ho, Op.run_map_eq (fun s => (s.blocks 4).name) h (by decide), hne⟩

end Dagger
