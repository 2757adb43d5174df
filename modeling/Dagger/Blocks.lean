import Dagger.Steps

/-!
# Spec lemmas of the block operations

What each operation of `lib/DC/DCFunction.cpp` that creates, opens, splits or
closes blocks does to the state, stated once so that the invariants never unfold
it again:

* the small lemmas of appending to a block and editing its instructions;
* `getOrCreateBasicBlock`: the map's block, or a new placeholder;
* `SwitchToBasicBlock`: the block of the address held two instructions with
  `unreachable` second, and is emptied and made current;
* `FinalizeBasicBlock`: a fall-through branch unless the block ends with a
  terminator;
* `insertCallBB`: the current block branches to a new call block, which
  branches to a new successor, now current;
* `createExternalTailCallBB`: an opening, a call block and a `ret`.
-/

namespace Dagger

/-! ## Editing blocks -/

@[simp] theorem BasicBlock.default_insts : (default : BasicBlock).insts = [] := rfl
@[simp] theorem BasicBlock.default_origin : (default : BasicBlock).origin = .unused := rfl

namespace DCFunction

variable (s : DCFunction)

theorem appendInst_eq (b : Nat) (i : Inst) : s.appendInst b i =
    { s with blocks := (Function.update s.blocks b
        { s.blocks b with insts := (s.blocks b).insts ++ [i] }) } := rfl

theorem modifyInsts_eq (b : Nat) (f : List Inst → List Inst) : s.modifyInsts b f =
    { s with blocks := (Function.update s.blocks b
        { s.blocks b with insts := f (s.blocks b).insts }) } := rfl

variable {s} {b b' : Nat} {i x : Inst}

@[simp] theorem appendInst_numBlocks : (s.appendInst b i).numBlocks = s.numBlocks := rfl
@[simp] theorem appendInst_bbByAddr : (s.appendInst b i).bbByAddr = s.bbByAddr := rfl
@[simp] theorem appendInst_exitBB : (s.appendInst b i).exitBB = s.exitBB := rfl
@[simp] theorem appendInst_callBBs : (s.appendInst b i).callBBs = s.callBBs := rfl
@[simp] theorem appendInst_theBB : (s.appendInst b i).theBB = s.theBB := rfl
@[simp] theorem appendInst_insertPt : (s.appendInst b i).insertPt = s.insertPt := rfl
@[simp] theorem appendInst_rsiBB : (s.appendInst b i).rsiBB = s.rsiBB := rfl
@[simp] theorem appendInst_opened : (s.appendInst b i).opened = s.opened := rfl
@[simp] theorem appendInst_tailCalls : (s.appendInst b i).tailCalls = s.tailCalls := rfl
@[simp] theorem appendInst_trace : (s.appendInst b i).trace = s.trace := rfl
@[simp] theorem appendInst_regVals : (s.appendInst b i).regVals = s.regVals := rfl

variable {f : List Inst → List Inst}

@[simp] theorem modifyInsts_numBlocks : (s.modifyInsts b f).numBlocks = s.numBlocks := rfl
@[simp] theorem modifyInsts_bbByAddr : (s.modifyInsts b f).bbByAddr = s.bbByAddr := rfl
@[simp] theorem modifyInsts_exitBB : (s.modifyInsts b f).exitBB = s.exitBB := rfl
@[simp] theorem modifyInsts_callBBs : (s.modifyInsts b f).callBBs = s.callBBs := rfl
@[simp] theorem modifyInsts_tailCalls : (s.modifyInsts b f).tailCalls = s.tailCalls := rfl
@[simp] theorem modifyInsts_opened : (s.modifyInsts b f).opened = s.opened := rfl
@[simp] theorem modifyInsts_trace : (s.modifyInsts b f).trace = s.trace := rfl
@[simp] theorem modifyInsts_theBB : (s.modifyInsts b f).theBB = s.theBB := rfl
@[simp] theorem modifyInsts_insertPt : (s.modifyInsts b f).insertPt = s.insertPt := rfl
@[simp] theorem modifyInsts_rsiBB : (s.modifyInsts b f).rsiBB = s.rsiBB := rfl
@[simp] theorem modifyInsts_regVals : (s.modifyInsts b f).regVals = s.regVals := rfl

@[simp] theorem modifyInsts_origin : ((s.modifyInsts b f).blocks b').origin = (s.blocks b').origin := by
  by_cases h : b' = b <;> simp [modifyInsts_eq, Function.update_apply, h]

@[simp] theorem modifyInsts_name : ((s.modifyInsts b f).blocks b').name = (s.blocks b').name := by
  by_cases h : b' = b <;> simp [modifyInsts_eq, Function.update_apply, h]

theorem modifyInsts_blocks_of_ne (h : b' ≠ b) : (s.modifyInsts b f).blocks b' = s.blocks b' := by
  simp [modifyInsts_eq, Function.update_apply, h]

@[simp] theorem modifyInsts_insts_self : ((s.modifyInsts b f).blocks b).insts = f (s.blocks b).insts := by
  simp [modifyInsts_eq]

@[simp] theorem appendInst_origin : ((s.appendInst b i).blocks b').origin = (s.blocks b').origin := by
  by_cases h : b' = b <;> simp [appendInst_eq, Function.update_apply, h]

@[simp] theorem appendInst_name : ((s.appendInst b i).blocks b').name = (s.blocks b').name := by
  by_cases h : b' = b <;> simp [appendInst_eq, Function.update_apply, h]

theorem appendInst_blocks_of_ne (h : b' ≠ b) : (s.appendInst b i).blocks b' = s.blocks b' := by
  simp [appendInst_eq, Function.update_apply, h]

@[simp] theorem appendInst_insts_self : ((s.appendInst b i).blocks b).insts = (s.blocks b).insts ++ [i] := by
  simp [appendInst_eq]

theorem mem_appendInst_insts : x ∈ ((s.appendInst b i).blocks b').insts ↔
    x ∈ (s.blocks b').insts ∨ b' = b ∧ x = i := by
  by_cases h : b' = b
  · subst h; simp
  · simp [appendInst_blocks_of_ne h, h]

variable (s)

theorem insert_eq (i : Inst) : s.insert i =
    { s.appendInst s.insertPt i with trace := s.trace ++ [.insert s.insertPt i] } := rfl

theorem createBlock_eq (n : String) (o : Origin) : s.createBlock n o =
    (s.numBlocks, { s with
      blocks := Function.update s.blocks s.numBlocks ⟨n, [], o⟩
      numBlocks := s.numBlocks + 1 }) := rfl

end DCFunction

/-! ## The block operations -/

section Spec

variable {cfg : Config} {s s' : DCFunction} {a : UInt64}

theorem getOrCreateBasicBlock_of_some {b : Nat} (h : s.bbByAddr a = some b) :
    getOrCreateBasicBlock a s = (b, s) := by
  simp [getOrCreateBasicBlock, h]

/-- A new address gets a new block holding the placeholder. -/
theorem getOrCreateBasicBlock_of_none (h : s.bbByAddr a = none) :
    getOrCreateBasicBlock a s = (s.numBlocks, { s with
      blocks := (Function.update s.blocks s.numBlocks
        ⟨"bb_" ++ utohexstr a, [.instr trapCall, .unreachable], .addr a⟩)
      numBlocks := s.numBlocks + 1
      bbByAddr := Function.update s.bbByAddr a (some s.numBlocks) }) := by
  simp [getOrCreateBasicBlock, h, DCFunction.createBlock_eq, DCFunction.appendInst_eq]

/-- After `getOrCreateBasicBlock a`, the map sends `a` to the block it returned. -/
theorem getOrCreateBasicBlock_map (s : DCFunction) (a : UInt64) :
    (getOrCreateBasicBlock a s).2.bbByAddr a = some (getOrCreateBasicBlock a s).1 := by
  cases h : s.bbByAddr a <;> simp [getOrCreateBasicBlock_of_some, getOrCreateBasicBlock_of_none, h]

@[simp] theorem getOrCreateBasicBlock_insertPt (s : DCFunction) (a : UInt64) :
    (getOrCreateBasicBlock a s).2.insertPt = s.insertPt := by
  cases h : s.bbByAddr a <;> simp [getOrCreateBasicBlock_of_some, getOrCreateBasicBlock_of_none, h]

@[simp] theorem getOrCreateBasicBlock_trace (s : DCFunction) (a : UInt64) :
    (getOrCreateBasicBlock a s).2.trace = s.trace := by
  cases h : s.bbByAddr a <;> simp [getOrCreateBasicBlock_of_some, getOrCreateBasicBlock_of_none, h]

@[simp] theorem getOrCreateBasicBlock_opened (s : DCFunction) (a : UInt64) :
    (getOrCreateBasicBlock a s).2.opened = s.opened := by
  cases h : s.bbByAddr a <;> simp [getOrCreateBasicBlock_of_some, getOrCreateBasicBlock_of_none, h]

@[simp] theorem getOrCreateBasicBlock_regVals (s : DCFunction) (a : UInt64) :
    (getOrCreateBasicBlock a s).2.regVals = s.regVals := by
  cases h : s.bbByAddr a <;> simp [getOrCreateBasicBlock_of_some, getOrCreateBasicBlock_of_none, h]

/-- `SwitchToBasicBlock(a)` empties the block of `a`, which held two
instructions with `unreachable` second, and makes it current. -/
theorem switchToBasicBlock_eq_some (h : switchToBasicBlock cfg a s = some s') :
    ∃ x c, ((getOrCreateBasicBlock a s).2.blocks (getOrCreateBasicBlock a s).1).insts =
        [x, .unreachable] ∧
      ConstantInt.get (cfg.regs.regType cfg.regs.programCounter) a.toNat = some c ∧
      s' = DRS.setReg cfg (DRS.switchToBasicBlock
        { (getOrCreateBasicBlock a s).2.modifyInsts (getOrCreateBasicBlock a s).1 (fun _ => []) with
          theBB := some (getOrCreateBasicBlock a s).1
          insertPt := (getOrCreateBasicBlock a s).1
          opened := (getOrCreateBasicBlock a s).2.opened ++ [a] }
        (getOrCreateBasicBlock a s).1) cfg.regs.programCounter c := by
  simp only [switchToBasicBlock, prepareBasicBlockForInsertion, Option.bind_eq_bind,
    Option.bind_eq_some, pure, Option.some.injEq] at h
  obtain ⟨s1, h1, c, hc, rfl⟩ := h
  split at h1
  · rename_i x hx
    cases h1
    exact ⟨x, c, hx, hc, by simp [DCFunction.modifyInsts_eq, hx]⟩
  · cases h1

/-- `FinalizeBasicBlock` closes the current block, first branching to the block
at the MC block's end address unless the block already ends with a terminator. -/
theorem finalizeBasicBlock_eq_some (h : finalizeBasicBlock s = some s') :
    ∃ bb s1, s.theBB = some bb ∧
      ((s.blocks bb).getTerminator.isSome ∧ s1 = s ∨
        (s.blocks bb).getTerminator.isNone ∧ ∃ mcbb, s.theMCBB = some mcbb ∧
          s1 = (getOrCreateBasicBlock mcbb.endAddr s).2.appendInst bb
            (.br (getOrCreateBasicBlock mcbb.endAddr s).1)) ∧
      s' = { DRS.finalizeBasicBlock s1 with theBB := none, theMCBB := none } := by
  unfold finalizeBasicBlock at h
  cases hbb : s.theBB with
  | none => simp [hbb] at h
  | some bb =>
    simp only [hbb, Option.bind_eq_bind, Option.some_bind] at h
    split at h
    · rename_i hn
      simp only [Option.bind_eq_some, pure, Option.some.injEq] at h
      obtain ⟨mcbb, hm, _, rfl, rfl⟩ := h
      exact ⟨bb, _, rfl, .inr ⟨hn, mcbb, hm, rfl⟩, rfl⟩
    · rename_i hn
      simp only [pure, Option.some_bind, Option.some.injEq] at h
      exact ⟨bb, s, rfl, .inl ⟨Option.isSome_iff_ne_none.mpr (by simpa using hn), rfl⟩, h.symm⟩

/-- The name `insertCallBB` gives a call's successor block: the current block's
name up to its first `_` or `c`, then `_c` and the call instruction's address. -/
def callSuccName (s : DCFunction) (cur : Nat) : String :=
  stripCallSuffix (s.blocks cur).name ++ "_c" ++ match s.currentInst with
    | some i => utohexstr i.address
    | none => ""

/-- `insertCallBB` needs a current block, which is where the builder inserts; it
ends it with a branch to a new call block, which branches to a new successor
block, where the builder and the register semantics go on. -/
theorem insertCallBB_eq_some {t : Value} {cb : Nat} (h : insertCallBB t s = some (cb, s'))
    (hcur : s.insertPt < s.numBlocks) :
    s.theBB = some s.insertPt ∧ cb = s.numBlocks ∧
    s' = { s with
      blocks := fun b =>
        if b = s.numBlocks + 1 then ⟨callSuccName s s.insertPt, [], .callSucc s.numBlocks⟩
        else if b = s.numBlocks then ⟨(s.blocks s.insertPt).name ++ "_call",
          [.instr (.call t [.regSetArg]), .br (s.numBlocks + 1)], .call s.insertPt (s.numBlocks + 1)⟩
        else if b = s.insertPt then
          { s.blocks b with insts := (s.blocks b).insts ++ [.br s.numBlocks] }
        else s.blocks b
      numBlocks := s.numBlocks + 2
      callBBs := s.callBBs ++ [s.numBlocks]
      theBB := some (s.numBlocks + 1)
      insertPt := s.numBlocks + 1
      rsiBB := s.numBlocks + 1
      regVals := fun _ => none
      trace := s.trace ++ [.insert s.insertPt (.br s.numBlocks), .finalizeBasicBlock,
        .switchToBasicBlock (s.numBlocks + 1)] } := by
  simp only [insertCallBB, Option.bind_eq_bind, Option.bind_eq_some, guard, pure] at h
  obtain ⟨cur, hcur', _, hg, h⟩ := h
  split_ifs at hg with hpt
  simp only [DCFunction.createBlock, Builder.createBr, DCFunction.insert, DCFunction.appendInst,
    DCFunction.modifyInsts] at hpt
  subst hpt
  obtain ⟨rfl, rfl⟩ := Prod.mk.inj (Option.some.inj h)
  have h1 : s.insertPt ≠ s.numBlocks := by omega
  have h2 : s.insertPt ≠ s.numBlocks + 1 := by omega
  refine ⟨hcur', rfl, ?_⟩
  simp only [DCFunction.createBlock, Builder.createBr, DCFunction.insert, DCFunction.appendInst,
    DCFunction.modifyInsts, DRS.switchToBasicBlock, DRS.finalizeBasicBlock, DCFunction.log,
    callSuccName, DCFunction.mk.injEq, List.append_assoc, List.cons_append, List.nil_append,
    and_true, true_and]
  funext b
  simp only [Function.update_apply, h1, h2, if_false]
  clear h hg
  split_ifs <;> first | omega | (subst_vars; rfl)

theorem createExternalTailCallBB_eq_some (h : createExternalTailCallBB cfg a s = some s') :
    ∃ s1 cb s2, switchToBasicBlock cfg a s = some s1 ∧ insertCallBB (.function a) s1 = some (cb, s2) ∧
      s' = { Builder.createRetVoid s2 with tailCalls := s2.tailCalls ++ [s2.insertPt] } := by
  simp only [createExternalTailCallBB, Option.bind_eq_bind, Option.bind_eq_some, pure,
    Option.some.injEq] at h
  obtain ⟨s1, h1, ⟨cb, s2⟩, h2, rfl⟩ := h
  exact ⟨s1, cb, s2, h1, h2, rfl⟩

end Spec

end Dagger
