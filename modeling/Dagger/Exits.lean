import Dagger.Invariant
import Dagger.Terminators
import Mathlib.Data.List.Chain

/-!
# Return paths and the register-set diff

The constructor makes the exit block, and with `-enable-dc-regset-diff` a diff
block that calls the register-set diff function and returns; the exit block
branches to it. Everything else that returns is a tail call
(`createExternalTailCallBB`). So a path of the control-flow graph that ends at a
`ret` other than a tail call's passes exactly one diff call with the flag on,
and ends at the exit block's `ret`, with no diff call anywhere, with it off.

The control-flow graph here has an edge for every `br` anywhere in a block, not
only for its terminator; the results hold for every such path.
-/

namespace Dagger

/-- Whether an instruction calls the register-set diff function. -/
def Inst.callsRegSetDiff : Inst → Bool
  | .instr i => i.callsRegSetDiff
  | _ => false

/-- The calls of the register-set diff function in a block. -/
def BasicBlock.diffCalls (bb : BasicBlock) : Nat := bb.insts.countP Inst.callsRegSetDiff

/-- A control-flow edge: block `b` branches to block `b'`. -/
def DCFunction.Succ (s : DCFunction) (b b' : Nat) : Prop := .br b' ∈ (s.blocks b).insts

instance (s : DCFunction) : DecidableRel s.Succ := fun b b' =>
  inferInstanceAs (Decidable (.br b' ∈ (s.blocks b).insts))

variable {cfg : Config} {s : DCFunction}

namespace Wf

/-- Only the diff block calls the diff function. -/
theorem diffCalls_eq_zero (hw : Wf cfg s) {b : Nat} (hb : (s.blocks b).origin ≠ .diffExit) :
    (s.blocks b).diffCalls = 0 := by
  refine List.countP_eq_zero.mpr fun x hx hc => hb ?_
  cases x with
  | instr i => exact hw.diffCalls b i hx hc
  | _ => cases hc

/-- With the flag on, the exit block branches to the diff block `d`, which calls
the diff function once and returns; it is the only block with a diff call. -/
theorem exit_diff_calls (hw : Wf cfg s) (hon : cfg.opts.enableRegSetDiff = true) :
    ∃ d args, (s.blocks s.exitBB).insts = [.br d] ∧
      (s.blocks d).insts = [.instr (.call .regSetDiffFunction args), .ret] ∧
      (∀ b, (s.blocks b).origin = .diffExit ↔ b = d) ∧
      ∀ b, (s.blocks b).diffCalls = if b = d then 1 else 0 := by
  obtain ⟨d, args, he, hd, ho⟩ := hw.exit_diff hon
  refine ⟨d, args, he, hd, ho, fun b => ?_⟩
  split
  · subst b; simp [BasicBlock.diffCalls, hd, Inst.callsRegSetDiff, Instr.callsRegSetDiff]
  · exact hw.diffCalls_eq_zero fun h => ‹¬b = d› ((ho b).mp h)

end Wf

/-- Along a path that ends at a block with no successor, the diff calls of all its
blocks are that block's, when it is the one block that has any. -/
theorem diffCalls_path {d : Nat} (hd : ∀ b', ¬ s.Succ d b')
    (hc : ∀ b, (s.blocks b).diffCalls = if b = d then 1 else 0) :
    ∀ {path : List Nat}, path.Chain' s.Succ → path.getLast? = some d →
      (path.map fun b => (s.blocks b).insts).flatten.countP Inst.callsRegSetDiff = 1
  | [], _, h => by cases h
  | [b], _, h => by cases h; simpa [BasicBlock.diffCalls] using hc b
  | b :: b' :: path, hp, h => by
    obtain ⟨he, hp⟩ := List.chain'_cons.mp hp
    have hb : (s.blocks b).insts.countP Inst.callsRegSetDiff = 0 :=
      (hc b).trans (if_neg fun (e : b = d) => hd b' (e ▸ he))
    rw [List.map_cons, List.flatten_cons, List.countP_append, hb, Nat.zero_add]
    exact diffCalls_path hd hc hp (by simpa using h)

/-- **Return paths in every reachable state.** With register-set diffing on,
every `ret` is the diff block's or a tail call's; the exit block's only
successor is the diff block, which calls the diff function once, before its
`ret`; and every path that ends at a `ret` other than a tail call's passes
exactly one diff call. With it off, no block calls the diff function, and every
such path ends at the exit block, whose one instruction is `ret`. -/
theorem regSetDiff_reachable {a₀ : UInt64} (hs : Reachable cfg a₀ s) :
    (cfg.opts.enableRegSetDiff = true →
      (∀ b, .ret ∈ (s.blocks b).insts → (s.blocks b).origin = .diffExit ∨ b ∈ s.tailCalls) ∧
      ∃ d args, (s.blocks s.exitBB).insts = [.br d] ∧
        (s.blocks d).insts = [.instr (.call .regSetDiffFunction args), .ret] ∧
        (∀ b, (s.blocks b).origin = .diffExit ↔ b = d) ∧
        ∀ (path : List Nat) b, path.Chain' s.Succ → path.getLast? = some b → .ret ∈ (s.blocks b).insts →
          b ∉ s.tailCalls → (path.map fun b => (s.blocks b).insts).flatten.countP Inst.callsRegSetDiff = 1) ∧
    (cfg.opts.enableRegSetDiff = false →
      (∀ b, (s.blocks b).diffCalls = 0) ∧ (s.blocks s.exitBB).insts = [.ret] ∧
      ∀ b, .ret ∈ (s.blocks b).insts → b ∉ s.tailCalls → b = s.exitBB) := by
  have hw := Wf.reachable hs
  refine ⟨fun hon => ?_, fun hoff => ?_⟩
  · obtain ⟨d, args, he, hd, ho, hc⟩ := hw.exit_diff_calls hon
    have hrets : ∀ b, .ret ∈ (s.blocks b).insts → (s.blocks b).origin = .diffExit ∨ b ∈ s.tailCalls :=
      fun b hb => (hw.rets b hb).resolve_left fun e => by simp [e, he] at hb
    refine ⟨hrets, d, args, he, hd, ho, fun path b hp hl hb ht => ?_⟩
    have hbd : b = d := (ho b).mp ((hrets b hb).resolve_right ht)
    subst hbd
    exact diffCalls_path (fun b' h => by simp [DCFunction.Succ, hd] at h) hc hp hl
  · obtain ⟨he, hno⟩ := hw.exit_ret hoff
    exact ⟨fun b => hw.diffCalls_eq_zero (hno b), he, fun b hb ht =>
      ((hw.rets b hb).resolve_right fun h => h.elim (hno b) ht)⟩

/-- The target that knows no instruction, with register-set diffing on. -/
def diffCfg : Config := { undefCfg with opts := ⟨true, false, true⟩ }

/-- Right after the constructor with diffing on, the path from the exit block
(block 1) to the diff block (block 2) passes one diff call. -/
theorem regSetDiff_reachable_exitPath :
    ([1, 2].map fun b => ((DCFunction.new diffCfg 0x1000).blocks b).insts).flatten.countP
      Inst.callsRegSetDiff = 1 := by
  obtain ⟨-, d, args, -, -, -, hp⟩ := (regSetDiff_reachable (.init : Reachable diffCfg 0x1000 _)).1 rfl
  exact hp [1, 2] 2 (List.chain'_pair.mpr (by decide)) rfl (by decide) (by decide)

end Dagger
