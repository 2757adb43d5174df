import Dagger.Translate

/-!
# Runs of a function translation

The public operations of `DCFunction` as the steps of a state machine, started by
the constructor:

* `Reachable cfg a s` — `s` is reached from `DCFunction.new cfg a` by any sequence
  of operations;
* `Op.run` — a list of operations applied one after another, failing as soon as
  one does;
* `DriverOrder` — the order in which the driver issues them: each MC block is
  opened, its instructions translated, and closed; tail-call blocks are opened by
  `createExternalTailCallBB` and closed the same way.
-/

namespace Dagger

/-- A public operation of `DCFunction`. -/
inductive Op where
  | switchToBasicBlock (mcbb : MCBasicBlock)
  | translateInst (i : MCDecodedInst)
  | finalizeBasicBlock
  | insertCall (target : Value)
  | createExternalTailCallBB (addr : UInt64)

variable (cfg : Config)

/-- One operation. A `translateInst` that returns `false` still leaves its state
behind: the driver then gives up, but what was emitted stays. -/
def Op.apply : Op → DCFunction → Option DCFunction
  | .switchToBasicBlock mcbb, s => switchToBasicBlockMC cfg mcbb s
  | .translateInst i, s => (Dagger.translateInst cfg i s).map Prod.snd
  | .finalizeBasicBlock, s => Dagger.finalizeBasicBlock s
  | .insertCall t, s => Dagger.insertCall t s
  | .createExternalTailCallBB a, s => Dagger.createExternalTailCallBB cfg a s

/-- A list of operations, in order. -/
def Op.run : List Op → DCFunction → Option DCFunction
  | [], s => some s
  | op :: ops, s => (op.apply cfg s).bind (Op.run ops)

theorem Op.run_append (ops₁ ops₂ : List Op) (s : DCFunction) :
    Op.run cfg (ops₁ ++ ops₂) s = (Op.run cfg ops₁ s).bind (Op.run cfg ops₂) := by
  induction ops₁ generalizing s with
  | nil => rfl
  | cons op ops ih =>
    simp only [List.cons_append, Op.run, Option.bind_assoc]
    congr 1
    funext s'
    exact ih s'

/-- The states reachable from the constructor for a function at `startAddr`. -/
inductive Reachable (startAddr : UInt64) : DCFunction → Prop where
  | init : Reachable startAddr (DCFunction.new cfg startAddr)
  | step {s s' : DCFunction} (op : Op) :
      Reachable startAddr s → op.apply cfg s = some s' → Reachable startAddr s'

theorem Reachable.run {a : UInt64} {s s' : DCFunction} :
    ∀ {ops : List Op}, Reachable cfg a s → Op.run cfg ops s = some s' → Reachable cfg a s'
  | [], hs, h => by cases h; exact hs
  | op :: ops, hs, h => by
    obtain ⟨s₁, h₁, h⟩ := Option.bind_eq_some.mp h
    exact Reachable.run (hs.step op h₁) h

variable {cfg} in
/-- A view of the state a run reaches, read off the run itself: how a run on
concrete operations is evaluated by `decide`. -/
theorem Op.run_map_eq {α : Type} {ops : List Op} {s s' : DCFunction} (f : DCFunction → α) {v : α}
    (h : Op.run cfg ops s = some s') (hv : (Op.run cfg ops s).map f = some v) : f s' = v := by
  rw [h] at hv
  exact Option.some.inj hv

/-- The operations the driver issues for one MC block. -/
def blockOps (mcbb : MCBasicBlock) : List Op :=
  .switchToBasicBlock mcbb :: mcbb.insts.map .translateInst ++ [.finalizeBasicBlock]

/-- The order in which the driver issues operations: the MC blocks one after
another, then the external tail calls. -/
def driverOps (mcbbs : List MCBasicBlock) (tailCalls : List UInt64) : List Op :=
  (mcbbs.map blockOps).flatten ++ tailCalls.map .createExternalTailCallBB

end Dagger
