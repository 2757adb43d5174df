import Dagger.CallBlocks
import Dagger.BlockMap

/-!
# Notifications to the register semantics

The core tells the register semantics where translation stands:
`SwitchToBasicBlock(BB)` when a block is opened (by `SwitchToBasicBlock` or by
`insertCallBB` for a call's successor), `SwitchToInst` for each instruction,
`FinalizeBasicBlock` when the block is done (by `FinalizeBasicBlock` or by
`insertCallBB` for the block it splits), and `FinalizeFunction(ExitBB)` from the
destructor. The register semantics keeps its register values per block, so
these must be well bracketed, and the builder must insert only into the block
the register semantics was last told about.

* `Bracket` is that protocol, an automaton over the trace of notifications,
  register accesses and builder insertions;
* `Op.sessions` is the order in which the driver issues operations: an opening,
  then translations and calls, then the finalization;
* `notifications_sessions`: every run in that order, followed by the
  destructor, is accepted by the protocol, across every block split made by
  `insertCallBB`.

Openings and finalizations that alternate are not enough: an instruction
translated after a `FinalizeBasicBlock` and before the next opening sends
`SwitchToInst` outside any block and inserts its code into the finalized block
(`notifications_lateInst`).
-/

namespace Dagger

/-! ## The protocol -/

/-- Where the trace so far leaves the register semantics. -/
inductive Bracket where
  /-- before the first block: only the constructor's code -/
  | before
  /-- between `SwitchToBasicBlock(bb)` and its `FinalizeBasicBlock` -/
  | inBlock (bb : Nat)
  /-- after a `FinalizeBasicBlock`, before the next block -/
  | between
  /-- after `FinalizeFunction(bb)` -/
  | done (bb : Nat)
  /-- the protocol was broken -/
  | bad
  deriving DecidableEq, Repr

namespace Bracket

/-- One event of the trace. Inside a block the register semantics may be told of
instructions and read and written, and the builder may insert into that block
only; outside blocks only the constructor's builder code and the next opening or
the end of the function may come. -/
def step : Bracket → Event → Bracket
  | .before, .insert _ _ => .before
  | .before, .switchToBasicBlock bb | .between, .switchToBasicBlock bb => .inBlock bb
  | .before, .finalizeFunction bb | .between, .finalizeFunction bb => .done bb
  | .inBlock bb, .switchToInst _ | .inBlock bb, .getReg _ _ | .inBlock bb, .setReg _ _ => .inBlock bb
  | .inBlock bb, .insert bb' _ => if bb' = bb then .inBlock bb else .bad
  | .inBlock _, .finalizeBasicBlock => .between
  | _, _ => .bad

/-- The state a whole trace leaves. -/
def run (t : List Event) : Bracket := t.foldl step .before

@[simp] theorem run_append (t u : List Event) : run (t ++ u) = u.foldl step (run t) :=
  List.foldl_append _ _ _ _

/-- Outside every block. -/
def Idle : Bracket → Prop
  | .before | .between => True
  | _ => False

end Bracket

/-- The order in which the driver issues operations: each opening
(`SwitchToBasicBlock` or `createExternalTailCallBB`) is followed by translations
and calls only, then by its `FinalizeBasicBlock`, before the next opening.
`inside` says whether a block is open. -/
def Op.sessions : Bool → List Op → Bool
  | inside, [] => !inside
  | false, .switchToBasicBlock _ :: ops | false, .createExternalTailCallBB _ :: ops => Op.sessions true ops
  | true, .translateInst _ :: ops | true, .insertCall _ :: ops => Op.sessions true ops
  | true, .finalizeBasicBlock :: ops => Op.sessions false ops
  | _, _ => false

/-- The weaker order of the spec: each block opened is finalized before the next
opening, and nothing is said of translations and calls. -/
def Op.openingsAlternate : Bool → List Op → Bool
  | inside, [] => !inside
  | false, .switchToBasicBlock _ :: ops | false, .createExternalTailCallBB _ :: ops =>
    Op.openingsAlternate true ops
  | true, .finalizeBasicBlock :: ops => Op.openingsAlternate false ops
  | _, .switchToBasicBlock _ :: _ | _, .createExternalTailCallBB _ :: _ | _, .finalizeBasicBlock :: _ => false
  | inside, _ :: ops => Op.openingsAlternate inside ops

/-! ## Each step keeps the protocol -/

section Steps

variable {cfg : Config} {s s' : DCFunction}

/-- Inside a block: the register semantics was last told of the block the
builder inserts in. -/
def InBlock (s : DCFunction) : Prop := Bracket.run s.trace = .inBlock s.insertPt

theorem InBlock.insert (hb : InBlock s) (i : Inst) : InBlock (s.insert i) := by
  simp only [InBlock] at hb
  simp [InBlock, DCFunction.insert, hb, Bracket.step]

theorem InBlock.log (hb : InBlock s) {e : Event} (he : Bracket.step (.inBlock s.insertPt) e = .inBlock s.insertPt) :
    InBlock (s.log e) := by
  simp only [InBlock] at hb
  simp [InBlock, DCFunction.log, hb, he]

theorem InBlock.insertCallBB (hw : Wf cfg s) (hb : InBlock s) {t : Value} {cb : Nat}
    (h : Dagger.insertCallBB t s = some (cb, s')) : InBlock s' := by
  obtain ⟨-, -, rfl⟩ := insertCallBB_eq_some h hw.insertPt_lt
  simp only [InBlock] at hb
  simp [InBlock, hb, Bracket.step]

/-- **Every primitive move of translation keeps the builder in the register
semantics' block**, a block split by `insertCallBB` included. -/
theorem InBlock.prim (hw : Wf cfg s) (hb : InBlock s) (h : Prim cfg s s') : InBlock s' := by
  cases h with
  | emit | brExit => exact hb.insert _
  | undef => exact (hb.insert _).insert _
  | rsiEmit i _ => exact hb
  | quiet hs _ ht =>
    rw [InBlock, ht, show s'.insertPt = s.insertPt from congrArg Shape.insertPt hs]
    exact hb
  | getReg | setReg => exact hb.log rfl
  | br a =>
    have : InBlock (getOrCreateBasicBlock a s).2 := by simpa [InBlock] using hb
    exact this.insert _
  | call t cb _ h => exact hb.insertCallBB hw h

theorem InBlock.prims (hw : Wf cfg s) (hb : InBlock s) (h : Prims cfg s s') : InBlock s' := by
  induction h with
  | refl => exact hb
  | tail h₁ hp ih => exact ih.prim (hw.prims h₁) hp

/-- An opening from outside every block enters the opened block. -/
theorem InBlock.switchToBasicBlock (hi : (Bracket.run s.trace).Idle) {a : UInt64}
    (h : Dagger.switchToBasicBlock cfg a s = some s') : InBlock s' := by
  obtain ⟨x, c, -, -, rfl⟩ := switchToBasicBlock_eq_some h
  simp only [InBlock, DRS.setReg, DRS.switchToBasicBlock, DCFunction.log, Bracket.run_append,
    DCFunction.modifyInsts_trace, getOrCreateBasicBlock_trace]
  revert hi
  cases Bracket.run s.trace <;> simp [Bracket.Idle, Bracket.step]

/-- `FinalizeBasicBlock` closes the block. -/
theorem InBlock.finalizeBasicBlock (hb : InBlock s) (h : Dagger.finalizeBasicBlock s = some s') :
    Bracket.run s'.trace = .between := by
  obtain ⟨bb, s1, -, hs1, rfl⟩ := finalizeBasicBlock_eq_some h
  have ht : s1.trace = s.trace := by
    rcases hs1 with ⟨-, rfl⟩ | ⟨-, mcbb, -, rfl⟩ <;> simp
  simp only [InBlock] at hb
  simp [DRS.finalizeBasicBlock, DCFunction.log, ht, hb, Bracket.step]

/-- Where a state in session order stands: inside a block, or outside every
block. -/
def Phase : Bool → DCFunction → Prop
  | true, s => InBlock s
  | false, s => (Bracket.run s.trace).Idle

/-- **The run lemma.** Operations in session order, from a state inside a block
or outside every block, end outside every block. -/
theorem sessions_run (hw : Wf cfg s) {inside : Bool} {ops : List Op} (hd : Op.sessions inside ops = true)
    (hs : Phase inside s) (h : Op.run cfg ops s = some s') : (Bracket.run s'.trace).Idle := by
  induction ops generalizing s inside with
  | nil =>
    cases h
    cases inside
    · exact hs
    · simp [Op.sessions] at hd
  | cons op ops ih =>
    obtain ⟨s₁, h₁, hr⟩ := Option.bind_eq_some.mp h
    have hw₁ := hw.apply h₁
    cases inside <;> cases op <;> simp only [Op.sessions, Bool.false_eq_true] at hd
    case false.switchToBasicBlock mcbb =>
      exact ih hw₁ hd (InBlock.switchToBasicBlock (s := { s with theMCBB := some mcbb }) hs h₁) hr
    case false.createExternalTailCallBB a =>
      obtain ⟨s2, cb, s3, h2, h3, rfl⟩ := createExternalTailCallBB_eq_some h₁
      have hb3 := (InBlock.switchToBasicBlock hs h2).insertCallBB (hw.switchToBasicBlock h2) h3
      exact ih hw₁ hd (hb3.insert .ret : InBlock (Builder.createRetVoid s3)) hr
    case true.translateInst i =>
      obtain ⟨⟨b, s2⟩, h2, rfl⟩ := Option.map_eq_some'.mp h₁
      have hb : InBlock (DRS.switchToInst cfg { s with currentInst := some i } i) := InBlock.log hs rfl
      have hw₂ : Wf cfg (DRS.switchToInst cfg { s with currentInst := some i } i) :=
        (hw.of_shape rfl : Wf cfg ({ s with currentInst := some i }.log _)).prims (switchToInst_prims i)
      exact ih hw₁ hd (hb.prims hw₂ (translateInst_prims h2)) hr
    case true.insertCall t =>
      exact ih hw₁ hd (InBlock.prims hw hs (insertCall_prims .refl h₁)) hr
    case true.finalizeBasicBlock =>
      have : Bracket.run s₁.trace = .between := InBlock.finalizeBasicBlock hs h₁
      exact ih hw₁ hd (by simp [Phase, this, Bracket.Idle]) hr

/-- The constructor's code goes in before any block is opened. -/
theorem run_new (cfg : Config) (a : UInt64) : Bracket.run (DCFunction.new cfg a).trace = .before := by
  simp only [DCFunction.new]
  split <;> simp [Builder.createBr, Builder.createAlloca, Builder.createLoad, Builder.createStore,
    DCFunction.insert, DCFunction.createBlock_eq, DCFunction.empty, Bracket.run, Bracket.step]

end Steps

/-! ## Whole runs -/

variable {cfg : Config} {a₀ : UInt64} {s : DCFunction}

/-- **The notifications are well bracketed.** For every run from the constructor
in session order, the destructor succeeds, and its trace is accepted by the
protocol: each `SwitchToBasicBlock(BB)` is followed by `SwitchToInst`
notifications, register accesses and builder insertions into `BB` only, then by
exactly one `FinalizeBasicBlock`, before the next `SwitchToBasicBlock`; the
builder inserts into no block before the first opening but the constructor's,
and into none between blocks; and `FinalizeFunction(ExitBB)` comes last. -/
theorem notifications_sessions {ops : List Op} (hd : Op.sessions false ops = true)
    (h : Op.run cfg ops (DCFunction.new cfg a₀) = some s) :
    ∃ s', s.destroy = some s' ∧ Bracket.run s'.trace = .done s'.exitBB := by
  have hw := Wf.reachable (Reachable.run cfg .init h)
  have hi := sessions_run (Wf.new cfg a₀) hd (by simp [Phase, run_new, Bracket.Idle]) h
  obtain ⟨s', hs', he, ht, -⟩ := hw.destroy
  refine ⟨s', hs', ?_⟩
  rw [ht, he, Bracket.run_append]
  revert hi
  cases Bracket.run s.trace <;> simp [Bracket.Idle, Bracket.step]

/-- A block that calls the function at `0x2000`, then a tail call to `0x3000`. -/
def callAndTailOps : List Op := callOps ++ [.createExternalTailCallBB 0x3000, .finalizeBasicBlock]

/-- A block split by a call, then a tail call: the protocol accepts the trace. -/
theorem notifications_sessions_callAndTail :
    Op.sessions false callAndTailOps = true ∧ ∃ s s',
      Op.run undefCfg callAndTailOps (DCFunction.new undefCfg 0x1000) = some s ∧ s.destroy = some s' ∧
      Bracket.run s'.trace = .done s'.exitBB := by
  have hd : Op.sessions false callAndTailOps = true := by decide
  obtain ⟨s, h⟩ : ∃ s, Op.run undefCfg callAndTailOps (DCFunction.new undefCfg 0x1000) = some s :=
    Option.isSome_iff_exists.mp (by decide)
  exact ⟨hd, s, notifications_sessions hd h |>.imp fun _ h' => ⟨h, h'⟩⟩

/-- A block opened and finalized, then one more instruction. -/
def lateOps : List Op :=
  [.switchToBasicBlock oneUnknown, .finalizeBasicBlock, .translateInst ⟨0x1004, 4, ⟨7, []⟩⟩]

/-- Openings and finalizations alternate, but the instruction translated after
the finalization sends `SwitchToInst` outside any block, and the builder puts
its `call @llvm.trap(); unreachable` into the finalized block `bb_1000`. -/
theorem notifications_lateInst :
    Op.openingsAlternate false lateOps = true ∧ Op.sessions false lateOps = false ∧
    ∃ s s', Op.run undefCfg lateOps (DCFunction.new undefCfg 0x1000) = some s ∧ s.destroy = some s' ∧
      s'.trace = [.insert 0 (.br 2), .switchToBasicBlock 2, .setReg 0 (.constInt 64 0x1000),
        .finalizeBasicBlock, .switchToInst 0x1004, .insert 2 (.instr trapCall), .insert 2 .unreachable,
        .finalizeFunction 1] ∧
      Bracket.run s'.trace = .bad := by
  obtain ⟨s, h⟩ : ∃ s, Op.run undefCfg lateOps (DCFunction.new undefCfg 0x1000) = some s :=
    Option.isSome_iff_exists.mp (by decide)
  have hc : s.callBBs = [] := Op.run_map_eq (·.callBBs) h (by decide)
  have ht : s.trace = [.insert 0 (.br 2), .switchToBasicBlock 2, .setReg 0 (.constInt 64 0x1000),
      .finalizeBasicBlock, .switchToInst 0x1004, .insert 2 (.instr trapCall), .insert 2 .unreachable] :=
    Op.run_map_eq (·.trace) h (by decide)
  have he : s.exitBB = 1 := Op.run_map_eq (·.exitBB) h (by decide)
  refine ⟨by decide, by decide, s, DRS.finalizeFunction s s.exitBB, h,
    by simp [DCFunction.destroy, hc], by simp [DRS.finalizeFunction, DCFunction.log, ht, he], ?_⟩
  simp [DRS.finalizeFunction, DCFunction.log, ht, Bracket.run, Bracket.step]

end Dagger
