import Dagger.Invariant

/-!
# The program counter along a block

`SwitchToBasicBlock` sets the PC register to the block's start address, and
`tryTranslateInst`, before running an instruction's semantics tape, reads the
PC and writes it back incremented by the instruction's size. Given that the
register semantics' `getReg` returns the value last passed to `setReg` in the
current block, the PC is a constant all along a block, and every read of it
during an instruction's tape sees the start address plus the sizes of the
instructions so far, modulo the PC's width.

* `Prims.regLog`: what any chain of primitive moves adds to the trace, and that
  while it neither writes a register nor switches blocks every read of the
  register sees the value the chain started with;
* `translateInst_pc`: one instruction handled by its tape: its `SwitchToInst`,
  the builder's code for the instruction-address store if any, the increment,
  then its tape;
* `pc_accumulates`: a whole block.
-/

namespace Dagger

/-! ## Events -/

namespace Event

/-- Whether the event writes register `r`, or switches blocks, which makes the
register semantics forget every register value. -/
def clobbers (r : Nat) : Event → Bool
  | .setReg r' _ => r' == r
  | .switchToBasicBlock _ => true
  | _ => false

/-- A builder insertion. -/
def isInsert : Event → Bool
  | .insert _ _ => true
  | _ => false

/-- A `SwitchToInst` notification. -/
def isSwitchToInst : Event → Bool
  | .switchToInst _ => true
  | _ => false

end Event

/-! ## The register log of primitive moves -/

variable {cfg : Config} {s s' : DCFunction}

/-- What one primitive move adds to the trace: no `SwitchToInst`; and for every
register `r` it neither writes nor makes the register semantics forget, it keeps
`r`'s value, and a read of `r` sees that value. -/
theorem Prim.regLog (hw : Wf cfg s) (h : Prim cfg s s') :
    ∃ t, s'.trace = s.trace ++ t ∧ (∀ e ∈ t, e.isSwitchToInst = false) ∧
      ∀ r, (∀ e ∈ t, e.clobbers r = false) → s'.regVals r = s.regVals r ∧
        ∀ v, .getReg r v ∈ t → v = (s.regVals r).getD (.reg r (cfg.regs.regType r) s.rsiBB) := by
  cases h with
  | emit | brExit => exact ⟨_, rfl, by simp [Event.isSwitchToInst], fun _ _ => ⟨rfl, by simp⟩⟩
  | undef =>
    exact ⟨[.insert s.insertPt (.instr trapCall), .insert s.insertPt .unreachable],
      by simp [Builder.createUnreachable, Builder.createCallVoid, DCFunction.insert, trapCall],
      by simp [Event.isSwitchToInst], fun _ _ => ⟨rfl, by simp⟩⟩
  | rsiEmit v _ => exact ⟨[], by simp, by simp, fun _ _ => ⟨rfl, by simp⟩⟩
  | quiet _ hr ht => exact ⟨[], by simp [ht], by simp, fun r _ => ⟨congrFun hr r, by simp⟩⟩
  | getReg r' =>
    refine ⟨_, rfl, by simp [Event.isSwitchToInst], fun r _ => ⟨rfl, ?_⟩⟩
    simp only [List.mem_singleton, Event.getReg.injEq, and_imp]
    rintro v rfl rfl
    rfl
  | setReg r' v =>
    refine ⟨_, rfl, by simp [Event.isSwitchToInst], fun r hc => ⟨?_, by simp⟩⟩
    have hr : r' ≠ r := by simpa [Event.clobbers] using hc
    simp [DRS.setReg, DCFunction.log, Function.update_noteq hr.symm]
  | br a =>
    exact ⟨[.insert s.insertPt (.br (getOrCreateBasicBlock a s).1)],
      by simp [Builder.createBr, DCFunction.insert], by simp [Event.isSwitchToInst],
      fun _ _ => ⟨by simp [Builder.createBr, DCFunction.insert], by simp⟩⟩
  | call t cb _ h =>
    obtain ⟨-, -, rfl⟩ := insertCallBB_eq_some h hw.insertPt_lt
    exact ⟨_, rfl, by simp [Event.isSwitchToInst], fun _ hc => by simp [Event.clobbers] at hc⟩

/-- **The register log.** A chain of primitive moves only appends to the trace,
never a `SwitchToInst`; and while it neither writes a register `r` nor switches
blocks, `r` keeps the value it had, and every read of `r` sees it. -/
theorem Prims.regLog (hw : Wf cfg s) (h : Prims cfg s s') :
    ∃ t, s'.trace = s.trace ++ t ∧ (∀ e ∈ t, e.isSwitchToInst = false) ∧
      ∀ r v₀, s.regVals r = some v₀ → (∀ e ∈ t, e.clobbers r = false) →
        s'.regVals r = some v₀ ∧ ∀ v, .getReg r v ∈ t → v = v₀ := by
  induction h with
  | refl => exact ⟨[], by simp, by simp, fun _ _ hv _ => ⟨hv, by simp⟩⟩
  | tail h₁ hp ih =>
    obtain ⟨t₁, ht₁, hs₁, hk₁⟩ := ih
    obtain ⟨t₂, ht₂, hs₂, hk₂⟩ := hp.regLog (hw.prims h₁)
    refine ⟨t₁ ++ t₂, by rw [ht₂, ht₁, List.append_assoc], ?_, fun r v₀ hv hc => ?_⟩
    · simpa [or_imp, forall_and] using And.intro hs₁ hs₂
    · simp only [List.mem_append, or_imp, forall_and] at hc
      obtain ⟨hv₁, hr₁⟩ := hk₁ r v₀ hv hc.1
      obtain ⟨hv₂, hr₂⟩ := hk₂ r hc.2
      refine ⟨hv₂.trans hv₁, fun v hm => ?_⟩
      rcases List.mem_append.mp hm with hm | hm
      · exact hr₁ v hm
      · simpa [hv₁] using hr₂ v hm

/-! ## One instruction -/

/-- An instruction handled by its semantics tape: the target declines it at once,
with no effect of its own, and its opcode has an entry in `OpcodeToSemaIdx`. -/
def TapeHandled (cfg : Config) (i : MCDecodedInst) : Prop :=
  cfg.hooks.translateTargetInst i = .done none ∧
    cfg.tables.opcodeToSemaIdx i.inst.opcode.toNat ≠ noSemantics

/-- `CreateAdd` of two integer constants folds to their sum. -/
theorem createBinOp_add_constInt (s : DCFunction) (w c z : Nat) :
    Builder.createBinOp s .add (.constInt w c) (.constInt w z) = (.constInt w ((c + z) % 2 ^ w), s) := by
  simp [Builder.createBinOp, Builder.create, Value.isConstant, Value.fold, Value.hasConstIntOperands,
    Value.eval, evalBinOp, BinaryOps.isInt, Nat.add_mod]

theorem getReg_prims_of_some {s₀ : DCFunction} {r : Nat} {v : Value} (hv : s.regVals r = some v)
    (h₀ : Prims cfg s₀ s) : Prims cfg s₀ (DRS.emit (s.log (.getReg r v)) (cfg.rsi.getReg r v)) := by
  simpa [DRS.getReg, hv] using getReg_prims r h₀

section Increment

variable {i : MCDecodedInst} {b : Bool} {w c : Nat}

/-- With the PC a constant `c`, `tryTranslateInst` on a tape-handled instruction
reads `c` and writes `c` plus the instruction's size, and then runs the tape. -/
theorem tryTranslateInst_increment (hk : TapeHandled cfg i) (hc : s.currentInst = some i)
    (hv : s.regVals cfg.regs.programCounter = some (.constInt w (c % 2 ^ w)))
    (h : tryTranslateInst cfg s = some (b, s')) :
    ∃ s₁, Prims cfg s s₁ ∧ Prims cfg s₁ s' ∧
      s₁.regVals cfg.regs.programCounter = some (.constInt w ((c + i.size.toNat) % 2 ^ w)) ∧
      s₁.trace = s.trace ++ [.getReg cfg.regs.programCounter (.constInt w (c % 2 ^ w)),
        .setReg cfg.regs.programCounter (.constInt w ((c + i.size.toNat) % 2 ^ w))] := by
  simp only [tryTranslateInst, hc, Option.some_bind, runBoolHook, hk.1, runHook, Option.map_some',
    Option.bind_eq_bind, Bool.false_eq_true, if_false, hk.2, DRS.getReg, hv, Option.getD_some,
    Value.ty_constInt, ConstantInt.get, createBinOp_add_constInt, Option.isSome_none, Nat.add_mod_mod,
    Nat.mod_add_mod] at h
  refine ⟨_, ?_, translateLoop_prims .refl h, by simp [DRS.setReg], by simp [DRS.setReg, DCFunction.log]⟩
  exact setReg_prims _ _ (getReg_prims_of_some hv (.single (.quiet rfl rfl rfl)))

/-- **One instruction.** With the PC a constant `c`, translating a tape-handled
instruction sends its `SwitchToInst`, lets the builder insert the
instruction-address store if that is enabled and nothing else, reads `c` and
writes `c` plus the size, and then runs a tape with no `SwitchToInst`; if the
tape neither writes the PC nor switches blocks, the PC stays at the new value
and every read of it in the tape sees that value. -/
theorem translateInst_pc (hw : Wf cfg s) (hk : TapeHandled cfg i)
    (hv : s.regVals cfg.regs.programCounter = some (.constInt w (c % 2 ^ w)))
    (h : translateInst cfg i s = some (b, s')) :
    ∃ pre t, s'.trace = s.trace ++ .switchToInst i.address :: pre ++
        .getReg cfg.regs.programCounter (.constInt w (c % 2 ^ w)) ::
        .setReg cfg.regs.programCounter (.constInt w ((c + i.size.toNat) % 2 ^ w)) :: t ∧
      (∀ e ∈ pre, e.isInsert) ∧ (∀ e ∈ t, e.isSwitchToInst = false) ∧
      ((∀ e ∈ t, e.clobbers cfg.regs.programCounter = false) →
        s'.regVals cfg.regs.programCounter = some (.constInt w ((c + i.size.toNat) % 2 ^ w)) ∧
        ∀ v, .getReg cfg.regs.programCounter v ∈ t → v = .constInt w ((c + i.size.toNat) % 2 ^ w)) := by
  simp only [translateInst, Option.bind_eq_bind, Option.bind_eq_some] at h
  obtain ⟨⟨b₁, s₂⟩, h₂, h⟩ := h
  have hw₀ : Wf cfg (DRS.switchToInst cfg { s with currentInst := some i } i) :=
    (hw.of_shape rfl : Wf cfg ({ s with currentInst := some i }.log _)).prims (switchToInst_prims i)
  have hp₀ : Prims cfg (DRS.switchToInst cfg { s with currentInst := some i } i)
      (if cfg.opts.enableInstAddrSave then Builder.createStore (DRS.switchToInst cfg { s with currentInst := some i } i)
        (.constInt 64 i.address.toNat) .currentInstr 0 true else DRS.switchToInst cfg { s with currentInst := some i } i) :=
    ite_prims (createStore_prims _ _ _ _ .refl) .refl
  obtain ⟨s₁, h₀₁, h₁, hv₁, ht₁⟩ := tryTranslateInst_increment hk (by split <;> rfl) (by split <;> exact hv) h₂
  have h₁' : Prims cfg s₁ s' := by
    obtain ⟨-, rfl⟩ := Prod.mk.inj (Option.some.inj h)
    exact (ite_snd_prims (undef_prims h₁) h₁).quiet rfl rfl rfl
  obtain ⟨t, ht, hst, hkeep⟩ := h₁'.regLog (hw₀.prims (hp₀.trans h₀₁))
  refine ⟨if cfg.opts.enableInstAddrSave then
      [.insert s.insertPt (.instr (.store (.constInt 64 i.address.toNat) .currentInstr 0 true))] else [],
    t, ?_, by split <;> simp [Event.isInsert], hst, fun hc => hkeep _ _ hv₁ hc⟩
  rw [ht, ht₁]
  split <;> simp [DRS.switchToInst, DCFunction.log, Builder.createStore, DCFunction.insert]

end Increment

/-! ## A whole block -/

/-- `ext` is the trace of translating `insts` one after another, the PC register
`pc` of width `w` holding `c` modulo `2 ^ w` before the first: each instruction
sends its `SwitchToInst`, lets the builder insert and nothing else, reads the PC
and writes it incremented by its size, and then runs a tape with no
`SwitchToInst`. If the tape neither writes the PC nor switches blocks, every
read of the PC in it sees the incremented value, and the rest of the trace is
the same from that value. -/
def PCTrace (pc w : Nat) : Nat → List MCDecodedInst → List Event → Prop
  | _, [], ext => ext = []
  | c, i :: insts, ext => ∃ pre tape rest,
    ext = .switchToInst i.address :: pre ++ .getReg pc (.constInt w (c % 2 ^ w)) ::
      .setReg pc (.constInt w ((c + i.size.toNat) % 2 ^ w)) :: tape ++ rest ∧
    (∀ e ∈ pre, e.isInsert) ∧ (∀ e ∈ tape, e.isSwitchToInst = false) ∧
    ((∀ e ∈ tape, e.clobbers pc = false) →
      (∀ v, .getReg pc v ∈ tape → v = .constInt w ((c + i.size.toNat) % 2 ^ w)) ∧
      PCTrace pc w (c + i.size.toNat) insts rest)

/-- The run lemma: instructions handled by their tapes, translated one after
another. -/
theorem translateInsts_pc (hw : Wf cfg s) {w : Nat} {insts : List MCDecodedInst}
    (hk : ∀ i ∈ insts, TapeHandled cfg i) (h : Op.run cfg (insts.map .translateInst) s = some s') :
    ∃ ext, s'.trace = s.trace ++ ext ∧ ∀ c, s.regVals cfg.regs.programCounter = some (.constInt w (c % 2 ^ w)) →
      PCTrace cfg.regs.programCounter w c insts ext := by
  induction insts generalizing s with
  | nil => cases h; exact ⟨[], by simp, fun _ _ => rfl⟩
  | cons i insts ih =>
    obtain ⟨s₁, h₁, h⟩ := Option.bind_eq_some.mp h
    obtain ⟨⟨b, s₁⟩, h₁', rfl⟩ := Option.map_eq_some'.mp h₁
    obtain ⟨ext, hext, hpc⟩ := ih (hw.apply h₁) (fun j hj => hk j (List.mem_cons_of_mem i hj)) h
    have hw₀ : Wf cfg (DRS.switchToInst cfg { s with currentInst := some i } i) :=
      (hw.of_shape rfl : Wf cfg ({ s with currentInst := some i }.log _)).prims (switchToInst_prims i)
    obtain ⟨u, hu, -⟩ := (translateInst_prims h₁').regLog hw₀
    refine ⟨.switchToInst i.address :: u ++ ext, by simp [hext, hu, DRS.switchToInst, DCFunction.log],
      fun c hv => ?_⟩
    obtain ⟨pre, t, ht, hpre, hst, hkeep⟩ := translateInst_pc hw (hk i (List.mem_cons_self i insts)) hv h₁'
    have hu' : u = pre ++ .getReg cfg.regs.programCounter (.constInt w (c % 2 ^ w)) ::
        .setReg cfg.regs.programCounter (.constInt w ((c + i.size.toNat) % 2 ^ w)) :: t := by
      simpa [hu, DRS.switchToInst, DCFunction.log] using ht
    refine ⟨pre, t, ext, by simp [hu'], hpre, hst, fun hc => ?_⟩
    obtain ⟨hv₁, hr⟩ := hkeep hc
    exact ⟨hr, hpc _ (by rw [hv₁])⟩

/-- **The PC along a block.** After `SwitchToBasicBlock` at an MC block starting
at `a`, which sets the PC to `a` modulo `2 ^ w`, a run of instructions handled
by their tapes has the trace `PCTrace`: each instruction writes the PC, to `a`
plus the sizes so far, before any other register access of its own, and while
no tape writes the PC or calls, every read of the PC during the `j`-th tape sees
`a` plus the sizes of the first `j` instructions, modulo `2 ^ w`. -/
theorem pc_accumulates {a₀ : UInt64} (hs : Reachable cfg a₀ s) {w : Nat}
    (hpc : cfg.regs.regType cfg.regs.programCounter = .int w) {mcbb : MCBasicBlock}
    {insts : List MCDecodedInst} (hk : ∀ i ∈ insts, TapeHandled cfg i)
    (h : Op.run cfg (.switchToBasicBlock mcbb :: insts.map .translateInst) s = some s') :
    ∃ bb ext, s'.trace = s.trace ++ .switchToBasicBlock bb ::
        .setReg cfg.regs.programCounter (.constInt w (mcbb.startAddr.toNat % 2 ^ w)) :: ext ∧
      PCTrace cfg.regs.programCounter w mcbb.startAddr.toNat insts ext := by
  obtain ⟨s₀, h₀, h⟩ := Option.bind_eq_some.mp h
  have hw₀ := (Wf.reachable hs).apply h₀
  obtain ⟨x, c, -, hc, rfl⟩ := switchToBasicBlock_eq_some h₀
  rw [hpc, ConstantInt.get, Option.some.injEq] at hc
  subst hc
  obtain ⟨ext, hext, hpc⟩ := translateInsts_pc hw₀ hk h
  exact ⟨(getOrCreateBasicBlock mcbb.startAddr { s with theMCBB := some mcbb }).1, ext,
    by simp [hext, DRS.setReg, DRS.switchToBasicBlock, DCFunction.log], hpc _ (by simp [DRS.setReg])⟩

/-- A target whose every instruction has the tape `GET_REG PC` (a read of the
PC), with the PC register 0 of 64 bits. -/
def pcCfg : Config :=
  ⟨⟨fun _ => 0, [1, 0, 0, 2], fun _ => 0,
      fun t => if t = 1 then .getReg else if t = 2 then .endOfInstruction else .other,
      fun _ => .invalid, fun _ => .other⟩,
    ⟨0, fun _ => .int 64⟩, ⟨false, false, false⟩, .declineAll, .silent⟩

/-- Two instructions of sizes 8 and 6 at `0x1000`. -/
def pcBlock : MCBasicBlock := ⟨0x1000, 0x100e, [⟨0x1000, 8, ⟨1, []⟩⟩, ⟨0x1008, 6, ⟨1, []⟩⟩]⟩

/-- The PC is set to `0x1000`, then incremented to `0x1008` and `0x100e`, and
each tape's read sees the incremented value. -/
theorem pc_accumulates_pcBlock :
    ∃ s, Op.run pcCfg (.switchToBasicBlock pcBlock :: pcBlock.insts.map .translateInst)
        (DCFunction.new pcCfg 0x1000) = some s ∧
      s.trace = [.insert 0 (.br 2), .switchToBasicBlock 2, .setReg 0 (.constInt 64 0x1000),
        .switchToInst 0x1000, .getReg 0 (.constInt 64 0x1000), .setReg 0 (.constInt 64 0x1008),
        .getReg 0 (.constInt 64 0x1008),
        .switchToInst 0x1008, .getReg 0 (.constInt 64 0x1008), .setReg 0 (.constInt 64 0x100e),
        .getReg 0 (.constInt 64 0x100e)] ∧
      ∃ bb ext, s.trace = (DCFunction.new pcCfg 0x1000).trace ++ .switchToBasicBlock bb ::
          .setReg 0 (.constInt 64 ((0x1000 : UInt64).toNat % 2 ^ 64)) :: ext ∧
        PCTrace 0 64 (0x1000 : UInt64).toNat pcBlock.insts ext := by
  obtain ⟨s, h⟩ : ∃ s, Op.run pcCfg (.switchToBasicBlock pcBlock :: pcBlock.insts.map .translateInst)
      (DCFunction.new pcCfg 0x1000) = some s := Option.isSome_iff_exists.mp (by decide)
  exact ⟨s, h, Op.run_map_eq (·.trace) h (by decide),
    pc_accumulates (.init : Reachable pcCfg 0x1000 _) rfl (fun _ _ => ⟨rfl, by simp [pcCfg, noSemantics]⟩) h⟩

/-- The target of `pcCfg`, except that its `translateTargetInst` writes 0 to
register 1 and then declines. -/
def pcWriteCfg : Config :=
  { pcCfg with
    hooks := { TargetHooks.declineAll with translateTargetInst := fun _ => .setReg 1 (.constInt 64 0) (.done none) } }

/-- A target hook that declines after writing a register: each instruction still
goes to its tape, but the hook's write of register 1 comes before the PC write,
so the trace is not a `PCTrace`. -/
theorem pc_written_after_hook :
    ∃ s, Op.run pcWriteCfg (.switchToBasicBlock pcBlock :: pcBlock.insts.map .translateInst)
        (DCFunction.new pcWriteCfg 0x1000) = some s ∧
      s.trace = [.insert 0 (.br 2), .switchToBasicBlock 2, .setReg 0 (.constInt 64 0x1000),
        .switchToInst 0x1000, .setReg 1 (.constInt 64 0), .getReg 0 (.constInt 64 0x1000),
        .setReg 0 (.constInt 64 0x1008), .getReg 0 (.constInt 64 0x1008),
        .switchToInst 0x1008, .setReg 1 (.constInt 64 0), .getReg 0 (.constInt 64 0x1008),
        .setReg 0 (.constInt 64 0x100e), .getReg 0 (.constInt 64 0x100e)] ∧
      ¬ ∃ bb ext, s.trace = (DCFunction.new pcWriteCfg 0x1000).trace ++ .switchToBasicBlock bb ::
          .setReg 0 (.constInt 64 0x1000) :: ext ∧ PCTrace 0 64 0x1000 pcBlock.insts ext := by
  obtain ⟨s, h⟩ : ∃ s, Op.run pcWriteCfg (.switchToBasicBlock pcBlock :: pcBlock.insts.map .translateInst)
      (DCFunction.new pcWriteCfg 0x1000) = some s := Option.isSome_iff_exists.mp (by decide)
  have h4 : s.trace[4]? = some (.setReg 1 (.constInt 64 0)) := Op.run_map_eq (·.trace[4]?) h (by decide)
  refine ⟨s, h, Op.run_map_eq (·.trace) h (by decide), ?_⟩
  rintro ⟨bb, ext, he, pre, tape, rest, rfl, hpre, -⟩
  rw [he, show (DCFunction.new pcWriteCfg 0x1000).trace = [.insert 0 (.br 2)] by decide] at h4
  rcases pre with _ | ⟨e, pre⟩
  · simp at h4
  · obtain rfl : e = .setReg 1 (.constInt 64 0) := by simpa using h4
    simp [Event.isInsert] at hpre

end Dagger
