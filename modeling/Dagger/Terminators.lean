import Dagger.Blocks

/-!
# Unknown instructions under the translate-unknown-to-undef policy

With `translate-unknown-to-undef` on, an instruction that neither the target nor
the semantics tables handle becomes `call @llvm.trap(); unreachable`, and
`translateInst` reports success (`DCFunction.cpp` lines 261–269). Nothing closes
the block there: the next instruction of the same MC block is emitted after the
`unreachable`, and `FinalizeBasicBlock` only looks at the block's last
instruction. Whatever the register semantics inserts of its own (the PC write of
the opening, its code for each instruction) are non-terminators, and change
nothing of this.

* `translateInst_unknown`: what the policy emits, in any state;
* `unknownBlock`: after the driver's operations on an MC block whose
  instructions are all unknown, the block of its address holds the register
  semantics' code for the PC write, then for each instruction its code and
  `call @llvm.trap(); unreachable`, and nothing else;
* `unknownBlock_terminators`: so a block of `k` unknown instructions holds `k`
  terminators, all but the last followed by more instructions.
-/

namespace Dagger

variable {cfg : Config} {s s' : DCFunction}

/-- An instruction neither the target nor the semantics tables know: the target
declines it, and its opcode has no entry in `OpcodeToSemaIdx`. -/
def Unknown (cfg : Config) (i : MCDecodedInst) : Prop :=
  cfg.hooks.translateTargetInst i = .done none ∧
    cfg.tables.opcodeToSemaIdx i.inst.opcode.toNat = noSemantics

/-- The IR an MC block of unknown instructions is translated to, after the
opening: for each instruction, the register semantics' code for it, then
`call @llvm.trap(); unreachable`. -/
def undefCode (rsi : RegSemaCode) (insts : List MCDecodedInst) : List Inst :=
  (insts.map fun i => (rsi.switchToInst i).map .instr ++ [.instr trapCall, .unreachable]).flatten

section UndefCode

variable (rsi : RegSemaCode)

@[simp] theorem undefCode_nil : undefCode rsi [] = [] := rfl

@[simp] theorem undefCode_cons (i : MCDecodedInst) (l : List MCDecodedInst) :
    undefCode rsi (i :: l) = (rsi.switchToInst i).map .instr ++ .instr trapCall :: .unreachable :: undefCode rsi l := by
  simp [undefCode]

/-- The undef code of a nonempty run of instructions ends with `unreachable`. -/
theorem undefCode_eq_concat {l : List MCDecodedInst} (h : l ≠ []) :
    ∃ x, undefCode rsi l = x ++ [.unreachable] := by
  induction l with
  | nil => exact absurd rfl h
  | cons i l ih =>
    cases l with
    | nil => exact ⟨(rsi.switchToInst i).map .instr ++ [.instr trapCall], by simp⟩
    | cons j l =>
      obtain ⟨x, hx⟩ := ih (List.cons_ne_nil j l)
      exact ⟨(rsi.switchToInst i).map .instr ++ .instr trapCall :: .unreachable :: x, by rw [undefCode_cons, hx]; simp⟩

theorem undefCode_getLast? {l : List MCDecodedInst} (h : l ≠ []) (p : List Inst) :
    (p ++ undefCode rsi l).getLast? = some .unreachable := by
  obtain ⟨x, hx⟩ := undefCode_eq_concat rsi h
  rw [hx, ← List.append_assoc, List.getLast?_concat]

theorem undefCode_terminators (l : List MCDecodedInst) :
    ((undefCode rsi l).filter Inst.isTerminator).length = l.length := by
  induction l with
  | nil => rfl
  | cons i l ih => simp [Inst.isTerminator, ih]

/-- With two instructions or more, the first `unreachable` is followed by more code. -/
theorem undefCode_unreachable_mid {l : List MCDecodedInst} (h : 2 ≤ l.length) :
    ∃ pre post, undefCode rsi l = pre ++ .unreachable :: post ∧ post ≠ [] := by
  match l, h with
  | i :: j :: l, _ => exact ⟨(rsi.switchToInst i).map .instr ++ [.instr trapCall], undefCode rsi (j :: l), by simp, by simp⟩

end UndefCode

section Undef

variable (hu : cfg.opts.translateUnknownToUndef = true) (hs : cfg.opts.enableInstAddrSave = false)

include hu hs in
/-- **The undef path.** An unknown instruction lets the register semantics insert
its code for it, appends `call @llvm.trap(); unreachable` to the current block,
and counts as translated. -/
theorem translateInst_unknown {i : MCDecodedInst} (hi : Unknown cfg i) (s : DCFunction) :
    ∃ s', translateInst cfg i s = some (true, s') ∧
      s'.shape = (((DRS.emit s (cfg.rsi.switchToInst i)).appendInst s.insertPt (.instr trapCall)).appendInst
        s.insertPt .unreachable).shape ∧
      s'.theMCBB = s.theMCBB := by
  simp [translateInst, tryTranslateInst, runBoolHook, runHook, hi.1, hi.2, hs, hu, DRS.switchToInst,
    DCFunction.log, DCFunction.shape, Builder.createUnreachable, Builder.createCallVoid,
    DCFunction.insert_eq, trapCall, DCFunction.appendInst_eq, DCFunction.modifyInsts_eq]

include hu hs in
/-- A run of unknown instructions, with the register semantics at the insertion
point, appends the undef code of each to the current block and changes nothing
else the driver looks at. -/
theorem run_unknown {insts : List MCDecodedInst} (hk : ∀ i ∈ insts, Unknown cfg i) (s : DCFunction)
    (hr : s.rsiBB = s.insertPt) :
    ∃ s', Op.run cfg (insts.map .translateInst) s = some s' ∧
      (s'.blocks s.insertPt).insts = (s.blocks s.insertPt).insts ++ undefCode cfg.rsi insts ∧
      s'.insertPt = s.insertPt ∧ s'.rsiBB = s.rsiBB ∧ s'.theBB = s.theBB ∧ s'.theMCBB = s.theMCBB ∧
      s'.bbByAddr = s.bbByAddr ∧ s'.opened = s.opened := by
  induction insts generalizing s with
  | nil => exact ⟨s, rfl, by simp, rfl, rfl, rfl, rfl, rfl, rfl⟩
  | cons i l ih =>
    obtain ⟨s1, h1, hsh, hm⟩ := translateInst_unknown hu hs (hk i (List.mem_cons_self i l)) s
    simp only [DCFunction.shape, Shape.mk.injEq, DCFunction.appendInst_bbByAddr, DCFunction.modifyInsts_bbByAddr,
      DCFunction.appendInst_theBB, DCFunction.modifyInsts_theBB, DCFunction.appendInst_insertPt,
      DCFunction.modifyInsts_insertPt, DCFunction.appendInst_rsiBB, DCFunction.modifyInsts_rsiBB,
      DCFunction.appendInst_opened, DCFunction.modifyInsts_opened] at hsh
    obtain ⟨hb, -, hmap, -, -, htb, hpt, hrsi, hop, -⟩ := hsh
    obtain ⟨s', h', hi, hp, hrs, htb', hm', hmap', hop'⟩ :=
      ih (fun j hj => hk j (List.mem_cons_of_mem i hj)) s1 (by rw [hrsi, hpt, hr])
    rw [hpt] at hi
    refine ⟨s', ?_, ?_, hp.trans hpt, hrs.trans hrsi, htb'.trans htb, hm'.trans hm, hmap'.trans hmap, hop'.trans hop⟩
    · simp only [List.map_cons, Op.run, Op.apply, h1, Option.map_some', Option.some_bind, h']
    · rw [hi, hb]
      simp [hr, DRS.emit]

include hu hs in
/-- **An MC block of unknown instructions.** The driver's operations on it leave
in the block of its address, which is opened, the register semantics' code for
the opening's PC write and then the undef code of each instruction, and nothing
else. -/
theorem unknownBlock {mcbb : MCBasicBlock} (hne : mcbb.insts ≠ [])
    (hk : ∀ i ∈ mcbb.insts, Unknown cfg i) (h : Op.run cfg (blockOps mcbb) s = some s') :
    ∃ bb c, s'.bbByAddr mcbb.startAddr = some bb ∧
      ConstantInt.get (cfg.regs.regType cfg.regs.programCounter) mcbb.startAddr.toNat = some c ∧
      (s'.blocks bb).insts = (cfg.rsi.setReg cfg.regs.programCounter c).map .instr ++ undefCode cfg.rsi mcbb.insts ∧
      mcbb.startAddr ∈ s'.opened := by
  rw [blockOps, Op.run_append, Op.run] at h
  obtain ⟨s2, h, h3⟩ := Option.bind_eq_some.mp h
  obtain ⟨s0, h0, h2'⟩ := Option.bind_eq_some.mp h
  obtain ⟨x, c, -, hc, hs0⟩ := switchToBasicBlock_eq_some h0
  have hr0 : s0.rsiBB = s0.insertPt := by rw [hs0]; rfl
  obtain ⟨s2, h2, hi, hp, -, htb, hm, hmap, hop⟩ := run_unknown hu hs hk s0 hr0
  subst hs0
  rw [h2] at h2'
  cases h2'
  obtain ⟨s3, h3, h4⟩ := Option.bind_eq_some.mp h3
  cases h4
  obtain ⟨bb, s4, hbb, hs4, rfl⟩ := finalizeBasicBlock_eq_some h3
  simp only [DRS.setReg, DRS.switchToBasicBlock, DCFunction.log, DCFunction.modifyInsts_insertPt,
    DCFunction.modifyInsts_theBB, DCFunction.modifyInsts_bbByAddr, DCFunction.modifyInsts_opened] at hp htb hmap hop hm
  simp only [DRS.setReg, DRS.switchToBasicBlock, DCFunction.log, DCFunction.modifyInsts_insertPt,
    DCFunction.modifyInsts_rsiBB, DCFunction.modifyInsts_insts_self, List.nil_append] at hi
  rw [htb] at hbb
  cases hbb
  rcases hs4 with ⟨-, rfl⟩ | ⟨hn, -⟩
  · refine ⟨(getOrCreateBasicBlock mcbb.startAddr { s with theMCBB := some mcbb }).1, c, ?_, hc, ?_, ?_⟩
    · simp [DRS.finalizeBasicBlock, DCFunction.log, hmap, getOrCreateBasicBlock_map]
    · simpa [DRS.finalizeBasicBlock, DCFunction.log, ← hp] using hi
    · simp [DRS.finalizeBasicBlock, DCFunction.log, hop]
  · simp [BasicBlock.getTerminator, hi, undefCode_getLast? _ hne, Inst.isTerminator] at hn

include hu hs in
/-- **A block of `k` unknown instructions holds `k` terminators.** Under the undef
policy, after the driver's operations on an MC block of unknown instructions,
the block of its address is the register semantics' code for the PC write, then
for each instruction its code and `call @llvm.trap(); unreachable`: `k`
terminators, and with two instructions or more an `unreachable` followed by
further instructions. -/
theorem unknownBlock_terminators {mcbb : MCBasicBlock} (hne : mcbb.insts ≠ [])
    (hk : ∀ i ∈ mcbb.insts, Unknown cfg i) (h : Op.run cfg (blockOps mcbb) s = some s') :
    ∃ bb c, s'.bbByAddr mcbb.startAddr = some bb ∧
      ConstantInt.get (cfg.regs.regType cfg.regs.programCounter) mcbb.startAddr.toNat = some c ∧
      (s'.blocks bb).insts = (cfg.rsi.setReg cfg.regs.programCounter c).map .instr ++
        (mcbb.insts.map fun i => (cfg.rsi.switchToInst i).map .instr ++ [.instr trapCall, .unreachable]).flatten ∧
      ((s'.blocks bb).insts.filter Inst.isTerminator).length = mcbb.insts.length ∧
      (2 ≤ mcbb.insts.length → ∃ pre post, (s'.blocks bb).insts = pre ++ .unreachable :: post ∧ post ≠ []) := by
  obtain ⟨bb, c, hbb, hc, hi, -⟩ := unknownBlock hu hs hne hk h
  refine ⟨bb, c, hbb, hc, hi, ?_, fun h2 => ?_⟩
  · rw [hi, List.filter_append, List.length_append, undefCode_terminators]
    simp [Inst.isTerminator]
  · obtain ⟨pre, post, hpp, hne'⟩ := undefCode_unreachable_mid cfg.rsi h2
    exact ⟨(cfg.rsi.setReg cfg.regs.programCounter c).map .instr ++ pre, post, by rw [hi, hpp, List.append_assoc], hne'⟩

end Undef

/-- A target that knows no instruction, translated with the undef policy. -/
def undefCfg : Config :=
  ⟨⟨fun _ => noSemantics, [], fun _ => 0, fun _ => .other, fun _ => .invalid, fun _ => .other⟩,
    ⟨0, fun _ => .int 64⟩, ⟨false, false, true⟩, .declineAll, .silent⟩

/-- An MC block of two instructions at `0x1000` and `0x1004`. -/
def twoUnknowns : MCBasicBlock :=
  ⟨0x1000, 0x1008, [⟨0x1000, 4, ⟨7, []⟩⟩, ⟨0x1004, 4, ⟨7, []⟩⟩]⟩

/-- The same target with the register semantics in mock mode, as the lit test
runs the translator (`-dc-translate-unknown-to-undef -enable-dc-reg-mock-intrin`). -/
def mockCfg : Config := { undefCfg with rsi := .mock }

/-- A function of one MC block of two unknown instructions, in driver order with
its destructor, in mock mode: the block of `0x1000` holds the PC write's
`llvm.dc.setreg`, then twice `llvm.dc.startinst` and
`call @llvm.trap(); unreachable`. -/
theorem unknownBlock_terminators_twoUnknowns :
    ∃ s' s'' bb, Op.run mockCfg (driverOps [twoUnknowns] []) (DCFunction.new mockCfg 0x1000) = some s' ∧
      s'.destroy = some s'' ∧ s''.bbByAddr 0x1000 = some bb ∧
      (s''.blocks bb).insts = [.instr (.call (.intrinsic .dcSetReg) [.constInt 64 0x1000, .constInt 32 0]),
        .instr (.call (.intrinsic .dcStartInst) []), .instr trapCall, .unreachable,
        .instr (.call (.intrinsic .dcStartInst) []), .instr trapCall, .unreachable] ∧
      ((s''.blocks bb).insts.filter Inst.isTerminator).length = 2 ∧
      ∃ pre post, (s''.blocks bb).insts = pre ++ .unreachable :: post ∧ post ≠ [] := by
  obtain ⟨s', h⟩ : ∃ s', Op.run mockCfg (blockOps twoUnknowns) (DCFunction.new mockCfg 0x1000) =
      some s' := Option.isSome_iff_exists.mp (by decide)
  have hc : s'.callBBs = [] := Op.run_map_eq (·.callBBs) h (by decide)
  obtain ⟨bb, c, hbb, hpc, hi, hn, hmid⟩ := unknownBlock_terminators
    (show mockCfg.opts.translateUnknownToUndef = true from rfl) rfl (by decide)
    (fun i hi => by
      simp only [twoUnknowns, List.mem_cons, List.mem_singleton, List.not_mem_nil, or_false] at hi
      rcases hi with rfl | rfl <;> exact ⟨rfl, rfl⟩) h
  obtain rfl : c = .constInt 64 0x1000 := (Option.some.inj hpc).symm
  refine ⟨s', DRS.finalizeFunction s' s'.exitBB, bb, by simpa [driverOps] using h,
    by simp [DCFunction.destroy, hc], hbb, show (s'.blocks bb).insts = _ by rw [hi]; rfl, hn, hmid (by decide)⟩

end Dagger
