import Dagger.Meaning

/-!
# The IR of a block computes its tapes' meaning

From `translateOpcode_sim`, by induction over the loop, the instructions and the
block:

* `translateLoop_sim`: the loop over a whole tape, with the same fuel;
* `translateInst_sim`: one instruction handled by its tape, the PC increment
  included, from an empty value stack;
* `translateInsts_sim`: the instructions of a block, one after another;
* `Idle.of_reachable`: between operations the value stack is empty and no
  instruction is current, in every reachable state;
* `translateBlock_sim`: from any reachable state, the MC block `SwitchToBasicBlock`
  opens: the registers the IR leaves in the register semantics are the ones the
  instructions' tapes compute from the block's entry registers.
-/

namespace Dagger

namespace TapeState

variable {cfg : Config} {ρ : Value → Option Nat} {i : MCDecodedInst} {s : DCFunction} {a a' : TapeState}

/-! ## A tape, an instruction, a block -/

/-- **A whole tape.** Where the tape machine runs instruction `i`'s tape up to
`END_OF_INSTRUCTION` within `fuel` opcodes, the translator's loop succeeds with
the same fuel, in a state that stands for the machine's. -/
theorem translateLoop_sim : ∀ {fuel : Nat} {s : DCFunction} {a a' : TapeState},
    Represents cfg ρ i s a → a.run cfg i fuel = some a' →
      ∃ s', translateLoop cfg fuel s = some (true, s') ∧ Represents cfg ρ i s' a'
  | 0, _, _, _, _, h => by cases h
  | fuel + 1, s, _, a', ⟨hi, rfl⟩, h => by
    rw [TapeState.run, Option.bind_eq_bind] at h
    obtain ⟨op, h1, h⟩ := bind_next_of h
    dsimp only at h
    rw [translateLoop, Option.bind_eq_bind, h1, Option.some_bind]
    dsimp only
    split_ifs at h ⊢
    · cases h
      exact ⟨_, rfl, hi, rfl⟩
    · obtain ⟨a2, h2, h⟩ := Option.bind_eq_some.mp h
      obtain ⟨s2, h3, hs2⟩ := translateOpcode_sim (s := { s with idx := s.idx + 1 }) ⟨hi, rfl⟩ h2
      rw [h3, Option.bind_eq_bind, Option.some_bind]
      exact translateLoop_sim hs2 h

/-- The PC increment `tryTranslateInst` builds: the old PC plus the size, at the
PC's width. -/
theorem pcIncrement_denote (s : DCFunction) {v : Value} {w : Nat} (hv : v.ty = .int w) (n : Nat) :
    (Builder.createBinOp s .add v (.constInt w (n % 2 ^ w))).1.denote ρ =
      ⟨.int w, (v.eval ρ).map fun c => (c + n) % 2 ^ w⟩ := by
  simp only [Value.denote, Builder.createBinOp_fst_ty, Builder.createBinOp_fst_eval, Value.eval, hv,
    BinaryOps.isInt, if_true, Ty.width_int, evalBinOp, Option.some_bind, Nat.mod_mod, Nat.add_mod_mod]
  cases v.eval ρ <;> rfl

/-- **The PC increment and the tape.** For an instruction its tape handles, from
an empty value stack, `tryTranslateInst` succeeds, and leaves the registers the
machine's `inst` computes: the PC advanced by the instruction's size, then the
tape. -/
theorem tryTranslateInst_sim (hk : TapeHandled cfg i) (hi : s.currentInst = some i) (hv : s.vals = [])
    {R : Nat → Bits} (h : inst cfg i (of cfg ρ s).regs = some R) :
    ∃ s', tryTranslateInst cfg s = some (true, s') ∧ s'.currentInst = some i ∧ (of cfg ρ s').regs = R := by
  simp only [TapeState.inst, guard, if_pos hk.2, Option.pure_def, Option.bind_eq_bind, Option.some_bind,
    Option.bind_eq_some, intWidth_eq_some, Option.some.injEq] at h
  obtain ⟨w, hw, a, hrun, rfl⟩ := h
  have hw' : ((s.regVals cfg.regs.programCounter).getD
      (.reg cfg.regs.programCounter (cfg.regs.regType cfg.regs.programCounter) s.rsiBB)).ty = .int w := hw
  simp only [tryTranslateInst, hi, Option.some_bind, runBoolHook, hk.1, runHook, Option.map_some',
    Option.bind_eq_bind, Option.isSome_none, Bool.false_eq_true, if_false, if_neg hk.2]
  simp only [DRS.getReg, hw', ConstantInt.get, Option.some_bind]
  refine (translateLoop_sim ?_ hrun).imp fun s' h => ⟨h.1, h.2.1, congrArg TapeState.regs h.2.2⟩
  refine ⟨by simp only [setReg_currentInst, createBinOp_snd_currentInst]; rfl, ?_⟩
  rw [of_setReg, of_createBinOp, pcIncrement_denote _ hw']
  simp only [TapeState.setReg, of, hv, List.map_nil]
  rfl

/-- **One instruction.** For an instruction its tape handles, from an empty value
stack, `translateInst` succeeds, empties the stack, and leaves the registers the
machine's `inst` computes from the ones it started with. -/
theorem translateInst_sim (hk : TapeHandled cfg i) (hv : s.vals = []) {R : Nat → Bits}
    (h : inst cfg i (of cfg ρ s).regs = some R) :
    ∃ s', translateInst cfg i s = some (true, s') ∧ s'.vals = [] ∧ (of cfg ρ s').regs = R := by
  let s₀ := DRS.switchToInst cfg { s with currentInst := some i } i
  have h₀ : of cfg ρ (if cfg.opts.enableInstAddrSave then
      Builder.createStore s₀ (.constInt 64 i.address.toNat) .currentInstr 0 true else s₀) = of cfg ρ s := by
    split <;> rfl
  obtain ⟨s', h', -, hR⟩ := tryTranslateInst_sim hk (by split <;> rfl) (by split <;> exact hv) (h₀ ▸ h)
  simp only [translateInst, Option.bind_eq_bind, h', Option.some_bind, Bool.not_true, Bool.false_and,
    Bool.false_eq_true, if_false]
  exact ⟨_, rfl, rfl, hR⟩

end TapeState

/-- The PC at `0x1000` and register 1 as the block found it, in a function under
construction. -/
def addStart : DCFunction :=
  { DCFunction.empty with regVals := fun r => if r = 0 then some (.constInt 64 0x1000) else none }

/-- With register 1 at 7, one instruction of `addCfg` leaves it at 12 and the PC
at `0x1004`. -/
theorem translateInst_sim_add :
    ∃ s', translateInst addCfg addInst addStart = some (true, s') ∧ s'.vals = [] ∧
      (TapeState.of addCfg addRho s').regs 1 = ⟨.int 32, some 12⟩ ∧
      (TapeState.of addCfg addRho s').regs 0 = ⟨.int 64, some 0x1004⟩ := by
  obtain ⟨R, hR⟩ : ∃ R, TapeState.inst addCfg addInst (TapeState.of addCfg addRho addStart).regs = some R :=
    Option.isSome_iff_exists.mp (by decide)
  have hv : (R 1, R 0) = (⟨.int 32, some 12⟩, ⟨.int 64, some 0x1004⟩) :=
    Option.some.inj (by rw [← Option.map_some' R (fun R => (R 1, R 0)), ← hR]; decide)
  obtain ⟨s', h', hvals, hregs⟩ :=
    TapeState.translateInst_sim ⟨rfl, by simp [addCfg, noSemantics]⟩ rfl hR
  exact ⟨s', h', hvals, by rw [hregs]; exact (Prod.mk.inj hv).1, by rw [hregs]; exact (Prod.mk.inj hv).2⟩

namespace TapeState

variable {cfg : Config} {ρ : Value → Option Nat} {i : MCDecodedInst} {s : DCFunction}

/-- **The instructions of a block.** For instructions their tapes handle, from an
empty value stack, translating them one after another succeeds, and the
registers the register semantics then holds are the ones the instructions'
tapes compute, one after another, from the registers it held before. -/
theorem translateInsts_sim {insts : List MCDecodedInst} (hk : ∀ i ∈ insts, TapeHandled cfg i)
    (hv : s.vals = []) {R : Nat → Bits} (h : block cfg insts (of cfg ρ s).regs = some R) :
    ∃ s', Op.run cfg (insts.map .translateInst) s = some s' ∧ (of cfg ρ s').regs = R := by
  induction insts generalizing s with
  | nil => exact ⟨s, rfl, Option.some.inj h⟩
  | cons i insts ih =>
    obtain ⟨R₁, h₁, h⟩ := Option.bind_eq_some.mp h
    obtain ⟨s₁, hs₁, hv₁, hR₁⟩ := translateInst_sim (hk i (List.mem_cons_self i insts)) hv h₁
    obtain ⟨s', h', hR⟩ := ih (fun j hj => hk j (List.mem_cons_of_mem i hj)) hv₁ (hR₁ ▸ h)
    refine ⟨s', ?_, hR⟩
    simp only [List.map_cons, Op.run, Op.apply, hs₁, Option.map_some', Option.some_bind, h']

end TapeState

/-! ## Between operations -/

/-- Between two operations no instruction is being translated: the value stack
is empty and there is no current instruction. -/
structure Idle (s : DCFunction) : Prop where
  vals : s.vals = []
  currentInst : s.currentInst = none

namespace Idle

variable {cfg : Config} {s s' : DCFunction}

theorem getOrCreate (hs : Idle s) (a : UInt64) : Idle (getOrCreateBasicBlock a s).2 := by
  unfold getOrCreateBasicBlock; split
  · exact hs
  · exact ⟨hs.1, hs.2⟩

theorem insertCallBB (hs : Idle s) {t : Value} {cb : Nat} (h : Dagger.insertCallBB t s = some (cb, s')) :
    Idle s' := by
  simp only [Dagger.insertCallBB, Option.bind_eq_bind, Option.bind_eq_some, guard, pure] at h
  obtain ⟨cur, -, _, -, h⟩ := h
  obtain ⟨-, rfl⟩ := Prod.mk.inj (Option.some.inj h)
  exact ⟨hs.1, hs.2⟩

theorem switchToBasicBlock (hs : Idle s) {a : UInt64} (h : Dagger.switchToBasicBlock cfg a s = some s') :
    Idle s' := by
  obtain ⟨-, -, -, -, rfl⟩ := switchToBasicBlock_eq_some h
  exact ⟨(hs.getOrCreate a).1, (hs.getOrCreate a).2⟩

theorem new (cfg : Config) (a : UInt64) : Idle (DCFunction.new cfg a) := by
  have h : ∀ s : DCFunction, Idle s →
      Idle (Builder.createBr (getOrCreateBasicBlock a s).2 (getOrCreateBasicBlock a s).1) :=
    fun s hs => ⟨(hs.getOrCreate a).1, (hs.getOrCreate a).2⟩
  unfold DCFunction.new
  exact h _ (by split <;> exact ⟨rfl, rfl⟩)

/-- **Every operation leaves no instruction half-translated.** -/
theorem apply (hs : Idle s) {op : Op} (h : op.apply cfg s = some s') : Idle s' := by
  cases op with
  | switchToBasicBlock mcbb => exact switchToBasicBlock (s := { s with theMCBB := some mcbb }) ⟨hs.1, hs.2⟩ h
  | translateInst i =>
    obtain ⟨⟨b, s1⟩, h1, rfl⟩ := Option.map_eq_some'.mp h
    simp only [Dagger.translateInst, Option.bind_eq_bind, Option.bind_eq_some] at h1
    obtain ⟨_, -, h1⟩ := h1
    cases h1
    exact ⟨rfl, rfl⟩
  | finalizeBasicBlock =>
    obtain ⟨bb, s1, -, ⟨-, rfl⟩ | ⟨-, mcbb, -, rfl⟩, rfl⟩ := finalizeBasicBlock_eq_some h
    · exact ⟨hs.1, hs.2⟩
    · exact ⟨(hs.getOrCreate _).1, (hs.getOrCreate _).2⟩
  | insertCall t =>
    rw [Op.apply] at h
    unfold Dagger.insertCall at h
    split at h
    · split at h
      · simp only [Option.bind_eq_bind, Option.some_bind, Option.bind_eq_some, pure,
          Option.some.injEq] at h
        obtain ⟨⟨cb, _⟩, h, rfl⟩ := h
        exact hs.insertCallBB h
      · simp at h
    · simp only [Option.bind_eq_bind, Option.some_bind, Option.bind_eq_some, pure,
        Option.some.injEq] at h
      obtain ⟨⟨cb, _⟩, h, rfl⟩ := h
      exact Idle.insertCallBB ⟨by simp [insertTranslateAt, Builder.createCall, DCFunction.insert,
        DCFunction.appendInst, DCFunction.modifyInsts, hs.1], by simp [insertTranslateAt, Builder.createCall,
        DCFunction.insert, DCFunction.appendInst, DCFunction.modifyInsts, hs.2]⟩ h
  | createExternalTailCallBB a =>
    obtain ⟨s1, cb, s2, h1, h2, rfl⟩ := createExternalTailCallBB_eq_some h
    have := (hs.switchToBasicBlock h1).insertCallBB h2
    exact ⟨this.1, this.2⟩

/-- **No reachable state is in the middle of an instruction.** -/
theorem of_reachable {a : UInt64} (h : Reachable cfg a s) : Idle s := by
  induction h with
  | init => exact new cfg a
  | step op _ h ih => exact ih.apply h

end Idle

/-! ## An MC block, from any reachable state -/

/-- The registers at the entry of IR block `bb`, opened for an MC block starting
at `a` with a `w`-bit PC: the PC holds `a`, and every other register the bits
`ρ` gives it as the block found it. -/
def entryRegs (cfg : Config) (ρ : Value → Option Nat) (w : Nat) (a : UInt64) (bb : Nat) :
    Nat → Bits :=
  Function.update (fun r => (Value.reg r (cfg.regs.regType r) bb).denote ρ) cfg.regs.programCounter
    ⟨.int w, some (a.toNat % 2 ^ w)⟩

variable {cfg : Config} {ρ : Value → Option Nat} {s s₁ : DCFunction}

/-- `SwitchToBasicBlock` leaves the registers of the block's entry. -/
theorem of_switchToBasicBlock {w : Nat} (hpc : cfg.regs.regType cfg.regs.programCounter = .int w)
    {a : UInt64} (h : switchToBasicBlock cfg a s = some s₁) :
    (TapeState.of cfg ρ s₁).regs = entryRegs cfg ρ w a s₁.rsiBB := by
  obtain ⟨x, c, -, hc, rfl⟩ := switchToBasicBlock_eq_some h
  rw [hpc, ConstantInt.get, Option.some.injEq] at hc
  subst hc
  funext r
  by_cases hr : r = cfg.regs.programCounter
  · subst hr
    simp [TapeState.of, DRS.getReg, DRS.setReg, entryRegs, Value.denote, Value.eval]
  · simp [TapeState.of, DRS.getReg, DRS.setReg, DRS.switchToBasicBlock, DCFunction.log, entryRegs, hr]

/-- **The meaning of a translated MC block.** From any reachable state, once
`SwitchToBasicBlock` has opened an MC block, translating its instructions, all
handled by their tapes, succeeds wherever the tapes have a meaning, and leaves in
the register semantics the registers the tapes compute, one instruction after
another, from the block's entry: the PC at the block's start address, every other
register as the IR block found it. -/
theorem translateBlock_sim {a₀ : UInt64} (hs : Reachable cfg a₀ s) {w : Nat}
    (hpc : cfg.regs.regType cfg.regs.programCounter = .int w) {mcbb : MCBasicBlock}
    (hk : ∀ i ∈ mcbb.insts, TapeHandled cfg i) (h₀ : switchToBasicBlockMC cfg mcbb s = some s₁)
    {R : Nat → Bits} (h : TapeState.block cfg mcbb.insts (entryRegs cfg ρ w mcbb.startAddr s₁.rsiBB) = some R) :
    ∃ s', Op.run cfg (.switchToBasicBlock mcbb :: mcbb.insts.map .translateInst) s = some s' ∧
      (TapeState.of cfg ρ s').regs = R := by
  have h₁ : Op.apply cfg (.switchToBasicBlock mcbb) s = some s₁ := h₀
  have hv := ((Idle.of_reachable hs).apply h₁).vals
  rw [← of_switchToBasicBlock hpc h₀] at h
  obtain ⟨s', h', hR⟩ := TapeState.translateInsts_sim hk hv h
  exact ⟨s', by simp only [Op.run, Op.apply, h₀, Option.some_bind, h'], hR⟩

/-- Two instructions adding 5 to register 1, of 4 bytes each, at `0x1000`. -/
def addBlock : MCBasicBlock := ⟨0x1000, 0x1008, [addInst, ⟨0x1004, 4, ⟨1, [.imm 5]⟩⟩]⟩

/-- Opening the block at `0x1000` of a new function and translating its two
instructions leaves register 1 at 7 + 5 + 5 and the PC at `0x1008`. -/
theorem translateBlock_sim_addBlock :
    ∃ s', Op.run addCfg (.switchToBasicBlock addBlock :: addBlock.insts.map .translateInst)
        (DCFunction.new addCfg 0x1000) = some s' ∧
      (TapeState.of addCfg addRho s').regs 1 = ⟨.int 32, some 17⟩ ∧
      (TapeState.of addCfg addRho s').regs 0 = ⟨.int 64, some 0x1008⟩ := by
  obtain ⟨s₁, h₀⟩ : ∃ s₁, switchToBasicBlockMC addCfg addBlock (DCFunction.new addCfg 0x1000) = some s₁ :=
    Option.isSome_iff_exists.mp (by decide)
  have h₁ : Op.run addCfg [.switchToBasicBlock addBlock] (DCFunction.new addCfg 0x1000) = some s₁ := by
    simpa [Op.run, Op.apply] using h₀
  have hbb : s₁.rsiBB = 2 := Op.run_map_eq (·.rsiBB) h₁ (by decide)
  obtain ⟨R, hR⟩ : ∃ R, TapeState.block addCfg addBlock.insts (entryRegs addCfg addRho 64 0x1000 2) = some R :=
    Option.isSome_iff_exists.mp (by decide)
  have hv : (R 1, R 0) = (⟨.int 32, some 17⟩, ⟨.int 64, some 0x1008⟩) :=
    Option.some.inj (by rw [← Option.map_some' R (fun R => (R 1, R 0)), ← hR]; decide)
  obtain ⟨s', h', hregs⟩ := translateBlock_sim .init rfl (fun _ _ => ⟨rfl, by simp [addCfg, noSemantics]⟩) h₀
    (by rw [hbb]; exact hR)
  exact ⟨s', h', by rw [hregs]; exact (Prod.mk.inj hv).1, by rw [hregs]; exact (Prod.mk.inj hv).2⟩

end Dagger
