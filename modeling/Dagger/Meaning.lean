import Dagger.Tape
import Dagger.Registers
import Dagger.ProgramCounter
import Dagger.Arithmetic

/-!
# The IR of an opcode computes the opcode's meaning

`TapeState.of cfg ρ s` is the tape machine state a translation state stands for:
the same tape position, the bits the IR values on the value stack evaluate to
under `ρ`, and each register as the register semantics' `getReg` would return it
— the value last written in the current block, or the register as the block
found it, whose bits `ρ` gives. `Represents cfg ρ i s a` adds that `s` is
translating instruction `i`, whose operands the tape's register-class and
constant opcodes read.

* the moves translation is made of, each with what it does to the abstraction
  and that none changes the current instruction;
* `translateOpcode_sim`: where the machine runs an opcode, `translateOpcode`
  succeeds, and the state it reaches stands for the machine's next state.
-/

namespace Dagger

/-- What an IR value denotes under `ρ`: its type and its bits. -/
def Value.denote (ρ : Value → Option Nat) (v : Value) : Bits := ⟨v.ty, v.eval ρ⟩

namespace TapeState

variable (cfg : Config) (ρ : Value → Option Nat)

/-- The tape machine state that translation state `s` stands for. -/
def of (s : DCFunction) : TapeState :=
  ⟨s.idx, s.vals.map (Value.denote ρ), fun r => (DRS.getReg cfg s r).1.denote ρ⟩

variable {cfg ρ}

/-! ## What each move of the translator does to the abstraction -/

theorem of_eq {s s' : DCFunction} (hi : s'.idx = s.idx) (hv : s'.vals = s.vals)
    (hr : s'.regVals = s.regVals) (hb : s'.rsiBB = s.rsiBB) : of cfg ρ s' = of cfg ρ s := by
  simp only [of, DRS.getReg, hi, hv, hr, hb]

theorem next_of (s : DCFunction) :
    (of cfg ρ s).next cfg = (Dagger.next cfg s).map fun p => (p.1, of cfg ρ p.2) := by
  simp only [TapeState.next, Dagger.next, Option.map_map]
  rfl

theorem pop_of (s : DCFunction) :
    (of cfg ρ s).pop = (getNextOperand s).map fun p => (p.1.denote ρ, of cfg ρ p.2) := by
  simp only [pop, of, getNextOperand]
  cases s.vals <;> rfl

@[simp] theorem of_vals (s : DCFunction) (vs : List Value) :
    of cfg ρ { s with vals := vs } = { of cfg ρ s with stack := vs.map (Value.denote ρ) } := rfl

@[simp] theorem of_registerResult (s : DCFunction) (v : Value) :
    of cfg ρ (registerResult s v) = (of cfg ρ s).push (v.denote ρ) := rfl

theorem of_setReg (s : DCFunction) (r : Nat) (v : Value) :
    of cfg ρ (DRS.setReg cfg s r v) = (of cfg ρ s).setReg r (v.denote ρ) := by
  simp only [of, TapeState.setReg, DRS.setReg, DRS.getReg, DRS.emit, DCFunction.modifyInsts, DCFunction.log,
    mk.injEq, true_and]
  funext r'
  by_cases h : r' = r
  · subst h; simp
  · simp [h]

@[simp] theorem of_create (s : DCFunction) (v : Value) : of cfg ρ (Builder.create s v).2 = of cfg ρ s := by
  unfold Builder.create; split <;> rfl

@[simp] theorem of_createBinOp (s : DCFunction) (op a b) :
    of cfg ρ (Builder.createBinOp s op a b).2 = of cfg ρ s := of_create s _

@[simp] theorem of_createCast (s : DCFunction) (op v t) :
    of cfg ρ (Builder.createCast s op v t).2 = of cfg ρ s := by
  unfold Builder.createCast; split
  · rfl
  · exact of_create s _

@[simp] theorem of_getReg (s : DCFunction) (r : Nat) : of cfg ρ (DRS.getReg cfg s r).2 = of cfg ρ s := rfl

@[simp] theorem of_drsCreate (s : DCFunction) (v : Value) : of cfg ρ (DRS.create s v).2 = of cfg ρ s := by
  unfold DRS.create; split <;> rfl

@[simp] theorem of_getRegAsInt (s : DCFunction) (r : Nat) :
    of cfg ρ (DRS.getRegAsInt cfg s r).2 = of cfg ρ s := by
  unfold DRS.getRegAsInt; dsimp only; split
  · rfl
  · exact of_drsCreate _ _

@[simp] theorem of_getRC (s : DCFunction) (T : Ty) (r : Nat) :
    of cfg ρ (Dagger.getRC cfg T r s).2 = of cfg ρ s := by
  unfold Dagger.getRC; dsimp only; split_ifs <;> simp

/-- The shift amount `translateBinOp` passes on, cast to the shifted value's type
when the types differ. -/
theorem of_shiftAmount (s : DCFunction) (op : BinaryOps) (v1 v2 : Value) :
    of cfg ρ (if op.isShift && v2.ty != v1.ty then Builder.createCast s .zext v2 v1.ty else (v2, s)).2 =
      of cfg ρ s := by
  split
  · exact of_createCast s _ _ _
  · rfl

/-- A cast of the shift amount to the shifted value's type changes no bits when
the amount is no wider. -/
theorem shiftAmount_eval (s : DCFunction) {op : BinaryOps} (v1 v2 : Value)
    (hw : op.isShift → v2.ty.width ≤ v1.ty.width) :
    (if op.isShift && v2.ty != v1.ty then Builder.createCast s .zext v2 v1.ty else (v2, s)).1.eval ρ =
      v2.eval ρ := by
  split
  · rename_i hc
    simp only [Bool.and_eq_true] at hc
    rw [Builder.createCast_fst_eval ρ s (show CastOps.zext.isBits = true from rfl)]
    simp only [Value.eval, CastOps.isBits, if_true, evalCast]
    cases hv : v2.eval ρ with
    | none => rfl
    | some n =>
      exact congrArg some (Nat.mod_eq_of_lt (lt_of_lt_of_le (Value.eval_lt ρ hv)
        (Nat.pow_le_pow_right (by omega) (hw hc.1))))
  · rfl

/-- `getRegAsInt` reads the register's bits as an integer as wide as the register. -/
theorem regInt_of (s : DCFunction) (r : Nat) :
    (of cfg ρ s).regInt cfg r = (DRS.getRegAsInt cfg s r).1.eval ρ := by
  simp only [regInt, of, Value.denote, DRS.getRegAsInt]
  split
  · rename_i h
    have := Value.eval_map_mod ρ (DRS.getReg cfg s r).1
    rw [h] at this
    exact this
  · simp only [DRS.create_fst_eval, Value.eval, CastOps.isBits, if_true]
    rfl

/-! ## The instruction being translated

None of the moves above changes which instruction is current. -/

@[simp] theorem registerResult_currentInst (s : DCFunction) (v : Value) :
    (registerResult s v).currentInst = s.currentInst := rfl

@[simp] theorem setReg_currentInst (s : DCFunction) (r : Nat) (v : Value) :
    (DRS.setReg cfg s r v).currentInst = s.currentInst := rfl

@[simp] theorem create_snd_currentInst (s : DCFunction) (v : Value) :
    (Builder.create s v).2.currentInst = s.currentInst := by
  unfold Builder.create; split <;> rfl

@[simp] theorem createBinOp_snd_currentInst (s : DCFunction) (op a b) :
    (Builder.createBinOp s op a b).2.currentInst = s.currentInst := create_snd_currentInst s _

@[simp] theorem createCast_snd_currentInst (s : DCFunction) (op v t) :
    (Builder.createCast s op v t).2.currentInst = s.currentInst := by
  unfold Builder.createCast; split
  · rfl
  · exact create_snd_currentInst s _

@[simp] theorem drsCreate_snd_currentInst (s : DCFunction) (v : Value) :
    (DRS.create s v).2.currentInst = s.currentInst := by
  unfold DRS.create; split <;> rfl

@[simp] theorem getRegAsInt_snd_currentInst (s : DCFunction) (r : Nat) :
    (DRS.getRegAsInt cfg s r).2.currentInst = s.currentInst := by
  unfold DRS.getRegAsInt; dsimp only; split
  · rfl
  · exact drsCreate_snd_currentInst _ _

@[simp] theorem getRC_snd_currentInst (s : DCFunction) (T : Ty) (r : Nat) :
    (Dagger.getRC cfg T r s).2.currentInst = s.currentInst := by
  unfold Dagger.getRC; dsimp only; split_ifs <;> simp

theorem shiftAmount_currentInst (s : DCFunction) (op : BinaryOps) (v1 v2 : Value) :
    (if op.isShift && v2.ty != v1.ty then Builder.createCast s .zext v2 v1.ty else (v2, s)).2.currentInst =
      s.currentInst := by
  split
  · exact createCast_snd_currentInst s _ _ _
  · rfl

/-- `putRC` succeeds only by writing its register, from a state the tape machine
cannot tell from the one it started in. -/
theorem putRC_eq_some {s s1 : DCFunction} {r : Nat} {v : Value} (h : Dagger.putRC cfg r v s = some s1) :
    ∃ s' w, s1 = DRS.setReg cfg s' r w ∧ of cfg ρ s' = of cfg ρ s ∧ s'.currentInst = s.currentInst := by
  unfold Dagger.putRC at h
  simp only [Option.bind_eq_bind, Option.bind_eq_some] at h
  obtain ⟨-, -, h⟩ := h
  refine ⟨_, _, (Option.some.inj h).symm, ?_⟩
  split_ifs <;> simp [DRS.insertBitsInValue]

/-! ## Reading the tape -/

theorem next_eq_some {s s' : DCFunction} {t : Nat} (h : Dagger.next cfg s = some (t, s')) :
    s' = { s with idx := s.idx + 1 } := by
  simp only [Dagger.next, Option.map_eq_some', Prod.mk.injEq] at h
  exact h.choose_spec.2.2.symm

theorem nextVT_eq {s s' : DCFunction} {t : Nat} (h : Dagger.next cfg s = some (t, s')) :
    nextVT cfg s = some (cfg.tables.valueType t, s') := by
  simp only [nextVT, h, Option.map_some']

/-- A token the machine reads, the translator reads too. -/
theorem bind_next_of {α : Type} {s : DCFunction} {K : Nat × TapeState → Option α} {b : α}
    (h : ((of cfg ρ s).next cfg).bind K = some b) :
    ∃ n, Dagger.next cfg s = some (n, { s with idx := s.idx + 1 }) ∧
      K (n, of cfg ρ { s with idx := s.idx + 1 }) = some b := by
  rcases hn : Dagger.next cfg s with _ | ⟨n, s'⟩ <;>
    simp only [next_of, hn, Option.map_none', Option.map_some', Option.none_bind, Option.some_bind,
      reduceCtorEq] at h
  obtain rfl := next_eq_some hn
  exact ⟨n, rfl, h⟩

/-- An operand the machine pops, the translator pops too. -/
theorem bind_pop_of {α : Type} {s : DCFunction} {K : Bits × TapeState → Option α} {b : α}
    (h : (of cfg ρ s).pop.bind K = some b) :
    ∃ v rest, s.vals = v :: rest ∧ K (v.denote ρ, of cfg ρ { s with vals := rest }) = some b := by
  rcases hv : s.vals with _ | ⟨v, rest⟩ <;>
    simp only [pop_of, getNextOperand, hv, Option.map_none', Option.map_some', Option.none_bind,
      Option.some_bind, reduceCtorEq] at h
  exact ⟨v, rest, rfl, h⟩

theorem getNextOperand_of_vals {s : DCFunction} {v : Value} {rest : List Value} (hv : s.vals = v :: rest) :
    getNextOperand s = some (v, { s with vals := rest }) := by
  simp only [getNextOperand, hv]

theorem getRegOp_eq {s : DCFunction} {i : MCDecodedInst} (hi : s.currentInst = some i) (n : Nat) :
    getRegOp s n = i.regOp n := by
  simp only [getRegOp, hi, Option.some_bind]
  rfl

theorem getImmOp_eq {s : DCFunction} {i : MCDecodedInst} (hi : s.currentInst = some i) (n : Nat) :
    getImmOp s n = i.immOp n := by
  simp only [getImmOp, hi, Option.some_bind]
  rfl

theorem intWidth_eq_some {t : Option Ty} {w : Nat} : intWidth t = some w ↔ t = some (.int w) := by
  rcases t with _ | ⟨_ | _⟩ <;> simp [intWidth]

end TapeState

/-! ## One opcode -/

/-- Translation state `s`, translating instruction `i`, stands for tape machine
state `a`. -/
@[mk_iff]
structure Represents (cfg : Config) (ρ : Value → Option Nat) (i : MCDecodedInst) (s : DCFunction)
    (a : TapeState) : Prop where
  currentInst : s.currentInst = some i
  abstract : TapeState.of cfg ρ s = a

namespace TapeState

variable {cfg ρ} {i : MCDecodedInst} {s : DCFunction} {a a' : TapeState}

theorem binOp_sim {op : BinaryOps} (hop : op.isInt) (hs : Represents cfg ρ i s a)
    (h : a.binOp op = some a') : ∃ s', translateBinOp op s = some s' ∧ Represents cfg ρ i s' a' := by
  obtain ⟨hc, rfl⟩ := hs
  rw [TapeState.binOp, Option.bind_eq_bind] at h
  obtain ⟨v1, xs, hx, h⟩ := bind_pop_of h
  obtain ⟨v2, rest, rfl, h⟩ := bind_pop_of h
  obtain ⟨w, hw, h⟩ := Option.bind_eq_some.mp h
  obtain ⟨_, hg, ⟨⟩⟩ := Option.bind_eq_some.mp h
  have hv : s.vals = v1 :: v2 :: rest := hx
  have hxt : v1.ty = .int w := by simpa [intWidth_eq_some, Value.denote] using hw
  have hxw : v1.ty.width = w := by rw [hxt, Ty.width_int]
  have hsh : op.isShift → v2.ty.width ≤ v1.ty.width := fun hsh => by
    have hg : v2.ty.isIntegerTy ∧ v2.ty.width ≤ w := by simpa [guard, hsh, Value.denote] using hg
    exact hxw ▸ hg.2
  simp only [translateBinOp, getNextOperand, hv, Option.bind_eq_bind, Option.some_bind,
    Option.pure_def, Option.some.injEq, exists_eq_left', represents_iff, registerResult_currentInst,
    createBinOp_snd_currentInst, shiftAmount_currentInst, hc, of_registerResult, of_createBinOp,
    of_shiftAmount, Value.denote, Builder.createBinOp_fst_ty, Builder.createBinOp_fst_eval, Value.eval,
    hop, if_true, shiftAmount_eval _ v1 v2 hsh, hxw, true_and]

theorem castOp_sim {op : CastOps} (hop : op.isBits) (hs : Represents cfg ρ i s a)
    (h : a.cast op (resType s) = some a') : ∃ s', translateCastOp op s = some s' ∧ Represents cfg ρ i s' a' := by
  obtain ⟨hc, rfl⟩ := hs
  rw [TapeState.cast, Option.bind_eq_bind] at h
  obtain ⟨t, ht, h⟩ := Option.bind_eq_some.mp h
  obtain ⟨v, rest, hv, h⟩ := bind_pop_of h
  obtain ⟨_, -, ⟨⟩⟩ := Option.bind_eq_some.mp h
  simp only [translateCastOp, ht, getNextOperand_of_vals hv, Option.bind_eq_bind, Option.some_bind,
    Option.pure_def, Option.some.injEq, exists_eq_left', represents_iff, registerResult_currentInst,
    createCast_snd_currentInst, hc, of_registerResult, of_createCast, Value.denote,
    Builder.createCast_fst_ty, Builder.createCast_fst_eval ρ _ hop, Value.eval, hop, if_true, true_and]

theorem getRC_sim {T : Ty} {r : Nat} (h : (of cfg ρ s).getRC cfg T r = some a') :
    of cfg ρ (registerResult (Dagger.getRC cfg T r s).2 (Dagger.getRC cfg T r s).1) = a' := by
  by_cases hg : T.isPointerTy = false ∧ 0 < T.primitiveSizeInBits ∧ T.primitiveSizeInBits ≤ regWidth cfg r
  · simp only [TapeState.getRC, guard, if_pos hg, Option.pure_def, Option.bind_eq_bind, Option.some_bind,
      Option.some.injEq] at h
    subst h
    obtain ⟨hty, hev⟩ := getRC_eval cfg ρ s r T hg.1 hg.2.2
    simp only [of_registerResult, of_getRC, Value.denote, hty, hev, regInt_of]
  · simp only [TapeState.getRC, guard, if_neg hg] at h
    cases h

theorem putRC_sim {r : Nat} {v : Value} (hs : Represents cfg ρ i s a)
    (h : a.putRC cfg r (v.denote ρ) = some a') :
    ∃ s', Dagger.putRC cfg r v s = some s' ∧ Represents cfg ρ i s' a' := by
  obtain ⟨hc, rfl⟩ := hs
  by_cases hg : v.ty.isPointerTy = false ∧ 0 < v.ty.primitiveSizeInBits ∧
      v.ty.primitiveSizeInBits ≤ regWidth cfg r
  · simp only [TapeState.putRC, Value.denote, guard, if_pos hg, Option.pure_def, Option.bind_eq_bind,
      Option.some_bind, Option.some.injEq] at h
    subst h
    obtain ⟨s1, w, hs1, hw, hty, hev⟩ := putRC_eval cfg ρ s r v hg.1 hg.2.2
    obtain ⟨s', w', rfl, hs', hc'⟩ := putRC_eq_some (ρ := ρ) hs1
    obtain rfl : w' = w := by simpa using hw
    refine ⟨_, hs1, ⟨by rw [setReg_currentInst, hc', hc], ?_⟩⟩
    simp only [of_setReg, hs', Value.denote, hty, hev, regInt_of, DRS.getRegIntType, regWidth]
  · simp only [TapeState.putRC, Value.denote, guard, if_neg hg] at h
    cases h

theorem mulLoHi_sim {ext : CastOps} (hop : ext.isBits) (hs : Represents cfg ρ i s a)
    (h : a.mulLoHi cfg ext s.resEVT = some a') :
    ∃ s', translateMulLoHi cfg ext s = some s' ∧ Represents cfg ρ i s' a' := by
  obtain ⟨hi, rfl⟩ := hs
  rw [TapeState.mulLoHi, Option.bind_eq_bind] at h
  obtain ⟨t, h1, h⟩ := bind_next_of h
  simp only [Option.bind_eq_bind] at h
  obtain ⟨l, hl, h⟩ := Option.bind_eq_some.mp h
  obtain ⟨hw, hvt, h⟩ := Option.bind_eq_some.mp h
  obtain ⟨_, hg, h⟩ := Option.bind_eq_some.mp h
  obtain ⟨x, xs, hx, h⟩ := bind_pop_of h
  obtain ⟨y, ys, rfl, h⟩ := bind_pop_of h
  obtain ⟨_, -, ⟨⟩⟩ := Option.bind_eq_some.mp h
  have h0 : 0 < hw := Nat.pos_of_ne_zero (by simpa [guard] using hg : 0 < l ∧ hw ≠ 0).2
  have hx' : s.vals = x :: y :: ys := hx
  rw [intWidth_eq_some] at hl hvt
  simp only [translateMulLoHi, nextVT_eq h1, Option.bind_eq_bind, Option.some_bind, resType, hl, hvt,
    intWidth, getNextOperand, hx', Builder.createCast_snd_vals, Option.pure_def, Option.some.injEq,
    exists_eq_left', represents_iff]
  have htr : CastOps.trunc.isBits = true := rfl
  refine ⟨by simp only [registerResult_currentInst, createCast_snd_currentInst, createBinOp_snd_currentInst, hi], ?_⟩
  simp only [of_registerResult, of_createCast, of_createBinOp, of_vals, Value.denote, Builder.createCast_fst_ty,
    Builder.createBinOp_fst_ty, Builder.createCast_fst_eval ρ _ hop, Builder.createCast_fst_eval ρ _ htr,
    Builder.createBinOp_fst_eval, Value.eval, hop, htr, if_true, BinaryOps.isInt, Ty.width_int, evalBinOp]
  have hl' : l % 2 ^ (l + hw) = l :=
    Nat.mod_eq_of_lt (lt_of_lt_of_le (Nat.lt_two_pow l) (Nat.pow_le_pow_right (by omega) (by omega)))
  have hlt : l < l + hw := by omega
  have hmod (m : Nat) : m % 2 ^ (l + hw) % 2 ^ hw = m % 2 ^ hw :=
    Nat.mod_mod_of_dvd _ (Nat.pow_dvd_pow 2 (Nat.le_add_left hw l))
  refine congrArg₂ TapeState.push (congrArg₂ TapeState.push rfl (congrArg _ ?_)) (congrArg _ ?_) <;>
    cases x.eval ρ <;> cases y.eval ρ <;> simp [evalCast_trunc, hl', hlt, hmod]

/-- `ROTL` by an amount strictly between zero and the width: the shifts and the
`or` the translator builds compute the rotation. -/
theorem rotl_sim (hs : Represents cfg ρ i s a) (h : a.rotl = some a') :
    ∃ s', translateRotl s = some s' ∧ Represents cfg ρ i s' a' := by
  obtain ⟨hi, rfl⟩ := hs
  rw [TapeState.rotl, Option.bind_eq_bind] at h
  obtain ⟨x, xs, hx, h⟩ := bind_pop_of h
  obtain ⟨n, hn, h⟩ := Option.bind_eq_some.mp h
  obtain ⟨y, ys, rfl, h⟩ := bind_pop_of h
  obtain ⟨_, -, h⟩ := Option.bind_eq_some.mp h
  obtain ⟨k, hk, h⟩ := Option.bind_eq_some.mp h
  obtain ⟨_, hg, ⟨⟩⟩ := Option.bind_eq_some.mp h
  have hg : 0 < k ∧ k < n := by simpa [guard] using hg
  have hxt : x.ty = .int n := by simpa [intWidth_eq_some, Value.denote] using hn
  have hk : y.eval ρ = some k := hk
  have hkn : k % 2 ^ n = k := Nat.mod_eq_of_lt (lt_trans hg.2 (Nat.lt_two_pow n))
  simp only [translateRotl, getNextOperand_of_vals hx, hxt, Option.bind_eq_bind, Option.some_bind,
    Ty.isIntegerTy, guard, if_true, getNextOperand_of_vals (s := { s with vals := y :: ys }) rfl, ConstantInt.get, Option.pure_def, Option.some.injEq,
    exists_eq_left', represents_iff]
  refine ⟨by simp only [registerResult_currentInst, createBinOp_snd_currentInst, createCast_snd_currentInst, hi], ?_⟩
  have hz : CastOps.zext.isBits = true := rfl
  simp only [of_registerResult, of_createCast, of_createBinOp, of_vals, Value.denote, Builder.createBinOp_fst_ty,
    Builder.createBinOp_fst_eval, Builder.createCast_fst_eval ρ _ hz, Value.eval, hz, if_true, BinaryOps.isInt,
    hxt, Ty.width_int, hk, evalCast, hkn, Option.map_some', Option.some_bind, Value.ty_constInt,
    Ty.primitiveSizeInBits_int, Nat.mod_mod]
  cases hm : x.eval ρ with
  | none => rfl
  | some m =>
    have hm' : m < 2 ^ n := by simpa [hxt] using Value.eval_lt ρ hm
    rw [Option.map_some', ← rotlBits_rotateLeft hm' hg.1 hg.2]
    simp only [rotlBits, Option.bind_eq_bind, Option.some_bind, Option.bind_assoc]
/-- **One opcode.** Where the tape machine runs an opcode of instruction `i`'s
tape, `translateOpcode` succeeds, and the state it reaches stands for the
machine's next state: the IR it built computes the machine's values, and the
register semantics holds the machine's registers. -/
theorem translateOpcode_sim {op : Nat} (hs : Represents cfg ρ i s a) (h : a.step cfg i op = some a') :
    ∃ s', translateOpcode cfg op s = some (true, s') ∧ Represents cfg ρ i s' a' := by
  obtain ⟨hi, rfl⟩ := hs
  rw [TapeState.step, Option.bind_eq_bind] at h
  obtain ⟨t, h1, h⟩ := bind_next_of h
  dsimp only at h
  rw [translateOpcode, Option.bind_eq_bind, nextVT_eq h1, Option.some_bind]
  dsimp only
  set s2 : DCFunction := { s with idx := s.idx + 1, resEVT := cfg.tables.valueType t } with hs2
  rw [show s.currentInst = some i from hi, Option.bind_eq_bind, Option.some_bind]
  have hs2 : Represents cfg ρ i s2 (of cfg ρ s2) := ⟨hi, rfl⟩
  cases hop : cfg.tables.opcode op <;>
    simp only [hop, SemaOpcode.intBinOp, SemaOpcode.bitsCast, reduceCtorEq] at h ⊢
  case add | sub | mul | udiv | sdiv | urem | srem | shl | srl | sra | and | or | xor =>
    obtain ⟨s', h', hs'⟩ := binOp_sim (by rfl) hs2 h
    exact ⟨s', by rw [h']; rfl, hs'⟩
  case truncate | bitcast | zeroExtend | signExtend =>
    obtain ⟨s', h', hs'⟩ := castOp_sim (by rfl) hs2 h
    exact ⟨s', by rw [h']; rfl, hs'⟩
  case smulLohi | umulLohi =>
    obtain ⟨s', h', hs'⟩ := mulLoHi_sim (by rfl) hs2 h
    exact ⟨s', by rw [h']; rfl, hs'⟩
  case rotl =>
    obtain ⟨s', h', hs'⟩ := rotl_sim hs2 h
    exact ⟨s', by rw [h']; rfl, hs'⟩
  case getReg =>
    obtain ⟨r, h3, ⟨⟩⟩ := bind_next_of (s := s2) h
    rw [h3]
    exact ⟨_, rfl, hi, rfl⟩
  case putReg =>
    obtain ⟨r, h3, h⟩ := bind_next_of (s := s2) h
    simp only [Option.bind_eq_bind] at h
    obtain ⟨v, rest, h4, ⟨⟩⟩ := bind_pop_of h
    simp only [h3, getNextOperand_of_vals h4, Option.bind_eq_bind, Option.some_bind]
    exact ⟨_, rfl, hi, of_setReg _ _ _⟩
  case getRC =>
    obtain ⟨n, h3, h⟩ := bind_next_of (s := s2) h
    simp only [Option.bind_eq_bind, Option.bind_eq_some] at h
    obtain ⟨T, hT, r, hr, h⟩ := h
    have hreg : getRegOp { s2 with idx := s2.idx + 1 } n = some r := (getRegOp_eq hi n).trans hr
    simp only [h3, hreg, resType, hT, Option.bind_eq_bind, Option.some_bind]
    exact ⟨_, rfl, by simpa using hi, getRC_sim h⟩
  case putRC =>
    obtain ⟨n, h3, h⟩ := bind_next_of (s := s2) h
    simp only [Option.bind_eq_bind] at h
    obtain ⟨r, hr, h⟩ := Option.bind_eq_some.mp h
    obtain ⟨v, rest, h4, h⟩ := bind_pop_of h
    have hreg : getRegOp { s2 with idx := s2.idx + 1 } n = some r := (getRegOp_eq hi n).trans hr
    simp only [h3, hreg, getNextOperand_of_vals h4, Option.bind_eq_bind, Option.some_bind]
    dsimp only at h
    obtain ⟨s', h', hs'⟩ := putRC_sim (s := { s2 with idx := s2.idx + 1, vals := rest }) ⟨hi, rfl⟩ h
    exact ⟨s', by rw [h']; rfl, hs'⟩
  case constantOp =>
    obtain ⟨n, h3, h⟩ := bind_next_of (s := s2) h
    simp only [Option.bind_eq_bind, Option.bind_eq_some, intWidth_eq_some] at h
    obtain ⟨w, hw, imm, himm, ⟨⟩⟩ := h
    have hres : resType { s2 with idx := s2.idx + 1 } = some (.int w) := hw
    have himm' : getImmOp { s2 with idx := s2.idx + 1 } n = some imm := (getImmOp_eq hi n).trans himm
    simp only [h3, hres, himm', intWidth, Option.bind_eq_bind, Option.some_bind, Option.pure_def]
    refine ⟨_, rfl, hi, ?_⟩
    simp only [of_registerResult, Value.denote, Value.ty_constInt, Value.eval, Nat.mod_mod]
  case movConstant =>
    obtain ⟨k, h3, h⟩ := bind_next_of (s := s2) h
    simp only [Option.bind_eq_bind, Option.bind_eq_some, intWidth_eq_some] at h
    obtain ⟨w, hw, ⟨⟩⟩ := h
    simp only [h3, Option.bind_eq_bind, Option.some_bind]
    split_ifs at hw ⊢
    · cases hw
      refine ⟨_, rfl, hi, ?_⟩
      simp only [of_registerResult, Value.denote, Value.ty_constInt, Value.eval, Nat.mod_mod]
    · simp only [resType, hw, ConstantInt.get, Option.some_bind, Option.pure_def]
      refine ⟨_, rfl, hi, ?_⟩
      simp only [of_registerResult, Value.denote, Value.ty_constInt, Value.eval, Nat.mod_mod]

end TapeState

/-- A target with a 64-bit PC, register 0, and 32-bit registers otherwise, whose
every instruction has the tape `PUT_REG r1 (ADD (CONSTANT imm0) (GET_REG r1))`. -/
def addCfg : Config :=
  ⟨⟨fun _ => 0, [10, 3, 1, 11, 3, 0, 12, 3, 13, 3, 1, 14], fun _ => 0,
      fun t => if t = 10 then .getReg else if t = 11 then .constantOp else if t = 12 then .add
        else if t = 13 then .putReg else if t = 14 then .endOfInstruction else .other,
      fun t => if t = 3 then .ty (.int 32) else .invalid, fun _ => .other⟩,
    ⟨0, fun r => if r = 0 then .int 64 else .int 32⟩, ⟨false, false, false⟩, .declineAll, .silent⟩

/-- An instruction of that target, 4 bytes at `0x1000`, with immediate 5. -/
def addInst : MCDecodedInst := ⟨0x1000, 4, ⟨1, [.imm 5]⟩⟩

/-- Register 1 holds 7 when the block starts. -/
def addRho : Value → Option Nat
  | .reg 1 _ _ => some 7
  | _ => none

/-- The `ADD` of that tape, with the constant 5 on top of register 1. -/
def addState : DCFunction :=
  { DCFunction.empty with idx := 7, vals := [.constInt 32 5, .reg 1 (.int 32) 0], currentInst := some addInst }

/-- With register 1 at 7, the `ADD` pushes 12. -/
theorem translateOpcode_sim_add :
    ∃ s', translateOpcode addCfg 12 addState = some (true, s') ∧
      (TapeState.of addCfg addRho s').stack = [⟨.int 32, some 12⟩] := by
  obtain ⟨a', h⟩ : ∃ a', (TapeState.of addCfg addRho addState).step addCfg addInst 12 = some a' :=
    Option.isSome_iff_exists.mp (by decide)
  have hv : a'.stack = [⟨.int 32, some 12⟩] :=
    Option.some.inj (by rw [← Option.map_some' a' TapeState.stack, ← h]; decide)
  obtain ⟨s', h', hs'⟩ := TapeState.translateOpcode_sim ⟨rfl, rfl⟩ h
  exact ⟨s', h', by rw [hs'.abstract, hv]⟩

end Dagger
