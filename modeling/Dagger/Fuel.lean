import Dagger.BlockMeaning

/-!
# The loop's fuel is enough

The C++ loop of `tryTranslateInst` reads opcodes until `END_OF_INSTRUCTION` with
no bound; `translateLoop` is given fuel, and `tryTranslateInst` passes the tape's
length plus one. The bound is never what stops the loop:

* every helper of the interpreter leaves the tape cursor `idx` where it is, or
  moves it forward by reading (`runHook_idx_le`), and every opcode reads at least
  its value type (`translateOpcode_idx_lt`);
* every round reads its opcode token, and a read past the end of the tape fails;
* so once the fuel covers the tokens left after `idx`, more fuel changes nothing
  (**`translateLoop_fuel_add`**), and the fuel `tryTranslateInst` passes covers
  the whole tape.
-/

namespace Dagger

/-! ## The builder and the register semantics leave the tape alone -/

@[simp] theorem DCFunction.insert_idx (s : DCFunction) (i : Inst) : (s.insert i).idx = s.idx := rfl

namespace Builder

variable (s : DCFunction)

@[simp] theorem create_snd_idx (v : Value) : (create s v).2.idx = s.idx := by
  unfold create; split <;> rfl

@[simp] theorem createBinOp_snd_idx (op a b) : (createBinOp s op a b).2.idx = s.idx :=
  create_snd_idx s _

@[simp] theorem createCast_snd_idx (op v t) : (createCast s op v t).2.idx = s.idx := by
  unfold createCast; split <;> simp

@[simp] theorem createBitOrPointerCast_snd_idx (v t) : (createBitOrPointerCast s v t).2.idx = s.idx := by
  unfold createBitOrPointerCast; split_ifs <;> simp

@[simp] theorem createCall_snd_idx (f a t) : (createCall s f a t).2.idx = s.idx := rfl

@[simp] theorem createCallVoid_idx (f as) : (createCallVoid s f as).idx = s.idx := rfl

@[simp] theorem createLoad_snd_idx (t p a) : (createLoad s t p a).2.idx = s.idx := rfl

@[simp] theorem createStore_idx (v p a vol) : (createStore s v p a vol).idx = s.idx := rfl

@[simp] theorem createFence_idx (o sc) : (createFence s o sc).idx = s.idx := rfl

@[simp] theorem createBr_idx (bb) : (createBr s bb).idx = s.idx := rfl

end Builder

namespace DRS

variable (cfg : Config) (s : DCFunction)

@[simp] theorem getReg_snd_idx (r : Nat) : (getReg cfg s r).2.idx = s.idx := rfl

@[simp] theorem setReg_idx (r : Nat) (v : Value) : (setReg cfg s r v).idx = s.idx := rfl

@[simp] theorem create_snd_idx (v : Value) : (create s v).2.idx = s.idx := by
  unfold create; split <;> rfl

@[simp] theorem getRegAsInt_snd_idx (r : Nat) : (getRegAsInt cfg s r).2.idx = s.idx := by
  unfold getRegAsInt; dsimp only; split <;> simp

@[simp] theorem insertBitsInValue_snd_idx (w p) : (insertBitsInValue s w p).2.idx = s.idx :=
  create_snd_idx s _

end DRS

@[simp] theorem registerResult_idx (s : DCFunction) (v : Value) : (registerResult s v).idx = s.idx := rfl

@[simp] theorem getRC_snd_idx (cfg : Config) (s : DCFunction) (t : Ty) (r : Nat) :
    (getRC cfg t r s).2.idx = s.idx := by
  unfold getRC; dsimp only; split_ifs <;> simp

@[simp] theorem getOrCreateBasicBlock_snd_idx (a : UInt64) (s : DCFunction) :
    (getOrCreateBasicBlock a s).2.idx = s.idx := by
  unfold getOrCreateBasicBlock; split <;> rfl

/-! ## Reading moves the tape forward -/

variable {cfg : Config} {s s' : DCFunction}

theorem next_idx {t : Nat} (h : next cfg s = some (t, s')) : s'.idx = s.idx + 1 := by
  simp only [next, Option.map_eq_some', Prod.mk.injEq] at h
  obtain ⟨_, -, -, rfl⟩ := h
  rfl

theorem nextVT_idx {t : EVT} (h : nextVT cfg s = some (t, s')) : s'.idx = s.idx + 1 := by
  simp only [nextVT, Option.map_eq_some', Prod.mk.injEq] at h
  obtain ⟨⟨_, _⟩, h, -, rfl⟩ := h
  exact next_idx h

theorem getNextOperand_idx {v : Value} (h : getNextOperand s = some (v, s')) : s'.idx = s.idx := by
  unfold getNextOperand at h
  split at h
  · cases h; rfl
  · cases h

theorem insertCallBB_idx {t : Value} {cb : Nat} (h : insertCallBB t s = some (cb, s')) : s'.idx = s.idx := by
  simp only [insertCallBB, Option.bind_eq_bind, Option.bind_eq_some, guard, pure] at h
  obtain ⟨cur, -, _, -, h⟩ := h
  obtain ⟨-, rfl⟩ := Prod.mk.inj (Option.some.inj h)
  rfl

theorem insertCall_idx {t : Value} (h : insertCall t s = some s') : s'.idx = s.idx := by
  unfold insertCall at h
  split at h
  · split at h
    · simp only [Option.bind_eq_bind, Option.some_bind, Option.bind_eq_some, pure,
        Option.some.injEq] at h
      obtain ⟨⟨cb, _⟩, h, rfl⟩ := h
      exact insertCallBB_idx h
    · simp at h
  · simp only [Option.bind_eq_bind, Option.some_bind, Option.bind_eq_some, pure,
      Option.some.injEq] at h
    obtain ⟨⟨cb, _⟩, h, rfl⟩ := h
    rw [insertCallBB_idx h]
    simp [insertTranslateAt]

/-! ## The opcode cases -/

theorem translateBinOp_idx {opc} (h : translateBinOp opc s = some s') : s'.idx = s.idx := by
  simp only [translateBinOp, Option.bind_eq_bind, Option.bind_eq_some, pure, Option.some.injEq] at h
  obtain ⟨⟨_, s1⟩, h1, ⟨_, s2⟩, h2, rfl⟩ := h
  simp [apply_ite Prod.snd, apply_ite DCFunction.idx, getNextOperand_idx h1, getNextOperand_idx h2]

theorem translateCastOp_idx {opc} (h : translateCastOp opc s = some s') : s'.idx = s.idx := by
  simp only [translateCastOp, Option.bind_eq_bind, Option.bind_eq_some, pure,
    Option.some.injEq] at h
  obtain ⟨_, -, ⟨_, s1⟩, h1, rfl⟩ := h
  simp [getNextOperand_idx h1]

theorem translateRotl_idx (h : translateRotl s = some s') : s'.idx = s.idx := by
  simp only [translateRotl, Option.bind_eq_bind, Option.bind_eq_some, pure, Option.some.injEq] at h
  obtain ⟨⟨_, s1⟩, h1, -, -, ⟨_, s2⟩, h2, _, -, rfl⟩ := h
  simp [getNextOperand_idx h1, getNextOperand_idx h2]

/-- The wide multiplications read their second value type. -/
theorem translateMulLoHi_idx {ext} (h : translateMulLoHi cfg ext s = some s') : s'.idx = s.idx + 1 := by
  simp only [translateMulLoHi, Option.bind_eq_bind, Option.bind_eq_some, pure,
    Option.some.injEq] at h
  obtain ⟨⟨_, s1⟩, h1, _, -, _, -, ⟨_, s2⟩, h2, ⟨_, s3⟩, h3, rfl⟩ := h
  simp [nextVT_idx h1, getNextOperand_idx h2, getNextOperand_idx h3]

theorem putRC_idx {r v} (h : putRC cfg r v s = some s') : s'.idx = s.idx := by
  simp only [putRC, Option.bind_eq_bind, Option.bind_eq_some, pure, Option.some.injEq] at h
  obtain ⟨-, -, rfl⟩ := h
  simp [apply_ite Prod.snd, apply_ite DCFunction.idx]

theorem translateExtLoad_idx {t b} (h : translateExtLoad t b s = some s') : s'.idx = s.idx := by
  simp only [translateExtLoad, Option.bind_eq_bind, Option.bind_eq_some, pure,
    Option.some.injEq] at h
  obtain ⟨⟨_, s1⟩, h1, _, -, rfl⟩ := h
  simp [getNextOperand_idx h1]

theorem translateLoad_idx (h : translateLoad s = some s') : s'.idx = s.idx := by
  simp only [translateLoad, Option.bind_eq_bind, Option.bind_eq_some, pure, Option.some.injEq] at h
  obtain ⟨_, -, ⟨_, s1⟩, h1, rfl⟩ := h
  simp [apply_ite Prod.snd, apply_ite DCFunction.idx, getNextOperand_idx h1]

theorem translateStore_idx (h : translateStore s = some s') : s'.idx = s.idx := by
  simp only [translateStore, Option.bind_eq_bind, Option.bind_eq_some, pure, Option.some.injEq] at h
  obtain ⟨⟨_, s1⟩, h1, ⟨_, s2⟩, h2, rfl⟩ := h
  simp [apply_ite Prod.snd, apply_ite DCFunction.idx, getNextOperand_idx h1, getNextOperand_idx h2]

theorem translatePredicate_idx {p b} (h : translatePredicate cfg p s = some (b, s')) : s'.idx = s.idx := by
  cases hp : cfg.tables.predicate p <;> simp only [translatePredicate, hp] at h
  case memop | loadi16 | loadi32 | alignedload | alignedload256 | alignedload512 | load =>
    exact translateLoad_idx (ok_eq_some h)
  case alignednontemporalstore | nontemporalstore | alignedstore | alignedstore256
    | alignedstore512 | store => exact translateStore_idx (ok_eq_some h)
  case zextloadi8 | zextloadi16 | sextloadi8 | sextloadi16 | sextloadi32 =>
    exact translateExtLoad_idx (ok_eq_some h)
  case andSu => exact translateBinOp_idx (ok_eq_some h)
  case other => cases h; rfl

/-! ## Hooks and opcodes only read forward -/

theorem runHook_idx_le {k : Hook} {r} (h : runHook cfg k s = some (r, s')) : s.idx ≤ s'.idx := by
  induction k generalizing s with
  | done => cases h; exact le_rfl
  | next k ih =>
    obtain ⟨⟨t, s1⟩, h1, h⟩ := Option.bind_eq_some.mp h
    have := ih t h
    rw [next_idx h1] at this
    exact Nat.le_of_succ_le this
  | operand k ih =>
    obtain ⟨⟨v, s1⟩, h1, h⟩ := Option.bind_eq_some.mp h
    exact getNextOperand_idx h1 ▸ ih v h
  | result v k ih => exact ih (s := registerResult s v) h
  | getReg r k ih => exact ih _ (s := (DRS.getReg cfg s r).2) h
  | setReg r v k ih => exact ih (s := DRS.setReg cfg s r v) h
  | emit i hi k ih => exact ih (s := s.insert (.instr i)) h
  | call t k ih =>
    obtain ⟨s1, h1, h⟩ := Option.bind_eq_some.mp h
    exact insertCall_idx h1 ▸ ih h
  | br a k ih => simpa using ih (s := Builder.createBr (getOrCreateBasicBlock a s).2 _) h
  | brExit k ih => exact ih (s := Builder.createBr s s.exitBB) h

theorem runBoolHook_idx_le {k : Hook} {b} (h : runBoolHook cfg k s = some (b, s')) : s.idx ≤ s'.idx := by
  simp only [runBoolHook, Option.map_eq_some', Prod.mk.injEq] at h
  obtain ⟨⟨r, s1⟩, h1, -, rfl⟩ := h
  exact runHook_idx_le h1

/-- **No opcode moves the tape back**: each reads at least its value type. -/
theorem translateOpcode_idx_lt {op b} (h : translateOpcode cfg op s = some (b, s')) : s.idx < s'.idx := by
  rw [translateOpcode, Option.bind_eq_bind, Option.bind_eq_some] at h
  obtain ⟨⟨vt, s1⟩, h1, h⟩ := h
  dsimp only at h
  rw [Option.bind_eq_bind, Option.bind_eq_some] at h
  obtain ⟨inst, -, h⟩ := h
  suffices hle : { s1 with resEVT := vt }.idx ≤ s'.idx by
    have h1 := nextVT_idx h1
    dsimp only at hle
    omega
  cases hop : cfg.tables.opcode op <;> simp only [hop] at h
  case add | fadd | sub | fsub | mul | fmul | udiv | sdiv | fdiv | urem | srem | frem | shl
    | srl | sra | and | or | xor => exact Nat.le_of_eq (translateBinOp_idx (ok_eq_some h)).symm
  case truncate | bitcast | zeroExtend | signExtend | fpToUint | fpToSint | uintToFp
    | sintToFp | fpRound | fpExtend => exact Nat.le_of_eq (translateCastOp_idx (ok_eq_some h)).symm
  case rotl => exact Nat.le_of_eq (translateRotl_idx (ok_eq_some h)).symm
  case smulLohi | umulLohi => rw [translateMulLoHi_idx (ok_eq_some h)]; exact Nat.le_succ _
  case load => exact Nat.le_of_eq (translateLoad_idx (ok_eq_some h)).symm
  case store => exact Nat.le_of_eq (translateStore_idx (ok_eq_some h)).symm
  case target => exact runBoolHook_idx_le h
  case endOfInstruction | other => cases h; exact le_rfl
  case trap => cases ok_eq_some h; exact le_rfl
  case predicate =>
    obtain ⟨⟨p, s2⟩, h2, h⟩ := Option.bind_eq_some.mp h
    rw [translatePredicate_idx h, next_idx h2]
    exact Nat.le_succ _
  all_goals simp only [ok, Option.map_eq_some', Option.bind_eq_bind, Option.bind_eq_some, pure,
    Option.some.injEq, Prod.mk.injEq] at h
  case fsqrt =>
    obtain ⟨_, ⟨⟨_, s2⟩, h2, rfl⟩, -, rfl⟩ := h
    simp [getNextOperand_idx h2]
  case bswap =>
    obtain ⟨_, ⟨_, -, ⟨_, s2⟩, h2, rfl⟩, -, rfl⟩ := h
    simp [getNextOperand_idx h2]
  case insertVectorElt =>
    obtain ⟨_, ⟨⟨_, s2⟩, h2, ⟨_, s3⟩, h3, ⟨_, s4⟩, h4, rfl⟩, -, rfl⟩ := h
    simp [getNextOperand_idx h2, getNextOperand_idx h3, getNextOperand_idx h4]
  case extractVectorElt =>
    obtain ⟨_, ⟨⟨_, s2⟩, h2, ⟨_, s3⟩, h3, rfl⟩, -, rfl⟩ := h
    simp [getNextOperand_idx h2, getNextOperand_idx h3]
  case brind =>
    obtain ⟨_, ⟨⟨_, s2⟩, h2, s3, h3, rfl⟩, -, rfl⟩ := h
    simp [getNextOperand_idx h2, insertCall_idx h3]
  case br =>
    obtain ⟨_, ⟨⟨_, s2⟩, h2, _, -, rfl⟩, -, rfl⟩ := h
    simp [getNextOperand_idx h2]
  case putRC =>
    obtain ⟨_, ⟨⟨_, s2⟩, h2, _, -, ⟨_, s3⟩, h3, h4⟩, -, rfl⟩ := h
    simp [putRC_idx h4, getNextOperand_idx h3, next_idx h2]
  case putReg =>
    obtain ⟨_, ⟨⟨_, s2⟩, h2, ⟨_, s3⟩, h3, rfl⟩, -, rfl⟩ := h
    simp [getNextOperand_idx h3, next_idx h2]
  case getRC =>
    obtain ⟨_, ⟨⟨_, s2⟩, h2, _, -, _, -, rfl⟩, -, rfl⟩ := h
    simp [next_idx h2]
  case getReg =>
    obtain ⟨_, ⟨⟨_, s2⟩, h2, rfl⟩, -, rfl⟩ := h
    simp [next_idx h2]
  case constantOp =>
    obtain ⟨_, ⟨⟨_, s2⟩, h2, _, -, _, -, _, -, rfl⟩, -, rfl⟩ := h
    simp [next_idx h2]
  case movConstant =>
    obtain ⟨_, ⟨⟨_, s2⟩, h2, h⟩, -, rfl⟩ := h
    split at h <;> simp only [Option.bind_eq_some, Option.some.injEq] at h <;>
      obtain ⟨_, -, _, -, rfl⟩ := h <;> simp [next_idx h2]
  case atomicFence =>
    obtain ⟨_, ⟨⟨_, s2⟩, h2, _, -, ⟨_, s3⟩, h3, _, -, _, -, _, -, rfl⟩, -, rfl⟩ := h
    simp [getNextOperand_idx h2, getNextOperand_idx h3]
  case implicit =>
    obtain ⟨⟨_, s2⟩, h2, ⟨_, s3⟩, h3, -, rfl⟩ := h
    have := runHook_idx_le h3
    rw [next_idx h2] at this
    exact Nat.le_of_succ_le this
  case customOp =>
    obtain ⟨⟨_, s2⟩, h2, ⟨_, s3⟩, h3, ⟨_, s4⟩, h4, h⟩ := h
    have h₄ := runHook_idx_le h4
    rw [next_idx h3, next_idx h2] at h₄
    split at h <;> obtain ⟨-, rfl⟩ := h <;> dsimp only [registerResult_idx] at h₄ ⊢ <;> omega
  case complexPattern =>
    obtain ⟨⟨_, s2⟩, h2, ⟨_, s3⟩, h3, h⟩ := h
    have h₃ := runHook_idx_le h3
    rw [next_idx h2] at h₃
    split at h <;> obtain ⟨-, rfl⟩ := h <;> dsimp only [registerResult_idx] at h₃ ⊢ <;> omega

/-! ## The loop -/

/-- A read at or past the end of the tape fails. -/
theorem next_eq_none (h : cfg.tables.semanticsArray.length ≤ s.idx) : next cfg s = none := by
  simp only [next, List.get?_eq_none.mpr h, Option.map_none']

/-- **The loop's fuel never cuts the tape short.** Every round reads its opcode and
no opcode moves the tape back, so once the fuel covers the tokens left after
`idx`, the loop has stopped or failed by the time the fuel runs out, and more fuel
gives the same result: the model's loop is the C++ loop, which has no bound. -/
theorem translateLoop_fuel_add {fuel : Nat} (h : cfg.tables.semanticsArray.length ≤ s.idx + fuel) (k : Nat) :
    translateLoop cfg (fuel + k) s = translateLoop cfg fuel s := by
  induction fuel generalizing s with
  | zero =>
    cases k with
    | zero => rfl
    | succ k => simp [translateLoop, next_eq_none h]
  | succ fuel ih =>
    rw [Nat.succ_add, translateLoop, translateLoop]
    cases h1 : next cfg s with
    | none => rfl
    | some p =>
      obtain ⟨op, s1⟩ := p
      simp only [Option.bind_eq_bind, Option.some_bind]
      split
      · rfl
      · cases h2 : translateOpcode cfg op s1 with
        | none => rfl
        | some q =>
          obtain ⟨b, s2⟩ := q
          have := translateOpcode_idx_lt h2
          have := next_idx h1
          simp only [Option.some_bind, ih (s := s2) (by omega)]
/-- The addition's tape from position 7 has five tokens left: five rounds are as
good as seven. -/
theorem translateLoop_fuel_add_addState :
    addCfg.tables.semanticsArray.length ≤ addState.idx + 5 ∧
      translateLoop addCfg (5 + 2) addState = translateLoop addCfg 5 addState :=
  ⟨by decide, translateLoop_fuel_add (by decide) 2⟩

end Dagger
