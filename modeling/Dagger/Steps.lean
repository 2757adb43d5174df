import Dagger.Run
import Mathlib.Logic.Relation

/-!
# What translating an instruction can do

Translating one instruction runs target hooks and up to fifty opcode cases, but
all of it is made of a handful of primitive moves (`Prim`):

* the builder appends a non-terminator (never a call of the register-set diff
  function) at its insertion point, or the undef path's `call @llvm.trap();
  unreachable` there;
* the register semantics appends a non-terminator to its current block;
* bookkeeping: the tape cursor, the value stack, the result type, the current
  instruction, the register cache, and register reads and writes;
* a branch to the block of an address, creating its placeholder if needed;
* a branch to the exit block;
* a call block, `insertCallBB`.

`translateInst_prims` shows once that `translateInst`, after notifying the
register semantics with `SwitchToInst`, is a chain of such moves; every invariant
of the block structure is then proved against the moves alone, and never
unfolds the interpreter again.
-/

namespace Dagger

/-- The fields that bookkeeping leaves alone. -/
structure Shape where
  blocks : Nat → BasicBlock
  numBlocks : Nat
  bbByAddr : UInt64 → Option Nat
  exitBB : Nat
  callBBs : List Nat
  theBB : Option Nat
  insertPt : Nat
  rsiBB : Nat
  opened : List UInt64
  tailCalls : List Nat

/-- The shape of a state. -/
def DCFunction.shape (s : DCFunction) : Shape :=
  ⟨s.blocks, s.numBlocks, s.bbByAddr, s.exitBB, s.callBBs, s.theBB, s.insertPt, s.rsiBB, s.opened,
    s.tailCalls⟩

/-- One primitive move of instruction translation. -/
inductive Prim (cfg : Config) : DCFunction → DCFunction → Prop
  | emit {s : DCFunction} (i : Instr) : i.callsRegSetDiff = false → Prim cfg s (s.insert (.instr i))
  | undef {s : DCFunction} :
      Prim cfg s (Builder.createUnreachable (Builder.createCallVoid s (.intrinsic .trap) []))
  | rsiEmit {s : DCFunction} (i : Instr) : i.callsRegSetDiff = false →
      Prim cfg s (s.appendInst s.rsiBB (.instr i))
  | quiet {s s' : DCFunction} : s'.shape = s.shape → s'.regVals = s.regVals → s'.trace = s.trace →
      Prim cfg s s'
  | getReg {s : DCFunction} (r : Nat) :
      Prim cfg s (s.log (.getReg r ((s.regVals r).getD (.reg r (cfg.regs.regType r) s.rsiBB))))
  | setReg {s : DCFunction} (r : Nat) (v : Value) :
      Prim cfg s { s.log (.setReg r v) with regVals := Function.update s.regVals r (some v) }
  | br {s : DCFunction} (a : UInt64) :
      Prim cfg s (Builder.createBr (getOrCreateBasicBlock a s).2 (getOrCreateBasicBlock a s).1)
  | brExit {s : DCFunction} : Prim cfg s (Builder.createBr s s.exitBB)
  | call {s s' : DCFunction} (t : Value) (cb : Nat) :
      (Instr.call t [.regSetArg]).callsRegSetDiff = false → insertCallBB t s = some (cb, s') →
      Prim cfg s s'

/-- Chains of primitive moves. -/
abbrev Prims (cfg : Config) := Relation.ReflTransGen (Prim cfg)

variable {cfg : Config} {s₀ s s' : DCFunction}

/-! ## The primitives, as steps appended to a chain -/

theorem Prims.quiet {s'} (h₀ : Prims cfg s₀ s) (hs : s'.shape = s.shape)
    (hr : s'.regVals = s.regVals) (ht : s'.trace = s.trace) : Prims cfg s₀ s' :=
  h₀.tail (.quiet hs hr ht)

theorem create_prims {v : Value} (hv : (Instr.val v).callsRegSetDiff = false) (h₀ : Prims cfg s₀ s) :
    Prims cfg s₀ (Builder.create s v).2 := by
  unfold Builder.create; split
  · exact h₀
  · exact h₀.tail (.emit _ hv)

theorem createBinOp_prims (op a b) (h₀ : Prims cfg s₀ s) : Prims cfg s₀ (Builder.createBinOp s op a b).2 :=
  create_prims rfl h₀

theorem createCast_prims (op v t) (h₀ : Prims cfg s₀ s) : Prims cfg s₀ (Builder.createCast s op v t).2 := by
  unfold Builder.createCast; split
  · exact h₀
  · exact create_prims rfl h₀

theorem createBitOrPointerCast_prims (v t) (h₀ : Prims cfg s₀ s) :
    Prims cfg s₀ (Builder.createBitOrPointerCast s v t).2 := by
  unfold Builder.createBitOrPointerCast
  split_ifs <;> first | exact h₀ | exact createCast_prims _ _ _ h₀

theorem createCall_prims (id arg t) (h₀ : Prims cfg s₀ s) :
    Prims cfg s₀ (Builder.createCall s (.intrinsic id) arg t).2 :=
  h₀.tail (.emit _ rfl)

theorem createCallVoid_prims (id args) (h₀ : Prims cfg s₀ s) :
    Prims cfg s₀ (Builder.createCallVoid s (.intrinsic id) args) :=
  h₀.tail (.emit _ rfl)

theorem createLoad_prims (t p a) (h₀ : Prims cfg s₀ s) : Prims cfg s₀ (Builder.createLoad s t p a).2 :=
  h₀.tail (.emit _ rfl)

theorem createStore_prims (v p a vol) (h₀ : Prims cfg s₀ s) :
    Prims cfg s₀ (Builder.createStore s v p a vol) :=
  h₀.tail (.emit _ rfl)

theorem createFence_prims (o sc) (h₀ : Prims cfg s₀ s) : Prims cfg s₀ (Builder.createFence s o sc) :=
  h₀.tail (.emit _ rfl)

theorem undef_prims (h₀ : Prims cfg s₀ s) :
    Prims cfg s₀ (Builder.createUnreachable (Builder.createCallVoid s (.intrinsic .trap) [])) :=
  h₀.tail .undef

theorem registerResult_prims (v) (h₀ : Prims cfg s₀ s) : Prims cfg s₀ (registerResult s v) :=
  h₀.quiet rfl rfl rfl

/-- The register semantics' own code is a chain of its appends. -/
theorem emit_prims {code : List Instr} (hc : ∀ x ∈ code, x.callsRegSetDiff = false)
    (h₀ : Prims cfg s₀ s) : Prims cfg s₀ (DRS.emit s code) := by
  induction code generalizing s with
  | nil => simpa using h₀
  | cons i code ih =>
    rw [DRS.emit_cons]
    exact ih (fun x hx => hc x (List.mem_cons_of_mem i hx))
      (h₀.tail (.rsiEmit i (hc i (List.mem_cons_self i code))))

theorem getReg_prims (r) (h₀ : Prims cfg s₀ s) : Prims cfg s₀ (DRS.getReg cfg s r).2 :=
  emit_prims (cfg.rsi.getReg_plain _ _) (h₀.tail (.getReg r))

theorem setReg_prims (r v) (h₀ : Prims cfg s₀ s) : Prims cfg s₀ (DRS.setReg cfg s r v) :=
  emit_prims (cfg.rsi.setReg_plain _ _) (h₀.tail (.setReg r v))

/-- After its `SwitchToInst` notification, the register semantics' code for the
instruction. -/
theorem switchToInst_prims (i : MCDecodedInst) :
    Prims cfg (s.log (.switchToInst i.address)) (DRS.switchToInst cfg s i) :=
  emit_prims (cfg.rsi.switchToInst_plain i) .refl

theorem drsCreate_prims {v : Value} (hv : (Instr.val v).callsRegSetDiff = false)
    (h₀ : Prims cfg s₀ s) : Prims cfg s₀ (DRS.create s v).2 := by
  unfold DRS.create; split
  · exact h₀
  · exact h₀.tail (.rsiEmit _ hv)

theorem ite_prims {c : Prop} [Decidable c] {p q : DCFunction}
    (hp : Prims cfg s₀ p) (hq : Prims cfg s₀ q) : Prims cfg s₀ (if c then p else q) := by
  split <;> assumption

theorem ite_snd_prims {c : Prop} [Decidable c] {α : Type} {p q : α × DCFunction}
    (hp : Prims cfg s₀ p.2) (hq : Prims cfg s₀ q.2) : Prims cfg s₀ (if c then p else q).2 := by
  rw [apply_ite Prod.snd]
  exact ite_prims hp hq

theorem getRegAsInt_prims (r) (h₀ : Prims cfg s₀ s) : Prims cfg s₀ (DRS.getRegAsInt cfg s r).2 := by
  unfold DRS.getRegAsInt
  exact ite_snd_prims (getReg_prims r h₀) (drsCreate_prims rfl (getReg_prims r h₀))

theorem insertBitsInValue_prims (w p) (h₀ : Prims cfg s₀ s) :
    Prims cfg s₀ (DRS.insertBitsInValue s w p).2 :=
  drsCreate_prims rfl h₀

theorem next_prims {t} (h₀ : Prims cfg s₀ s) (h : next cfg s = some (t, s')) : Prims cfg s₀ s' := by
  simp only [next, Option.map_eq_some', Prod.mk.injEq] at h
  obtain ⟨_, -, -, rfl⟩ := h
  exact h₀.quiet rfl rfl rfl

theorem nextVT_prims {t} (h₀ : Prims cfg s₀ s) (h : nextVT cfg s = some (t, s')) : Prims cfg s₀ s' := by
  simp only [nextVT, Option.map_eq_some', Prod.mk.injEq] at h
  obtain ⟨⟨_, _⟩, h, -, rfl⟩ := h
  exact next_prims h₀ h

theorem getNextOperand_prims {v} (h₀ : Prims cfg s₀ s) (h : getNextOperand s = some (v, s')) :
    Prims cfg s₀ s' := by
  unfold getNextOperand at h
  split at h
  · cases h; exact h₀.quiet rfl rfl rfl
  · cases h

/-- The callee `insertTranslateAt` computes is never the register-set diff function. -/
theorem insertTranslateAt_plain (v : Value) (s : DCFunction) :
    (Instr.call (insertTranslateAt v s).1 [.regSetArg]).callsRegSetDiff = false := by
  simp only [insertTranslateAt]
  rfl

theorem insertCall_prims {t} (h₀ : Prims cfg s₀ s) (h : insertCall t s = some s') : Prims cfg s₀ s' := by
  unfold insertCall at h
  split at h
  · split at h
    · simp only [Option.bind_eq_bind, Option.some_bind, Option.bind_eq_some, pure,
        Option.some.injEq] at h
      obtain ⟨⟨cb, _⟩, h, rfl⟩ := h
      exact h₀.tail (.call _ cb (by rfl) h)
    · simp at h
  · simp only [Option.bind_eq_bind, Option.some_bind, Option.bind_eq_some, pure,
      Option.some.injEq] at h
    obtain ⟨⟨cb, _⟩, h, rfl⟩ := h
    exact (createCast_prims _ _ _ (createCall_prims _ _ _ (createCast_prims _ _ _ h₀))).tail
      (.call _ cb (insertTranslateAt_plain _ _) h)

/-! ## The opcode cases -/

theorem translateBinOp_prims {opc} (h₀ : Prims cfg s₀ s) (h : translateBinOp opc s = some s') :
    Prims cfg s₀ s' := by
  simp only [translateBinOp, Option.bind_eq_bind, Option.bind_eq_some, pure, Option.some.injEq] at h
  obtain ⟨⟨v1, s1⟩, h1, ⟨v2, s2⟩, h2, rfl⟩ := h
  have h₂ := getNextOperand_prims (getNextOperand_prims h₀ h1) h2
  exact registerResult_prims _ (createBinOp_prims _ _ _ (ite_snd_prims (createCast_prims _ _ _ h₂) h₂))

theorem translateCastOp_prims {opc} (h₀ : Prims cfg s₀ s) (h : translateCastOp opc s = some s') :
    Prims cfg s₀ s' := by
  simp only [translateCastOp, Option.bind_eq_bind, Option.bind_eq_some, pure,
    Option.some.injEq] at h
  obtain ⟨t, -, ⟨v, s1⟩, h1, rfl⟩ := h
  exact registerResult_prims _ (createCast_prims _ _ _ (getNextOperand_prims h₀ h1))

theorem translateRotl_prims (h₀ : Prims cfg s₀ s) (h : translateRotl s = some s') : Prims cfg s₀ s' := by
  simp only [translateRotl, Option.bind_eq_bind, Option.bind_eq_some, pure, Option.some.injEq] at h
  obtain ⟨⟨lhs, s1⟩, h1, -, -, ⟨r, s2⟩, h2, c, -, rfl⟩ := h
  have h₂ := getNextOperand_prims (getNextOperand_prims h₀ h1) h2
  exact registerResult_prims _ (createBinOp_prims _ _ _ (createBinOp_prims _ _ _ (createBinOp_prims _ _ _
    (createBinOp_prims _ _ _ (createCast_prims _ _ _ h₂)))))

theorem translateMulLoHi_prims {ext} (h₀ : Prims cfg s₀ s) (h : translateMulLoHi cfg ext s = some s') :
    Prims cfg s₀ s' := by
  simp only [translateMulLoHi, Option.bind_eq_bind, Option.bind_eq_some, pure,
    Option.some.injEq] at h
  obtain ⟨⟨re2, s1⟩, h1, lo, -, hi, -, ⟨a, s2⟩, h2, ⟨b, s3⟩, h3, rfl⟩ := h
  have h₁ := nextVT_prims h₀ h1
  have h₂ := getNextOperand_prims h₁ h2
  have h₃ := getNextOperand_prims (createCast_prims _ _ _ h₂) h3
  exact registerResult_prims _ (createCast_prims _ _ _ (createBinOp_prims _ _ _ (registerResult_prims _
    (createCast_prims _ _ _ (createBinOp_prims _ _ _ (createCast_prims _ _ _ h₃))))))

theorem putRC_prims {r v} (h₀ : Prims cfg s₀ s) (h : putRC cfg r v s = some s') : Prims cfg s₀ s' := by
  simp only [putRC, Option.bind_eq_bind, Option.bind_eq_some, pure, Option.some.injEq] at h
  obtain ⟨-, -, rfl⟩ := h
  exact setReg_prims _ _ (ite_snd_prims (insertBitsInValue_prims _ _ (getRegAsInt_prims r
    (ite_snd_prims (createCast_prims _ _ _ (ite_snd_prims (createCast_prims _ _ _ h₀) h₀))
      (ite_snd_prims (createCast_prims _ _ _ h₀) h₀))))
    (ite_snd_prims (createCast_prims _ _ _ (ite_snd_prims (createCast_prims _ _ _ h₀) h₀))
      (ite_snd_prims (createCast_prims _ _ _ h₀) h₀)))

theorem getRC_prims (t r) (h₀ : Prims cfg s₀ s) : Prims cfg s₀ (getRC cfg t r s).2 := by
  exact ite_snd_prims (createCast_prims _ _ _ (ite_snd_prims (createCast_prims _ _ _
    (getRegAsInt_prims r h₀)) (getRegAsInt_prims r h₀))) (ite_snd_prims (createCast_prims _ _ _
    (getRegAsInt_prims r h₀)) (getRegAsInt_prims r h₀))

theorem translateExtLoad_prims {t b} (h₀ : Prims cfg s₀ s) (h : translateExtLoad t b s = some s') :
    Prims cfg s₀ s' := by
  simp only [translateExtLoad, Option.bind_eq_bind, Option.bind_eq_some, pure,
    Option.some.injEq] at h
  obtain ⟨⟨p, s1⟩, h1, t, -, rfl⟩ := h
  apply_rules [registerResult_prims, createCast_prims, createLoad_prims,
    createBitOrPointerCast_prims, getNextOperand_prims h₀ h1]

theorem ok_eq_some {o : Option DCFunction} {b : Bool} (h : ok o = some (b, s')) : o = some s' := by
  simp only [ok, Option.map_eq_some', Prod.mk.injEq] at h
  obtain ⟨_, h, -, rfl⟩ := h
  exact h

theorem translateLoad_prims (h₀ : Prims cfg s₀ s) (h : translateLoad s = some s') : Prims cfg s₀ s' := by
  simp only [translateLoad, Option.bind_eq_bind, Option.bind_eq_some, pure, Option.some.injEq] at h
  obtain ⟨t, -, ⟨p, s1⟩, h1, rfl⟩ := h
  have h₁ := getNextOperand_prims h₀ h1
  apply_rules [registerResult_prims, createLoad_prims, createCast_prims, ite_snd_prims]

theorem translateStore_prims (h₀ : Prims cfg s₀ s) (h : translateStore s = some s') : Prims cfg s₀ s' := by
  simp only [translateStore, Option.bind_eq_bind, Option.bind_eq_some, pure, Option.some.injEq] at h
  obtain ⟨⟨v, s1⟩, h1, ⟨p, s2⟩, h2, rfl⟩ := h
  have h₂ := getNextOperand_prims (getNextOperand_prims h₀ h1) h2
  apply_rules [createStore_prims, createCast_prims, ite_snd_prims]

theorem translatePredicate_prims {p b} (h₀ : Prims cfg s₀ s)
    (h : translatePredicate cfg p s = some (b, s')) : Prims cfg s₀ s' := by
  cases hp : cfg.tables.predicate p <;> simp only [translatePredicate, hp] at h
  case memop | loadi16 | loadi32 | alignedload | alignedload256 | alignedload512 | load =>
    exact translateLoad_prims h₀ (ok_eq_some h)
  case alignednontemporalstore | nontemporalstore | alignedstore | alignedstore256
    | alignedstore512 | store => exact translateStore_prims h₀ (ok_eq_some h)
  case zextloadi8 | zextloadi16 | sextloadi8 | sextloadi16 | sextloadi32 =>
    exact translateExtLoad_prims h₀ (ok_eq_some h)
  case andSu => exact translateBinOp_prims h₀ (ok_eq_some h)
  case other => cases h; exact h₀

/-! ## Hooks, opcodes, the loop and the instruction -/

theorem runHook_prims {k : Hook} {r} (h₀ : Prims cfg s₀ s) (h : runHook cfg k s = some (r, s')) :
    Prims cfg s₀ s' := by
  induction k generalizing s with
  | done => cases h; exact h₀
  | next k ih =>
    obtain ⟨⟨t, s1⟩, h1, h⟩ := Option.bind_eq_some.mp h
    exact ih t (next_prims h₀ h1) h
  | operand k ih =>
    obtain ⟨⟨v, s1⟩, h1, h⟩ := Option.bind_eq_some.mp h
    exact ih v (getNextOperand_prims h₀ h1) h
  | result v k ih => exact ih (registerResult_prims v h₀) h
  | getReg r k ih => exact ih _ (getReg_prims r h₀) h
  | setReg r v k ih => exact ih (setReg_prims r v h₀) h
  | emit i hi k ih => exact ih (h₀.tail (.emit i hi)) h
  | call t k ih =>
    obtain ⟨s1, h1, h⟩ := Option.bind_eq_some.mp h
    exact ih (insertCall_prims h₀ h1) h
  | br a k ih => exact ih (h₀.tail (.br a)) h
  | brExit k ih => exact ih (h₀.tail .brExit) h

theorem runBoolHook_prims {k : Hook} {b} (h₀ : Prims cfg s₀ s)
    (h : runBoolHook cfg k s = some (b, s')) : Prims cfg s₀ s' := by
  simp only [runBoolHook, Option.map_eq_some', Prod.mk.injEq] at h
  obtain ⟨⟨r, s1⟩, h1, -, rfl⟩ := h
  exact runHook_prims h₀ h1

theorem translateOpcode_prims {op b} (h₀ : Prims cfg s₀ s)
    (h : translateOpcode cfg op s = some (b, s')) : Prims cfg s₀ s' := by
  rw [translateOpcode, Option.bind_eq_bind, Option.bind_eq_some] at h
  obtain ⟨⟨vt, s1⟩, h1, h⟩ := h
  dsimp only at h
  rw [Option.bind_eq_bind, Option.bind_eq_some] at h
  obtain ⟨inst, -, h⟩ := h
  have h₁ : Prims cfg s₀ { s1 with resEVT := vt } := (nextVT_prims h₀ h1).quiet rfl rfl rfl
  cases hop : cfg.tables.opcode op <;> simp only [hop] at h
  case add | fadd | sub | fsub | mul | fmul | udiv | sdiv | fdiv | urem | srem | frem | shl
    | srl | sra | and | or | xor => exact translateBinOp_prims h₁ (ok_eq_some h)
  case truncate | bitcast | zeroExtend | signExtend | fpToUint | fpToSint | uintToFp
    | sintToFp | fpRound | fpExtend => exact translateCastOp_prims h₁ (ok_eq_some h)
  case rotl => exact translateRotl_prims h₁ (ok_eq_some h)
  case smulLohi | umulLohi => exact translateMulLoHi_prims h₁ (ok_eq_some h)
  case load => exact translateLoad_prims h₁ (ok_eq_some h)
  case store => exact translateStore_prims h₁ (ok_eq_some h)
  case target => exact runBoolHook_prims h₁ h
  case endOfInstruction | other => cases h; exact h₁
  case trap => cases ok_eq_some h; exact createCallVoid_prims _ _ h₁
  case predicate =>
    obtain ⟨⟨p, s2⟩, h2, h⟩ := Option.bind_eq_some.mp h
    exact translatePredicate_prims (next_prims h₁ h2) h
  all_goals simp only [ok, Option.map_eq_some', Option.bind_eq_bind, Option.bind_eq_some, pure,
    Option.some.injEq, Prod.mk.injEq] at h
  case fsqrt =>
    obtain ⟨_, ⟨⟨v, s2⟩, h2, rfl⟩, -, rfl⟩ := h
    exact registerResult_prims _ (createCall_prims _ _ _ (getNextOperand_prims h₁ h2))
  case bswap =>
    obtain ⟨_, ⟨t, -, ⟨v, s2⟩, h2, rfl⟩, -, rfl⟩ := h
    exact registerResult_prims _ (createCall_prims _ _ _ (getNextOperand_prims h₁ h2))
  case insertVectorElt =>
    obtain ⟨_, ⟨⟨_, s2⟩, h2, ⟨_, s3⟩, h3, ⟨_, s4⟩, h4, rfl⟩, -, rfl⟩ := h
    exact registerResult_prims _ (create_prims rfl
      (getNextOperand_prims (getNextOperand_prims (getNextOperand_prims h₁ h2) h3) h4))
  case extractVectorElt =>
    obtain ⟨_, ⟨⟨_, s2⟩, h2, ⟨_, s3⟩, h3, rfl⟩, -, rfl⟩ := h
    exact registerResult_prims _ (create_prims rfl
      (getNextOperand_prims (getNextOperand_prims h₁ h2) h3))
  case brind =>
    obtain ⟨_, ⟨⟨_, s2⟩, h2, s3, h3, rfl⟩, -, rfl⟩ := h
    exact (insertCall_prims (setReg_prims _ _ (getNextOperand_prims h₁ h2)) h3).tail .brExit
  case br =>
    obtain ⟨_, ⟨⟨_, s2⟩, h2, t, -, rfl⟩, -, rfl⟩ := h
    exact (setReg_prims _ _ (getNextOperand_prims h₁ h2)).tail (.br _)
  case putRC =>
    obtain ⟨_, ⟨⟨_, s2⟩, h2, r, -, ⟨_, s3⟩, h3, h4⟩, -, rfl⟩ := h
    exact putRC_prims (getNextOperand_prims (next_prims h₁ h2) h3) h4
  case putReg =>
    obtain ⟨_, ⟨⟨_, s2⟩, h2, ⟨_, s3⟩, h3, rfl⟩, -, rfl⟩ := h
    exact setReg_prims _ _ (getNextOperand_prims (next_prims h₁ h2) h3)
  case getRC =>
    obtain ⟨_, ⟨⟨_, s2⟩, h2, t, -, r, -, rfl⟩, -, rfl⟩ := h
    exact registerResult_prims _ (getRC_prims _ _ (next_prims h₁ h2))
  case getReg =>
    obtain ⟨_, ⟨⟨_, s2⟩, h2, rfl⟩, -, rfl⟩ := h
    exact registerResult_prims _ (getReg_prims _ (next_prims h₁ h2))
  case constantOp =>
    obtain ⟨_, ⟨⟨_, s2⟩, h2, t, -, w, -, i, -, rfl⟩, -, rfl⟩ := h
    exact registerResult_prims _ (next_prims h₁ h2)
  case movConstant =>
    obtain ⟨_, ⟨⟨_, s2⟩, h2, h⟩, -, rfl⟩ := h
    split at h <;> simp only [Option.bind_eq_some, Option.some.injEq] at h <;>
      obtain ⟨_, -, _, -, rfl⟩ := h <;> exact registerResult_prims _ (next_prims h₁ h2)
  case atomicFence =>
    obtain ⟨_, ⟨⟨_, s2⟩, h2, o, -, ⟨_, s3⟩, h3, sc, -, _, -, _, -, rfl⟩, -, rfl⟩ := h
    exact createFence_prims _ _ (getNextOperand_prims (getNextOperand_prims h₁ h2) h3)
  case implicit =>
    obtain ⟨⟨_, s2⟩, h2, ⟨_, s3⟩, h3, -, rfl⟩ := h
    exact runHook_prims (next_prims h₁ h2) h3
  case customOp =>
    obtain ⟨⟨_, s2⟩, h2, ⟨_, s3⟩, h3, ⟨r, s4⟩, h4, h⟩ := h
    have h₄ := runHook_prims (next_prims (next_prims h₁ h2) h3) h4
    split at h <;> obtain ⟨-, rfl⟩ := h
    exacts [registerResult_prims _ h₄, h₄]
  case complexPattern =>
    obtain ⟨⟨_, s2⟩, h2, ⟨r, s3⟩, h3, h⟩ := h
    have h₃ := runHook_prims (next_prims h₁ h2) h3
    split at h <;> obtain ⟨-, rfl⟩ := h
    exacts [registerResult_prims _ h₃, h₃]

theorem translateLoop_prims {n b} (h₀ : Prims cfg s₀ s) (h : translateLoop cfg n s = some (b, s')) :
    Prims cfg s₀ s' := by
  induction n generalizing s with
  | zero => cases h
  | succ n ih =>
    simp only [translateLoop, Option.bind_eq_bind, Option.bind_eq_some] at h
    obtain ⟨⟨_, s1⟩, h1, h⟩ := h
    have h₁ := next_prims h₀ h1
    split at h
    · cases h; exact h₁
    · obtain ⟨⟨_, s2⟩, h2, h⟩ := Option.bind_eq_some.mp h
      have h₂ := translateOpcode_prims h₁ h2
      split at h
      · exact ih h₂ h
      · cases h; exact h₂

theorem tryTranslateInst_prims {b} (h₀ : Prims cfg s₀ s) (h : tryTranslateInst cfg s = some (b, s')) :
    Prims cfg s₀ s' := by
  simp only [tryTranslateInst, Option.bind_eq_bind, Option.bind_eq_some] at h
  obtain ⟨_, -, ⟨_, s1⟩, h1, h⟩ := h
  have h₁ := runBoolHook_prims h₀ h1
  split at h
  · cases h; exact h₁
  · split at h
    · cases h; exact h₁.quiet rfl rfl rfl
    · obtain ⟨_, -, h⟩ := Option.bind_eq_some.mp h
      refine translateLoop_prims ?_ h
      exact setReg_prims _ _ (createBinOp_prims _ _ _ (getReg_prims _ (h₁.quiet rfl rfl rfl)))

/-- **Translating an instruction is a chain of primitive moves**, once the
register semantics has been told which instruction it is. -/
theorem translateInst_prims {i b} (h : translateInst cfg i s = some (b, s')) :
    Prims cfg (DRS.switchToInst cfg { s with currentInst := some i } i) s' := by
  simp only [translateInst, Option.bind_eq_bind, Option.bind_eq_some] at h
  obtain ⟨⟨_, s1⟩, h1, h⟩ := h
  have h₁ := tryTranslateInst_prims (ite_prims (createStore_prims _ _ _ _ .refl) .refl) h1
  obtain ⟨-, rfl⟩ := Prod.mk.inj (Option.some.inj h)
  exact (ite_snd_prims (undef_prims h₁) h₁).quiet rfl rfl rfl

end Dagger
