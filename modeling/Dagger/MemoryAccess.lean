import Dagger.Translate
import Dagger.Values
import Mathlib.Data.Option.Basic

/-!
# Memory accesses

The core translates a machine memory access in three places: the `ISD::LOAD` and
`ISD::STORE` cases of `translateOpcode`, the load and store predicates of
`translatePredicate`, and the extending-load predicates, which go through
`translateExtLoad`. Each turns the address operand into a pointer (`inttoptr`
from an integer, `bitcast` from a pointer of another type) and accesses memory
through it. Machine addresses need not be aligned, and the plain paths say so
with `align 1`.

* `translatePredicate_load`, `translatePredicate_store`: the load and store
  predicates are the `ISD::LOAD` and `ISD::STORE` cases, state for state;
* `loadThenExtend`: an extending load as `ISD::LOAD` at the memory type followed
  by `ZERO_EXTEND` or `SIGN_EXTEND` to the result type, built from the core's own
  cases;
* `memoryAccess_paths`: for an integer or pointer address, `translateExtLoad`
  computes exactly that, but for one thing: its load is built by `CreateLoad`,
  whose alignment is the ABI default (`0`), not `1`; so the two never agree.
-/

namespace Dagger

/-! ## The builder and the result type

The builder never reads or writes `ResEVT`; a load that the opcode cases build
at one result type is the load they build at another. -/

namespace Builder

variable (s : DCFunction) (e : EVT) (w : List Value)

theorem create_resEVT (v : Value) : create { s with resEVT := e, vals := w } v =
    ((create { s with vals := w } v).1, { (create { s with vals := w } v).2 with resEVT := e }) := by
  unfold create; split <;> rfl

theorem createCast_resEVT (op v t) : createCast { s with resEVT := e, vals := w } op v t =
    ((createCast { s with vals := w } op v t).1, { (createCast { s with vals := w } op v t).2 with resEVT := e }) := by
  unfold createCast; split
  · rfl
  · exact create_resEVT s e w _

theorem createBitOrPointerCast_resEVT (v t) : createBitOrPointerCast { s with resEVT := e, vals := w } v t =
    ((createBitOrPointerCast { s with vals := w } v t).1,
      { (createBitOrPointerCast { s with vals := w } v t).2 with resEVT := e }) := by
  unfold createBitOrPointerCast; split_ifs <;> first | rfl | exact createCast_resEVT s e w _ _ _

theorem createLoad_resEVT (t q a) : createLoad { s with resEVT := e } t q a =
    ((createLoad s t q a).1, { (createLoad s t q a).2 with resEVT := e }) := rfl

@[simp] theorem create_snd_resEVT (v : Value) : (create s v).2.resEVT = s.resEVT := by
  unfold create; split <;> rfl

@[simp] theorem createCast_snd_resEVT (op v t) : (createCast s op v t).2.resEVT = s.resEVT := by
  unfold createCast; split <;> simp

@[simp] theorem createBitOrPointerCast_snd_resEVT (v t) :
    (createBitOrPointerCast s v t).2.resEVT = s.resEVT := by
  unfold createBitOrPointerCast; split_ifs <;> simp

@[simp] theorem createBitOrPointerCast_fst_ty (v t) : (createBitOrPointerCast s v t).1.ty = t := by
  unfold createBitOrPointerCast; split_ifs <;> simp_all

/-- On an integer or a pointer, `CreateBitOrPointerCast` to a pointer type is
the `inttoptr`-or-`bitcast` choice the `ISD::LOAD` and `ISD::STORE` cases make. -/
theorem createBitOrPointerCast_ptr {p : Value} (t : Ty) (hp : p.ty.isIntegerTy ∨ p.ty.isPointerTy) :
    createBitOrPointerCast s p (.ptr t) =
      if !p.ty.isPointerTy then createCast s .intToPtr p (.ptr t)
      else if p.ty != .ptr t then createCast s .bitCast p (.ptr t) else (p, s) := by
  unfold createBitOrPointerCast
  rcases hp with hp | hp <;> cases hty : p.ty <;> simp_all [Ty.isIntegerTy, Ty.isPointerTy]

/-- A load is no constant, so a cast of it is never folded. -/
theorem createCast_load_fst (op t q a t') :
    (createCast s op (.load t q a) t').1 = if t = t' then .load t q a else .cast op (.load t q a) t' := by
  show (if t = t' then _ else create s _).1 = _
  split_ifs <;> rfl

end Builder

theorem DCFunction.with_resEVT_eq {x : DCFunction} {e : EVT} (h : x.resEVT = e) :
    { x with resEVT := e } = x := by
  subst h; rfl

/-- `ZERO_EXTEND` and the other cast cases, on the value just registered: the
cast of that value, registered in its place. -/
theorem translateCastOp_registerResult (op : CastOps) (x : DCFunction) (v : Value) :
    translateCastOp op (registerResult x v) =
      (resType x).map fun t => registerResult (Builder.createCast x op v t).2 (Builder.createCast x op v t).1 := by
  cases h : resType x <;> simp only [translateCastOp, resType, registerResult] at h ⊢ <;> simp [h, getNextOperand]

/-! ## The predicates -/

/-- The predicates `translatePredicate` translates as a plain load. -/
def Predicate.isLoad : Predicate → Bool
  | .memop | .loadi16 | .loadi32 | .alignedload | .alignedload256 | .alignedload512 | .load => true
  | _ => false

/-- The predicates `translatePredicate` translates as a plain store. -/
def Predicate.isStore : Predicate → Bool
  | .alignednontemporalstore | .nontemporalstore | .alignedstore | .alignedstore256
  | .alignedstore512 | .store => true
  | _ => false

/-- The extending-load predicates, with the memory type and whether the value is
sign-extended. -/
def Predicate.extLoad : Predicate → Option (Ty × Bool)
  | .zextloadi8 => some (.int 8, false)
  | .zextloadi16 => some (.int 16, false)
  | .sextloadi8 => some (.int 8, true)
  | .sextloadi16 => some (.int 16, true)
  | .sextloadi32 => some (.int 32, true)
  | _ => none

variable {cfg : Config} {p : Nat}

theorem translatePredicate_load (s : DCFunction) (hp : (cfg.tables.predicate p).isLoad) :
    translatePredicate cfg p s = ok (translateLoad s) := by
  rw [translatePredicate]
  cases h : cfg.tables.predicate p <;> simp only [h, Predicate.isLoad, Bool.false_eq_true] at hp <;> rfl

theorem translatePredicate_store (s : DCFunction) (hp : (cfg.tables.predicate p).isStore) :
    translatePredicate cfg p s = ok (translateStore s) := by
  rw [translatePredicate]
  cases h : cfg.tables.predicate p <;> simp only [h, Predicate.isStore, Bool.false_eq_true] at hp <;> rfl

theorem translatePredicate_extLoad (s : DCFunction) {memTy : Ty} {isSExt : Bool}
    (hp : (cfg.tables.predicate p).extLoad = some (memTy, isSExt)) :
    translatePredicate cfg p s = ok (translateExtLoad memTy isSExt s) := by
  rw [translatePredicate]
  cases h : cfg.tables.predicate p <;> simp only [h, Predicate.extLoad, reduceCtorEq] at hp <;>
    obtain ⟨rfl, rfl⟩ := Prod.mk.inj (Option.some.inj hp) <;> rfl

/-! ## The extending loads -/

/-- Modelled from the spec: an extending load as `ISD::LOAD` at the memory type
followed by `ZERO_EXTEND` or `SIGN_EXTEND` to the result type, each case run at
the value type the tape would give it. -/
def loadThenExtend (memTy : Ty) (isSExt : Bool) (s : DCFunction) : Option DCFunction := do
  let s₁ ← translateLoad { s with resEVT := .ty memTy }
  translateCastOp (if isSExt then .sext else .zext) { s₁ with resEVT := s.resEVT }

/-- **The memory-access paths.** The load and store predicates are the `ISD::LOAD`
and `ISD::STORE` cases, in every state. An extending-load predicate, on an
integer or pointer address `v`, casts `v` to a pointer to the memory type and
loads through it exactly as `ISD::LOAD` at the memory type does, then extends
exactly as `ZERO_EXTEND` or `SIGN_EXTEND` does; but its load has alignment `0`
(`CreateLoad`, the ABI alignment of the memory type) where `ISD::LOAD` has `1`,
so whenever there is a result type the two emit different IR. -/
theorem memoryAccess_paths (p : Nat) (s : DCFunction) :
    ((cfg.tables.predicate p).isLoad → translatePredicate cfg p s = ok (translateLoad s)) ∧
    ((cfg.tables.predicate p).isStore → translatePredicate cfg p s = ok (translateStore s)) ∧
    ∀ memTy isSExt, (cfg.tables.predicate p).extLoad = some (memTy, isSExt) →
    ∀ v vs, s.vals = v :: vs → v.ty.isIntegerTy ∨ v.ty.isPointerTy →
      let cast := Builder.createBitOrPointerCast { s with vals := vs } v (.ptr memTy)
      let load (align : Nat) := Builder.createLoad cast.2 memTy cast.1 align
      let extend (align : Nat) :=
        translateCastOp (if isSExt then .sext else .zext) (registerResult (load align).2 (load align).1)
      translatePredicate cfg p s = ok (extend 0) ∧ loadThenExtend memTy isSExt s = extend 1 ∧
        (resType s ≠ none → extend 0 ≠ extend 1) := by
  refine ⟨translatePredicate_load s, translatePredicate_store s, fun memTy isSExt hp v vs hv hty => ?_⟩
  intro cast load extend
  have he : ∀ a, (load a).2.resEVT = s.resEVT := fun a => by
    simp [load, cast, Builder.createLoad, DCFunction.insert, DCFunction.appendInst, DCFunction.modifyInsts]
  refine ⟨?_, ?_, fun hr heq => ?_⟩
  · rw [translatePredicate_extLoad s hp]
    simp only [translateExtLoad, getNextOperand, hv, Option.bind_eq_bind, Option.some_bind]
    rfl
  · have hl : translateLoad { s with resEVT := .ty memTy } =
        some { registerResult (load 1).2 (load 1).1 with resEVT := .ty memTy } := by
      simp only [translateLoad, getNextOperand, hv, resType, EVT.getTypeForEVT, Option.bind_eq_bind,
        Option.some_bind]
      rw [← Builder.createBitOrPointerCast_ptr _ _ hty, Builder.createBitOrPointerCast_resEVT,
        Builder.createLoad_resEVT]
      simp only [Builder.createBitOrPointerCast_fst_ty, Ty.pointee]
      rfl
    simp only [loadThenExtend, hl, Option.bind_eq_bind, Option.some_bind, extend]
    congr 1
    exact DCFunction.with_resEVT_eq (he 1)
  · obtain ⟨resTy, hr⟩ := Option.ne_none_iff_exists'.mp hr
    have hx : ∀ a, resType (load a).2 = some resTy := fun a => by
      rw [← hr]; exact congrArg EVT.getTypeForEVT (he a)
    have := congrArg (Option.map fun x => x.vals.head?) heq
    simp only [extend, translateCastOp_registerResult, hx, Option.map_some', registerResult_vals,
      List.head?_cons, Option.some.injEq] at this
    simp only [load, Builder.createLoad, Builder.createCast_load_fst] at this
    split_ifs at this <;> simp at this

/-- A target whose predicate `0` is `sextloadi16`. -/
def sextCfg : Config :=
  ⟨⟨fun _ => noSemantics, [], fun _ => 0, fun _ => .other, fun _ => .invalid,
      fun p => if p = 0 then .sextloadi16 else .other⟩,
    ⟨0, fun _ => .int 64⟩, ⟨false, false, false⟩, .declineAll, .silent⟩

/-- A 16-bit load, sign-extended to `i32`, from the address in register 1, an `i64`. -/
def sextState : DCFunction :=
  { DCFunction.empty with vals := [.reg 1 (.int 64) 0], resEVT := .ty (.int 32) }

/-- `sextloadi16` from an `i64` address emits `inttoptr`, a load of alignment `0`
and the `sext`; `ISD::LOAD` at `i16` followed by `SIGN_EXTEND` emits something
else. -/
theorem memoryAccess_paths_sextloadi16 :
    (translatePredicate sextCfg 0 sextState).map (·.2.trace) = some
      [.insert 0 (.instr (.val (.cast .intToPtr (.reg 1 (.int 64) 0) (.ptr (.int 16))))),
        .insert 0 (.instr (.val (.load (.int 16) (.cast .intToPtr (.reg 1 (.int 64) 0) (.ptr (.int 16))) 0))),
        .insert 0 (.instr (.val (.cast .sext
          (.load (.int 16) (.cast .intToPtr (.reg 1 (.int 64) 0) (.ptr (.int 16))) 0) (.int 32))))] ∧
      translatePredicate sextCfg 0 sextState ≠ ok (loadThenExtend (.int 16) true sextState) := by
  refine ⟨by decide, ?_⟩
  obtain ⟨-, -, h⟩ := @memoryAccess_paths sextCfg 0 sextState
  obtain ⟨h0, h1, hne⟩ := h (.int 16) true rfl _ [] rfl (.inl rfl)
  rw [h0, h1]
  exact fun e => hne (by decide) (Option.map_injective (fun _ _ e => (Prod.mk.inj e).2) e)

end Dagger
