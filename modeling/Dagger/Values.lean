import Dagger.State

/-!
# What the builder's values compute

The builder folds constants, and a cast to a value's own type builds nothing. Both
are invisible to `Value.eval`: whatever `Builder.create` returns computes what
the value asked for, has its type, and leaves the value stack alone. The lemmas
here say so once for each builder call, so that results about an opcode's IR
read the operations off the C++ and never look at how the builder stored them:

* `create`, `createBinOp`: the returned value computes the requested operation;
* `createCast`: a bit-preserving cast computes the cast even when the builder
  returned the operand itself, since the cast is then the identity on its bits;
* the register semantics' own `create`, `getRegAsInt` and `insertBitsInValue`, and
  its cache: the builder leaves it alone, and a register written in the current
  block reads back as written.
-/

namespace Dagger

theorem Value.ty_fold (v : Value) : v.fold.ty = v.ty := by
  unfold Value.fold
  split
  · split
    · rename_i h; simp_all
    · rfl
  · rfl

theorem ofSigned_toSigned {w n : Nat} (h : n < 2 ^ w) : ofSigned w (toSigned w n) = n := by
  have h' : (n : Int) % 2 ^ w = n := Int.emod_eq_of_lt (by omega) (by exact_mod_cast h)
  unfold toSigned ofSigned
  split_ifs <;> simp [Int.emod_sub_cancel, h']

/-- A bit-level cast to the same width changes no bits. -/
theorem evalCast_self (op : CastOps) {w a : Nat} (h : a < 2 ^ w) : evalCast op w w a = a := by
  unfold evalCast
  split
  · exact ofSigned_toSigned h
  · exact Nat.mod_eq_of_lt h

theorem evalCast_trunc (w w' : Nat) : evalCast .trunc w w' = (· % 2 ^ w') := rfl

theorem Ty.isIntegerTy_iff (t : Ty) : t.isIntegerTy ↔ ∃ w, t = .int w := by
  cases t <;> simp [Ty.isIntegerTy]

theorem Ty.width_of_not_ptr {t : Ty} (h : t.isPointerTy = false) :
    t.width = t.primitiveSizeInBits := by
  cases t <;> simp_all [Ty.width, Ty.isPointerTy]

/-- A bit-preserving cast between types of the same width computes the value. -/
theorem Value.eval_cast_of_width (ρ : Value → Option Nat) {op : CastOps} (hop : op.isBits)
    (v : Value) (t : Ty) (hw : t.width = v.ty.width) : (Value.cast op v t).eval ρ = v.eval ρ := by
  simp only [eval, hop, if_true, hw]
  cases hv : v.eval ρ with
  | none => rfl
  | some a => exact congrArg some (evalCast_self op (Value.eval_lt ρ hv))

/-- Reducing a value's bits to its width changes nothing. -/
@[simp] theorem Value.eval_map_mod (ρ : Value → Option Nat) (v : Value) :
    (v.eval ρ).map (· % 2 ^ v.ty.width) = v.eval ρ := by
  cases h : v.eval ρ with
  | none => rfl
  | some a => exact congrArg some (Nat.mod_eq_of_lt (Value.eval_lt ρ h))

theorem Value.eval_insertBits (ρ : Value → Option Nat) (w p : Value) :
    (Value.insertBits w p).eval ρ = (w.eval ρ).bind fun x => (p.eval ρ).map fun y =>
      (x / 2 ^ p.ty.width * 2 ^ p.ty.width + y) % 2 ^ w.ty.width := rfl

namespace Builder

variable (ρ : Value → Option Nat) (s : DCFunction)

@[simp] theorem create_fst_eval (v : Value) : (create s v).1.eval ρ = v.eval ρ := by
  unfold create; split
  · exact Value.eval_fold ρ v
  · rfl

@[simp] theorem create_fst_ty (v : Value) : (create s v).1.ty = v.ty := by
  unfold create; split
  · exact Value.ty_fold v
  · rfl

@[simp] theorem create_snd_vals (v : Value) : (create s v).2.vals = s.vals := by
  unfold create; split <;> rfl

@[simp] theorem createBinOp_fst_eval (op a b) :
    (createBinOp s op a b).1.eval ρ = (Value.binOp op a b).eval ρ :=
  create_fst_eval ρ s _

@[simp] theorem createBinOp_fst_ty (op a b) : (createBinOp s op a b).1.ty = a.ty :=
  create_fst_ty s _

@[simp] theorem createBinOp_snd_vals (op a b) : (createBinOp s op a b).2.vals = s.vals :=
  create_snd_vals s _

@[simp] theorem createCast_fst_ty (op v t) : (createCast s op v t).1.ty = t := by
  unfold createCast; split
  · assumption
  · simp

@[simp] theorem createCast_snd_vals (op v t) : (createCast s op v t).2.vals = s.vals := by
  unfold createCast; split
  · rfl
  · simp

/-- **A bit-preserving cast computes the cast**, whether or not the builder built it. -/
@[simp] theorem createCast_fst_eval {op : CastOps} (hop : op.isBits) (v t) :
    (createCast s op v t).1.eval ρ = (Value.cast op v t).eval ρ := by
  unfold createCast; split
  · rename_i h; subst h; exact (Value.eval_cast_of_width ρ hop v _ rfl).symm
  · simp

theorem createCast_fst_eval_of_width {op : CastOps} (hop : op.isBits) (v : Value) (t : Ty)
    (hw : t.width = v.ty.width) : (createCast s op v t).1.eval ρ = v.eval ρ := by
  rw [createCast_fst_eval ρ s hop, Value.eval_cast_of_width ρ hop v t hw]

/-! The builder leaves the register semantics' cache alone. -/

@[simp] theorem create_snd_regVals (v : Value) : (create s v).2.regVals = s.regVals := by
  unfold create; split <;> rfl

@[simp] theorem create_snd_rsiBB (v : Value) : (create s v).2.rsiBB = s.rsiBB := by
  unfold create; split <;> rfl

@[simp] theorem createCast_snd_regVals (op v t) : (createCast s op v t).2.regVals = s.regVals := by
  unfold createCast; split <;> simp

@[simp] theorem createCast_snd_rsiBB (op v t) : (createCast s op v t).2.rsiBB = s.rsiBB := by
  unfold createCast; split <;> simp

end Builder

@[simp] theorem registerResult_vals (s : DCFunction) (v : Value) :
    (registerResult s v).vals = v :: s.vals := rfl

/-! ## The register semantics' values -/

namespace DRS

variable (cfg : Config) (ρ : Value → Option Nat) (s : DCFunction)

@[simp] theorem create_fst_eval (v : Value) : (create s v).1.eval ρ = v.eval ρ := by
  unfold create; split
  · exact Value.eval_fold ρ v
  · rfl

@[simp] theorem create_fst_ty (v : Value) : (create s v).1.ty = v.ty := by
  unfold create; split
  · exact Value.ty_fold v
  · rfl

@[simp] theorem create_snd_vals (v : Value) : (create s v).2.vals = s.vals := by
  unfold create; split <;> rfl

theorem create_fst (v : Value) : (create s v).1 = if v.isConstant then v.fold else v := by
  unfold create; split <;> rfl

@[simp] theorem create_snd_regVals (v : Value) : (create s v).2.regVals = s.regVals := by
  unfold create; split <;> rfl

@[simp] theorem create_snd_rsiBB (v : Value) : (create s v).2.rsiBB = s.rsiBB := by
  unfold create; split <;> rfl

@[simp] theorem setReg_regVals_self (r : Nat) (v : Value) : (setReg cfg s r v).regVals r = some v := by
  simp [setReg, DCFunction.modifyInsts]

@[simp] theorem getRegAsInt_fst_ty (r : Nat) : (getRegAsInt cfg s r).1.ty = getRegIntType cfg r := by
  unfold getRegAsInt; dsimp only; split
  · assumption
  · simp

@[simp] theorem getRegAsInt_snd_regVals (r : Nat) : (getRegAsInt cfg s r).2.regVals = s.regVals := by
  unfold getRegAsInt; dsimp only; split <;> simp [getReg, DCFunction.log, DCFunction.modifyInsts]

@[simp] theorem getRegAsInt_snd_rsiBB (r : Nat) : (getRegAsInt cfg s r).2.rsiBB = s.rsiBB := by
  unfold getRegAsInt; dsimp only; split <;> simp [getReg, DCFunction.log, DCFunction.modifyInsts]

/-- `getRegAsInt` reads only the cache and the current block. -/
theorem getRegAsInt_fst_congr {s s' : DCFunction} (r : Nat) (h1 : s'.regVals = s.regVals)
    (h2 : s'.rsiBB = s.rsiBB) : (getRegAsInt cfg s' r).1 = (getRegAsInt cfg s r).1 := by
  simp only [getRegAsInt, getReg, h1, h2]
  split <;> simp [create_fst]

/-- A register written in the current block is read back as written. -/
theorem getRegAsInt_fst_of_cached {s : DCFunction} {r : Nat} {w : Value}
    (h : s.regVals r = some w) (hw : w.ty = getRegIntType cfg r) : (getRegAsInt cfg s r).1 = w := by
  simp [getRegAsInt, getReg, h, hw]

theorem getRegAsInt_eval_mod (r : Nat) :
    ((getRegAsInt cfg s r).1.eval ρ).map (· % 2 ^ (cfg.regs.regType r).primitiveSizeInBits) =
      (getRegAsInt cfg s r).1.eval ρ := by
  simpa [getRegIntType] using Value.eval_map_mod ρ (getRegAsInt cfg s r).1

@[simp] theorem insertBitsInValue_fst_ty (w p : Value) : (insertBitsInValue s w p).1.ty = w.ty := by
  simp [insertBitsInValue]

@[simp] theorem insertBitsInValue_fst_eval (w p : Value) :
    (insertBitsInValue s w p).1.eval ρ = (Value.insertBits w p).eval ρ := by
  simp [insertBitsInValue]

end DRS

end Dagger
