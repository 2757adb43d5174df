import Dagger.Translate
import Dagger.Values

/-!
# Register-class accesses round-trip

`DCINS::PUT_RC` writes a value of any non-pointer type `T` into a register `R`
that is `W` bits wide: a non-integer is bit-cast to an integer of its own width,
and a value narrower than the register has its bits inserted into the register's
current contents. `DCINS::GET_RC` reads `R` back at type `T`: truncated to `T`'s
width and bit-cast to `T`.

Given the register semantics as the core assumes it (a register written in the
current block reads back as written, `insertBitsInValue` replaces the low bits),
the two are inverse:

* `putRC_eval` — what `PUT_RC` writes, and that it always has the register's
  integer type, so its assertion never fails;
* `getRC_eval` — what `GET_RC` reads: the register's low `t` bits;
* `putRC_getRC_roundTrip` — reading back what was written gives the value, bit
  for bit, and writing back what was read leaves the register unchanged.
-/

namespace Dagger

variable (cfg : Config) (ρ : Value → Option Nat)

theorem getRC_snd_regVals (s : DCFunction) (T : Ty) (R : Nat) :
    (getRC cfg T R s).2.regVals = s.regVals := by
  unfold getRC; dsimp only; split_ifs <;> simp

theorem getRC_snd_rsiBB (s : DCFunction) (T : Ty) (R : Nat) :
    (getRC cfg T R s).2.rsiBB = s.rsiBB := by
  unfold getRC; dsimp only; split_ifs <;> simp

/-- Replacing the low `t` bits of `x` by `y` and reading the low `t` bits back gives `y`. -/
theorem insertLow_mod {x y t W : Nat} (ht : t ≤ W) (hy : y < 2 ^ t) :
    (x / 2 ^ t * 2 ^ t + y) % 2 ^ W % 2 ^ t = y := by
  rw [Nat.mod_mod_of_dvd _ (Nat.pow_dvd_pow 2 ht), Nat.add_comm, Nat.add_mul_mod_self_right,
    Nat.mod_eq_of_lt hy]

/-- Replacing the low `t` bits of `x` by themselves gives `x`. -/
theorem insertLow_self {x t W : Nat} (hx : x < 2 ^ W) :
    (x / 2 ^ t * 2 ^ t + x % 2 ^ t) % 2 ^ W = x := by
  rw [Nat.mul_comm, Nat.div_add_mod, Nat.mod_eq_of_lt hx]

/-- **What `PUT_RC` writes.** For a value of a non-pointer type no wider than the
register, `PUT_RC` succeeds and hands `setReg` a value of the register's integer
type: the value's bits, inserted into the register's current contents when the
value is narrower. -/
theorem putRC_eval (s : DCFunction) (R : Nat) (v : Value) (hT : v.ty.isPointerTy = false)
    (htW : v.ty.primitiveSizeInBits ≤ (cfg.regs.regType R).primitiveSizeInBits) :
    ∃ s1 w, putRC cfg R v s = some s1 ∧ s1.regVals R = some w ∧
      w.ty = DRS.getRegIntType cfg R ∧
      w.eval ρ = if v.ty.primitiveSizeInBits < (cfg.regs.regType R).primitiveSizeInBits then
        ((DRS.getRegAsInt cfg s R).1.eval ρ).bind fun c => (v.eval ρ).map fun y =>
          (c / 2 ^ v.ty.primitiveSizeInBits * 2 ^ v.ty.primitiveSizeInBits + y) %
            2 ^ (cfg.regs.regType R).primitiveSizeInBits
      else v.eval ρ := by
  have hw := Ty.width_of_not_ptr hT
  have hbc : CastOps.bitCast.isBits = true := rfl
  rcases hv : v.ty.isIntegerTy with _ | _
  · by_cases hlt : v.ty.primitiveSizeInBits < (cfg.regs.regType R).primitiveSizeInBits
    · simp [putRC, hT, hv, hlt, DRS.getRegIntType, guard, Value.eval_insertBits,
        DRS.getRegAsInt_fst_congr cfg R (Builder.createCast_snd_regVals _ _ _ _)
          (Builder.createCast_snd_rsiBB _ _ _ _),
        Builder.createCast_fst_eval_of_width ρ _ hbc v (.int v.ty.primitiveSizeInBits) (by simp [hw])]
    · have : v.ty.primitiveSizeInBits = (cfg.regs.regType R).primitiveSizeInBits := by omega
      simp [putRC, hT, hv, hlt, DRS.getRegIntType, guard, this,
        Builder.createCast_fst_eval_of_width ρ _ hbc v
          (.int (cfg.regs.regType R).primitiveSizeInBits) (by simp [hw, this])]
  · obtain ⟨w, hw'⟩ := (Ty.isIntegerTy_iff _).mp hv
    by_cases hlt : v.ty.primitiveSizeInBits < (cfg.regs.regType R).primitiveSizeInBits
    · simp only [hw', Ty.primitiveSizeInBits_int] at hlt
      simp [putRC, hlt, DRS.getRegIntType, guard, Value.eval_insertBits, hw', Ty.isPointerTy,
        Ty.isIntegerTy]
    · have : v.ty.primitiveSizeInBits = (cfg.regs.regType R).primitiveSizeInBits := by omega
      simp only [hw', Ty.primitiveSizeInBits_int] at this hlt
      simp [putRC, hlt, DRS.getRegIntType, guard, this, hw', Ty.isPointerTy, Ty.isIntegerTy]

/-- **What `GET_RC` reads**: the register's low bits, at type `T`. -/
theorem getRC_eval (s : DCFunction) (R : Nat) (T : Ty) (hT : T.isPointerTy = false)
    (htW : T.primitiveSizeInBits ≤ (cfg.regs.regType R).primitiveSizeInBits) :
    (getRC cfg T R s).1.ty = T ∧ (getRC cfg T R s).1.eval ρ =
      ((DRS.getRegAsInt cfg s R).1.eval ρ).map (· % 2 ^ T.primitiveSizeInBits) := by
  have hw := Ty.width_of_not_ptr hT
  have hbc : CastOps.bitCast.isBits = true := rfl
  have htr : CastOps.trunc.isBits = true := rfl
  rcases hv : T.isIntegerTy with _ | _
  · by_cases hlt : T.primitiveSizeInBits < (cfg.regs.regType R).primitiveSizeInBits
    · simp [getRC, hv, hlt, DRS.getRegIntType, Builder.createCast_fst_eval_of_width ρ _ hbc, hw,
        Builder.createCast_fst_eval _ _ htr, Value.eval, htr, evalCast_trunc]
    · have : T.primitiveSizeInBits = (cfg.regs.regType R).primitiveSizeInBits := by omega
      simp [getRC, hv, hlt, DRS.getRegIntType, Builder.createCast_fst_eval_of_width ρ _ hbc, hw,
        this]
      exact (DRS.getRegAsInt_eval_mod cfg ρ s R).symm
  · obtain ⟨w, rfl⟩ := (Ty.isIntegerTy_iff _).mp hv
    by_cases hlt : w < (cfg.regs.regType R).primitiveSizeInBits
    · simp [getRC, hlt, DRS.getRegIntType, Builder.createCast_fst_eval _ _ htr, Value.eval, htr,
        evalCast_trunc, Ty.isIntegerTy]
    · have : w = (cfg.regs.regType R).primitiveSizeInBits := by simp at htW; omega
      subst this
      simp [getRC, DRS.getRegIntType, Ty.isIntegerTy]
      exact (DRS.getRegAsInt_eval_mod cfg ρ s R).symm

/-- **Register-class round trips.** Let `T` be a non-pointer type no wider than
register `R`. `GET_RC` of `R` at `T` after `PUT_RC` of `v : T` yields `v` bit for
bit (the register's previous contents must be defined when `v` is narrower, since
`v` is inserted into them); `PUT_RC` of what `GET_RC` read leaves `R` unchanged;
and in both directions `PUT_RC` hands `setReg` a value of `R`'s integer type, so its
assertion holds. -/
theorem putRC_getRC_roundTrip (s : DCFunction) (R : Nat) (T : Ty) (hT : T.isPointerTy = false)
    (htW : T.primitiveSizeInBits ≤ (cfg.regs.regType R).primitiveSizeInBits) :
    (∀ v : Value, v.ty = T → ((DRS.getRegAsInt cfg s R).1.eval ρ).isSome →
      ∃ s1 w, putRC cfg R v s = some s1 ∧ s1.regVals R = some w ∧
        w.ty = DRS.getRegIntType cfg R ∧
        (getRC cfg T R s1).1.ty = T ∧ (getRC cfg T R s1).1.eval ρ = v.eval ρ) ∧
    (∃ s2 w, putRC cfg R (getRC cfg T R s).1 (getRC cfg T R s).2 = some s2 ∧
      s2.regVals R = some w ∧ w.ty = DRS.getRegIntType cfg R ∧
      (DRS.getRegAsInt cfg s2 R).1.eval ρ = (DRS.getRegAsInt cfg s R).1.eval ρ) := by
  have hw := Ty.width_of_not_ptr hT
  constructor
  · rintro v rfl hc
    obtain ⟨s1, w, hput, hreg, hwty, hweval⟩ := putRC_eval cfg ρ s R v hT htW
    obtain ⟨hty, hev⟩ := getRC_eval cfg ρ s1 R v.ty hT htW
    refine ⟨s1, w, hput, hreg, hwty, hty, ?_⟩
    rw [hev, DRS.getRegAsInt_fst_of_cached cfg hreg hwty, hweval]
    split_ifs with hlt
    · obtain ⟨c, hc⟩ := Option.isSome_iff_exists.mp hc
      rw [hc]
      cases hv : v.eval ρ with
      | none => rfl
      | some y =>
        have hy := Value.eval_lt ρ hv
        rw [hw] at hy
        simp [insertLow_mod htW hy]
    · rw [← hw]; exact Value.eval_map_mod ρ v
  · obtain ⟨hty, hev⟩ := getRC_eval cfg ρ s R T hT htW
    obtain ⟨s2, w, hput, hreg, hwty, hweval⟩ := putRC_eval cfg ρ (getRC cfg T R s).2 R
      (getRC cfg T R s).1 (by rw [hty]; exact hT) (by rw [hty]; exact htW)
    refine ⟨s2, w, hput, hreg, hwty, ?_⟩
    rw [DRS.getRegAsInt_fst_of_cached cfg hreg hwty, hweval, hev, hty,
      DRS.getRegAsInt_fst_congr cfg R (getRC_snd_regVals cfg s T R) (getRC_snd_rsiBB cfg s T R)]
    split_ifs with hlt
    · cases hc : (DRS.getRegAsInt cfg s R).1.eval ρ with
      | none => rfl
      | some x =>
        have hx := Value.eval_lt ρ hc
        simp only [DRS.getRegAsInt_fst_ty, DRS.getRegIntType, Ty.width_int] at hx
        simp [insertLow_self hx]
    · rw [show T.primitiveSizeInBits = (cfg.regs.regType R).primitiveSizeInBits by omega]
      exact DRS.getRegAsInt_eval_mod cfg ρ s R

/-- A 128-bit vector register set, like x86's `XMM` registers. -/
def xmmCfg : Config :=
  ⟨⟨fun _ => 0, [], fun _ => 0, fun _ => .other, fun _ => .invalid, fun _ => .other⟩,
    ⟨0, fun _ => .vector 2 (.int 64)⟩, ⟨false, false, false⟩, .declineAll, .silent⟩

/-- A `double` in the low half of an `XMM` register. -/
theorem putRC_getRC_roundTrip_double :
    (∀ v : Value, v.ty = .double →
      ((DRS.getRegAsInt xmmCfg DCFunction.empty 8).1.eval (fun _ => some 5)).isSome →
      ∃ s1 w, putRC xmmCfg 8 v DCFunction.empty = some s1 ∧ s1.regVals 8 = some w ∧
        w.ty = DRS.getRegIntType xmmCfg 8 ∧ (getRC xmmCfg .double 8 s1).1.ty = .double ∧
        (getRC xmmCfg .double 8 s1).1.eval (fun _ => some 5) = v.eval (fun _ => some 5)) ∧
    (∃ s2 w, putRC xmmCfg 8 (getRC xmmCfg .double 8 DCFunction.empty).1
        (getRC xmmCfg .double 8 DCFunction.empty).2 = some s2 ∧
      s2.regVals 8 = some w ∧ w.ty = DRS.getRegIntType xmmCfg 8 ∧
      (DRS.getRegAsInt xmmCfg s2 8).1.eval (fun _ => some 5) =
        (DRS.getRegAsInt xmmCfg DCFunction.empty 8).1.eval (fun _ => some 5)) :=
  putRC_getRC_roundTrip xmmCfg (fun _ => some 5) DCFunction.empty 8 .double rfl (by decide)

end Dagger
