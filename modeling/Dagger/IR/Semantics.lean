import Dagger.IR.Syntax

/-!
# What an IR value computes

Values denote bit patterns: a value of type `t` evaluates to a natural number below
`2 ^ t.width`, or to `none` — poison, or immediate undefined behaviour. The
integer operations and the bit-preserving casts are interpreted as LLVM defines
them (a shift by at least the width is poison); everything else (floating point,
loads, calls, register reads) is looked up in an environment `ρ`, which the
results of this file never constrain.

`Value.fold` is LLVM's `ConstantFolder` on integer constants, and `eval_fold`
says it changes no value. The builder uses it, so a folded constant and the
instruction it saves denote the same bits.
-/

namespace Dagger

/-- Two's-complement reading of a `w`-bit pattern. -/
def toSigned (w n : Nat) : Int := if n < 2 ^ (w - 1) then n else (n : Int) - 2 ^ w

/-- The `w`-bit pattern of an integer. -/
def ofSigned (w : Nat) (i : Int) : Nat := (i % 2 ^ w).toNat

theorem ofSigned_lt (w : Nat) (i : Int) : ofSigned w i < 2 ^ w := by
  have hpos : (0 : Int) < 2 ^ w := by exact_mod_cast Nat.two_pow_pos w
  rw [ofSigned, Int.toNat_lt (Int.emod_nonneg _ (by omega))]
  exact_mod_cast Int.emod_lt_of_pos i hpos

/-- `INT_MIN` divided by `-1`: the one signed division whose quotient does not fit
in `w` bits. LLVM makes it immediate undefined behaviour for `sdiv` and `srem`
alike. -/
def sdivOverflows (w a b : Nat) : Bool := toSigned w a == -2 ^ (w - 1) && toSigned w b == -1

/-- LLVM's integer binary operations on `w`-bit patterns, without `nsw`/`nuw`
flags; `none` for poison and for undefined division. -/
def evalBinOp (op : BinaryOps) (w a b : Nat) : Option Nat :=
  match op with
  | .add => some ((a + b) % 2 ^ w)
  | .sub => some (ofSigned w ((a : Int) - b))
  | .mul => some (a * b % 2 ^ w)
  | .udiv => if b = 0 then none else some (a / b % 2 ^ w)
  | .urem => if b = 0 then none else some (a % b % 2 ^ w)
  | .sdiv => if b = 0 ∨ sdivOverflows w a b then none
    else some (ofSigned w ((toSigned w a).tdiv (toSigned w b)))
  | .srem => if b = 0 ∨ sdivOverflows w a b then none
    else some (ofSigned w ((toSigned w a).tmod (toSigned w b)))
  | .shl => if b < w then some (a * 2 ^ b % 2 ^ w) else none
  | .lshr => if b < w then some (a / 2 ^ b % 2 ^ w) else none
  | .ashr => if b < w then some (ofSigned w (toSigned w a / 2 ^ b)) else none
  | .and => some ((a &&& b) % 2 ^ w)
  | .or => some ((a ||| b) % 2 ^ w)
  | .xor => some ((a ^^^ b) % 2 ^ w)
  | _ => none

/-- The casts that move bits without interpreting them as floating point. -/
def CastOps.isBits : CastOps → Bool
  | trunc | zext | sext | ptrToInt | intToPtr | bitCast => true
  | _ => false

/-- A bit-level cast from width `w` to width `w'`: truncation, zero or sign
extension, or reinterpretation of the same bits. -/
def evalCast (op : CastOps) (w w' a : Nat) : Nat :=
  match op with
  | .sext => ofSigned w' (toSigned w a)
  | _ => a % 2 ^ w'

/-- What a value computes, given the opaque leaves `ρ`. -/
def Value.eval (ρ : Value → Option Nat) : Value → Option Nat
  | .constInt w n => some (n % 2 ^ w)
  | .binOp op a b =>
    if op.isInt then
      (a.eval ρ).bind fun x => (b.eval ρ).bind fun y => evalBinOp op a.ty.width x y
    else (ρ (.binOp op a b)).map (· % 2 ^ a.ty.width)
  | .cast op v t =>
    if op.isBits then (v.eval ρ).map (evalCast op v.ty.width t.width)
    else (ρ (.cast op v t)).map (· % 2 ^ t.width)
  | .insertBits w p =>
    (w.eval ρ).bind fun x => (p.eval ρ).map fun y =>
      (x / 2 ^ p.ty.width * 2 ^ p.ty.width + y) % 2 ^ w.ty.width
  | v => (ρ v).map (· % 2 ^ v.ty.width)

theorem evalBinOp_lt {op : BinaryOps} {w a b n : Nat} (h : evalBinOp op w a b = some n) :
    n < 2 ^ w := by
  have hpos : 0 < 2 ^ w := Nat.two_pow_pos w
  cases op <;> simp only [evalBinOp] at h <;> (try split_ifs at h) <;> cases h <;>
    first | exact Nat.mod_lt _ hpos | exact ofSigned_lt _ _

/-- **Well-typed results**: a value of type `t` evaluates to a `t.width`-bit pattern. -/
theorem Value.eval_lt (ρ : Value → Option Nat) :
    ∀ {v : Value} {n : Nat}, v.eval ρ = some n → n < 2 ^ v.ty.width := by
  intro v n h
  have hmap : ∀ {o : Option Nat} {k : Nat}, o.map (· % 2 ^ k) = some n → n < 2 ^ k := by
    intro o k h
    obtain ⟨m, -, rfl⟩ := Option.map_eq_some'.mp h
    exact Nat.mod_lt _ (Nat.two_pow_pos k)
  cases v with
  | constInt w m => cases h; exact Nat.mod_lt _ (Nat.two_pow_pos w)
  | binOp op a b =>
    simp only [eval] at h
    split_ifs at h
    · obtain ⟨x, -, h⟩ := Option.bind_eq_some.mp h
      obtain ⟨y, -, h⟩ := Option.bind_eq_some.mp h
      exact evalBinOp_lt h
    · exact hmap h
  | cast op v t =>
    simp only [eval] at h
    split_ifs at h
    · obtain ⟨x, -, rfl⟩ := Option.map_eq_some'.mp h
      unfold evalCast
      split
      · exact ofSigned_lt _ _
      · exact Nat.mod_lt _ (Nat.two_pow_pos _)
    · exact hmap h
  | insertBits w p =>
    simp only [eval] at h
    obtain ⟨x, -, h⟩ := Option.bind_eq_some.mp h
    obtain ⟨y, -, rfl⟩ := Option.map_eq_some'.mp h
    exact Nat.mod_lt _ (Nat.two_pow_pos _)
  | _ => exact hmap h

/-- Whether the value is an integer operation applied to integer constants only. -/
def Value.hasConstIntOperands : Value → Bool
  | .binOp _ (.constInt _ _) (.constInt _ _) | .cast _ (.constInt _ _) (.int _) => true
  | _ => false

/-- `ConstantFolder`: an integer operation on integer constants becomes the
constant it evaluates to; every other value is left as it is. -/
def Value.fold (v : Value) : Value :=
  if v.hasConstIntOperands then
    match v.eval (fun _ => none), v.ty with
    | some c, .int w => .constInt w c
    | _, _ => v
  else v

/-- An operation on constants evaluates without looking at `ρ`. -/
theorem Value.eval_of_eval_none {ρ : Value → Option Nat} {v : Value} {c : Nat}
    (hv : v.hasConstIntOperands) (h : v.eval (fun _ => none) = some c) : v.eval ρ = some c := by
  unfold hasConstIntOperands at hv
  split at hv
  · rename_i op w a w' b
    by_cases hop : op.isInt <;> simp_all [eval]
  · rename_i op w a t
    by_cases hop : op.isBits <;> simp_all [eval]
  · cases hv

/-- **Folding preserves values.** -/
theorem Value.eval_fold (ρ : Value → Option Nat) (v : Value) : v.fold.eval ρ = v.eval ρ := by
  unfold fold
  split
  · rename_i hv
    split
    · rename_i c w hc hty
      have hlt := Value.eval_lt _ hc
      rw [hty, Ty.width_int] at hlt
      rw [eval_of_eval_none hv hc]
      simp only [eval, Nat.mod_eq_of_lt hlt]
    · rfl
  · rfl

end Dagger
