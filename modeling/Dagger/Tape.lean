import Dagger.Translate

/-!
# What a semantics tape means

The semantics tables describe a machine instruction as a tape of SelectionDAG
opcodes run over a value stack: an opcode reads its value type and any operand
tokens, pops its operands and pushes its result, and `GET_REG`, `PUT_REG`,
`GET_RC` and `PUT_RC` read and write the machine's registers. `translateOpcode`
turns such a tape into IR. This module gives a tape its meaning directly, on bit
patterns, with no IR in between. `TapeState` is the machine: a tape position, a
stack of typed bit patterns (`Bits`) and a register file.

* `TapeState.step` is one opcode, for the opcodes whose meaning is a function of
  bits: the integer binary operations, the wide multiplications, the rotation,
  the bit-preserving casts, the register and register-class accesses, and the two
  kinds of constant;
* `TapeState.run` reads opcodes up to `END_OF_INSTRUCTION`;
* `TapeState.inst` is a whole instruction: the PC advanced by its size, then its
  tape from an empty stack; `TapeState.block` runs instructions one after another.

Every other opcode — floating point, memory, calls and branches, target hooks —
has no meaning here, nor has a rotation by zero or by the width or more, whose IR
is poison: the machine stops, and the results about the translation say nothing
about such tapes.
-/

namespace Dagger

/-- A value of the tape machine: its type and its bits, `none` for poison. -/
structure Bits where
  ty : Ty
  val : Option Nat
  deriving DecidableEq, Repr

/-- The integer binary opcodes, with the IR operation `translateOpcode` builds for each. -/
def SemaOpcode.intBinOp : SemaOpcode → Option BinaryOps
  | .add => some .add
  | .sub => some .sub
  | .mul => some .mul
  | .udiv => some .udiv
  | .sdiv => some .sdiv
  | .urem => some .urem
  | .srem => some .srem
  | .shl => some .shl
  | .srl => some .lshr
  | .sra => some .ashr
  | .and => some .and
  | .or => some .or
  | .xor => some .xor
  | _ => none

/-- The cast opcodes that move bits, with the IR cast `translateOpcode` builds for each. -/
def SemaOpcode.bitsCast : SemaOpcode → Option CastOps
  | .truncate => some .trunc
  | .bitcast => some .bitCast
  | .zeroExtend => some .zext
  | .signExtend => some .sext
  | _ => none

/-- The register of operand `n` of the instruction. -/
def MCDecodedInst.regOp (i : MCDecodedInst) (n : Nat) : Option Nat :=
  match i.inst.operands.get? n with
  | some (.reg r) => some r
  | _ => none

/-- The immediate of operand `n` of the instruction. -/
def MCDecodedInst.immOp (i : MCDecodedInst) (n : Nat) : Option Int :=
  match i.inst.operands.get? n with
  | some (.imm v) => some v
  | _ => none

/-- The width of register `r`'s integer type, `getRegIntType`. -/
def regWidth (cfg : Config) (r : Nat) : Nat := (cfg.regs.regType r).primitiveSizeInBits

/-- The state of the tape machine. -/
structure TapeState where
  /-- the position on the semantics array -/
  idx : Nat
  /-- the value stack, top first -/
  stack : List Bits
  /-- the register file -/
  regs : Nat → Bits

namespace TapeState

variable (cfg : Config)

/-- Read a token. -/
def next (a : TapeState) : Option (Nat × TapeState) :=
  (cfg.tables.semanticsArray.get? a.idx).map fun t => (t, { a with idx := a.idx + 1 })

/-- Pop the top of the stack. -/
def pop (a : TapeState) : Option (Bits × TapeState) :=
  match a.stack with
  | x :: xs => some (x, { a with stack := xs })
  | [] => none

/-- Push a value. -/
def push (a : TapeState) (x : Bits) : TapeState := { a with stack := x :: a.stack }

/-- Write a register. -/
def setReg (a : TapeState) (r : Nat) (x : Bits) : TapeState :=
  { a with regs := Function.update a.regs r x }

/-- Register `r` read as an integer as wide as the register. -/
def regInt (a : TapeState) (r : Nat) : Option Nat := (a.regs r).val.map (· % 2 ^ regWidth cfg r)

/-- Whether LLVM's `CastInst` accepts the cast `op` from type `s` to type `t`:
truncation to a narrower and extension to a wider integer type, and a bit cast
between two pointer types or between two non-pointer types of one nonzero size. -/
def castIsValid (op : CastOps) (s t : Ty) : Bool :=
  match op, s, t with
  | .trunc, .int a, .int b => b < a
  | .zext, .int a, .int b | .sext, .int a, .int b => a < b
  | .bitCast, s, t => (s.isPointerTy && t.isPointerTy) ||
    (!s.isPointerTy && !t.isPointerTy && s.primitiveSizeInBits == t.primitiveSizeInBits &&
      0 < s.primitiveSizeInBits)
  | _, _, _ => false

/-- An integer binary operation on the two operands popped in order. The first
must be a scalar integer, and the second of the same type, as LLVM's
`BinaryOperator` requires; a shift's amount may be a narrower integer, which
`translateBinOp` zero-extends first. An amount of at least the width gives
poison. -/
def binOp (op : BinaryOps) (a : TapeState) : Option TapeState := do
  let (x, a) ← a.pop
  let (y, a) ← a.pop
  let w ← intWidth (some x.ty)
  guard (if op.isShift then y.ty.isIntegerTy ∧ y.ty.width ≤ w else y.ty = x.ty)
  pure (a.push ⟨x.ty, x.val.bind fun m => y.val.bind (evalBinOp op w m)⟩)

/-- A bit-level cast of the popped value to the result type: no cast at all when
the types agree, and otherwise one LLVM accepts. -/
def cast (op : CastOps) (resTy : Option Ty) (a : TapeState) : Option TapeState := do
  let t ← resTy
  let (x, a) ← a.pop
  guard (x.ty = t ∨ castIsValid op x.ty t)
  pure (a.push ⟨t, x.val.map (evalCast op x.ty.width t.width)⟩)

/-- Read the low bits of register `r` at a non-pointer type `t` of nonzero size no
wider than it. -/
def getRC (t : Ty) (r : Nat) (a : TapeState) : Option TapeState := do
  guard (t.isPointerTy = false ∧ 0 < t.primitiveSizeInBits ∧ t.primitiveSizeInBits ≤ regWidth cfg r)
  pure (a.push ⟨t, (a.regInt cfg r).map (· % 2 ^ t.primitiveSizeInBits)⟩)

/-- Write a value of a non-pointer type of nonzero size no wider than register `r`
into it: into its low bits, the others kept, when the value is narrower. -/
def putRC (r : Nat) (x : Bits) (a : TapeState) : Option TapeState := do
  guard (x.ty.isPointerTy = false ∧ 0 < x.ty.primitiveSizeInBits ∧
    x.ty.primitiveSizeInBits ≤ regWidth cfg r)
  let t := x.ty.primitiveSizeInBits
  let W := regWidth cfg r
  pure (a.setReg r ⟨.int W, if t < W then
    (a.regInt cfg r).bind fun c => x.val.map fun y => (c / 2 ^ t * 2 ^ t + y) % 2 ^ W
    else x.val⟩)

/-- `SMUL_LOHI` (`ext = sext`) and `UMUL_LOHI` (`ext = zext`): the product of the
two popped operands, extended to the widths of the low and the high result types
together, pushed as its low part and then its high part. Both result types, the
high part's next on the tape, must be nonempty integer types, and both operands
integers no wider than the two together. -/
def mulLoHi (ext : CastOps) (evt : EVT) (a : TapeState) : Option TapeState := do
  let (vt2, a) ← a.next cfg
  let l ← intWidth evt.getTypeForEVT
  let h ← intWidth (cfg.tables.valueType vt2).getTypeForEVT
  guard (0 < l ∧ 0 < h)
  let (x, a) ← a.pop
  let (y, a) ← a.pop
  guard (x.ty.isIntegerTy ∧ x.ty.width ≤ l + h ∧ y.ty.isIntegerTy ∧ y.ty.width ≤ l + h)
  let p := x.val.bind fun m => y.val.map fun n =>
    evalCast ext x.ty.width (l + h) m * evalCast ext y.ty.width (l + h) n % 2 ^ (l + h)
  pure ((a.push ⟨.int l, p.map (· % 2 ^ l)⟩).push ⟨.int h, p.map fun p => p / 2 ^ l % 2 ^ h⟩)

/-- `ROTL`: the first popped operand, of an integer type, rotated left by the
second, an integer no wider. Only an amount strictly between zero and the width
has a meaning here: for the others the IR's right shift by the width minus the
amount is poison, or its left shift is. -/
def rotl (a : TapeState) : Option TapeState := do
  let (x, a) ← a.pop
  let n ← intWidth (some x.ty)
  let (y, a) ← a.pop
  guard (y.ty.isIntegerTy ∧ y.ty.width ≤ n)
  let k ← y.val
  guard (0 < k ∧ k < n)
  pure (a.push ⟨x.ty, x.val.map fun m => ((BitVec.ofNat n m).rotateLeft k).toNat⟩)

/-- One opcode of instruction `i`'s tape, its value type first. -/
def step (i : MCDecodedInst) (opcode : Nat) (a : TapeState) : Option TapeState := do
  let (vt, a) ← a.next cfg
  let evt := cfg.tables.valueType vt
  match cfg.tables.opcode opcode with
  | .getReg => do
    let (r, a) ← a.next cfg
    pure (a.push (a.regs r))
  | .putReg => do
    let (r, a) ← a.next cfg
    let (x, a) ← a.pop
    pure (a.setReg r x)
  | .getRC => do
    let (n, a) ← a.next cfg
    let t ← evt.getTypeForEVT
    let r ← i.regOp n
    a.getRC cfg t r
  | .putRC => do
    let (n, a) ← a.next cfg
    let r ← i.regOp n
    let (x, a) ← a.pop
    a.putRC cfg r x
  | .constantOp => do
    let (n, a) ← a.next cfg
    let w ← intWidth evt.getTypeForEVT
    let imm ← i.immOp n
    pure (a.push ⟨.int w, some ((imm % 2 ^ 64).toNat % 2 ^ w)⟩)
  | .movConstant => do
    let (k, a) ← a.next cfg
    let w ← intWidth (if evt = .iPTR then some (.int 64) else evt.getTypeForEVT)
    pure (a.push ⟨.int w, some ((cfg.tables.constantArray k).toNat % 2 ^ w)⟩)
  | .smulLohi => a.mulLoHi cfg .sext evt
  | .umulLohi => a.mulLoHi cfg .zext evt
  | .rotl => a.rotl
  | op =>
    match op.intBinOp, op.bitsCast with
    | some b, _ => a.binOp b
    | none, some c => a.cast c evt.getTypeForEVT
    | none, none => none

/-- The opcodes of instruction `i`'s tape up to `END_OF_INSTRUCTION`. -/
def run (i : MCDecodedInst) : Nat → TapeState → Option TapeState
  | 0, _ => none
  | fuel + 1, a => do
    let (opcode, a) ← a.next cfg
    if cfg.tables.opcode opcode = .endOfInstruction then pure a
    else (a.step cfg i opcode).bind (run i fuel)

/-- Instruction `i` on the register file `R`: the PC advanced by the instruction's
size, then the instruction's tape from an empty stack. -/
def inst (i : MCDecodedInst) (R : Nat → Bits) : Option (Nat → Bits) := do
  let idx := cfg.tables.opcodeToSemaIdx i.inst.opcode.toNat
  guard (idx ≠ noSemantics)
  let pc := cfg.regs.programCounter
  let w ← intWidth (some (R pc).ty)
  let R := Function.update R pc ⟨.int w, (R pc).val.map fun c => (c + i.size.toNat) % 2 ^ w⟩
  let a ← run cfg i (cfg.tables.semanticsArray.length + 1) ⟨idx, [], R⟩
  pure a.regs

/-- Instructions one after another. -/
def block : List MCDecodedInst → (Nat → Bits) → Option (Nat → Bits)
  | [], R => some R
  | i :: insts, R => (inst cfg i R).bind (block insts)

end TapeState

end Dagger
