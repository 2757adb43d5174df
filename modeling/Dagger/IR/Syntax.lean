import Mathlib.Algebra.Group.Int
import Mathlib.Logic.Function.Basic

/-!
# The IR the translator emits

The fragment of LLVM IR that `DCFunction` builds, as plain data:

* `Ty` — the first-class types the core asks the IR context for, with
  `getPrimitiveSizeInBits` as LLVM defines it (`0` for pointers).
* `Value` — an SSA value as the term that computes it. A `Value*` returned by an
  `IRBuilder` call is the operation applied to its operands; reading a register
  through the register-semantics object gives the opaque `reg` leaf.
* `Instr` / `Inst` — the instructions a basic block holds. Terminators (`br`,
  `ret`, `unreachable`) are kept apart from the rest so that target hooks, which
  can only emit through the core, cannot build one by accident.
* `BasicBlock` — a name and an instruction list. Its `origin` is ghost data: which
  operation of the core created the block. The C++ keeps no such tag; the
  invariants of the block map and of the call blocks are stated with it.
-/

namespace Dagger

/-! ## Types -/

/-- An IR type. Pointers are typed, as in the LLVM the core was written against. -/
inductive Ty where
  /-- `iN` -/
  | int (w : Nat)
  | half
  | float
  | double
  | x86fp80
  | fp128
  /-- `<n x elt>` -/
  | vector (n : Nat) (elt : Ty)
  /-- `elt*` -/
  | ptr (pointee : Ty)
  /-- the type of a translated function, `void (regset*)` -/
  | fn
  /-- the register-set struct, opaque to the core -/
  | regSet
  | void
  deriving DecidableEq, Repr, Inhabited

namespace Ty

/-- `Type::getPrimitiveSizeInBits`. -/
def primitiveSizeInBits : Ty → Nat
  | int w => w
  | half => 16
  | float => 32
  | double => 64
  | x86fp80 => 80
  | fp128 => 128
  | vector n elt => n * elt.primitiveSizeInBits
  | _ => 0

/-- The width of the bit pattern a value of this type carries: the primitive size,
and 64 for pointers (the translator targets 64-bit address spaces). -/
def width : Ty → Nat
  | ptr _ => 64
  | t => t.primitiveSizeInBits

/-- `Type::isIntegerTy`. -/
def isIntegerTy : Ty → Bool
  | int _ => true
  | _ => false

/-- `Type::isPointerTy`. -/
def isPointerTy : Ty → Bool
  | ptr _ => true
  | _ => false

/-- The pointee of a pointer type (`void` otherwise). -/
def pointee : Ty → Ty
  | ptr t => t
  | _ => void

/-- The element type of a vector type (the type itself otherwise). -/
def elementType : Ty → Ty
  | vector _ t => t
  | t => t

/-- `Type::getInt8PtrTy`. -/
def i8Ptr : Ty := ptr (int 8)

@[simp] theorem width_int (w : Nat) : (int w).width = w := rfl

@[simp] theorem primitiveSizeInBits_int (w : Nat) : (int w).primitiveSizeInBits = w := rfl

end Ty

/-- `EVT`: a value-type tag read off the semantics tape. `iPTR` stands for the
pointer-sized integer and has no IR type of its own. -/
inductive EVT where
  | ty (t : Ty)
  | iPTR
  /-- `EVT()`, the value before any tag was read -/
  | invalid
  deriving DecidableEq, Repr

/-- `EVT::getTypeForEVT`; `none` where LLVM hits `llvm_unreachable`. -/
def EVT.getTypeForEVT : EVT → Option Ty
  | .ty t => some t
  | _ => none

/-! ## Operations -/

/-- `Instruction::BinaryOps`. -/
inductive BinaryOps where
  | add | fadd | sub | fsub | mul | fmul | udiv | sdiv | fdiv | urem | srem | frem
  | shl | lshr | ashr | and | or | xor
  deriving DecidableEq, Repr

/-- `Instruction::isShift`. -/
def BinaryOps.isShift : BinaryOps → Bool
  | shl | lshr | ashr => true
  | _ => false

/-- The integer operations, which the IR semantics below interprets; the
floating-point ones are left opaque. -/
def BinaryOps.isInt : BinaryOps → Bool
  | fadd | fsub | fmul | fdiv | frem => false
  | _ => true

/-- `Instruction::CastOps`. -/
inductive CastOps where
  | trunc | zext | sext | fpToUI | fpToSI | uiToFP | siToFP | fpTrunc | fpExt
  | ptrToInt | intToPtr | bitCast
  deriving DecidableEq, Repr

/-- The intrinsics the core declares, with their overload type. -/
inductive Intrinsic where
  | trap
  | sqrt (t : Ty)
  | bswap (t : Ty)
  /-- `llvm.dc.translate.at`, resolved by the embedder at run time -/
  | dcTranslateAt
  /-- `llvm.dc.startinst`, `llvm.dc.getreg` and `llvm.dc.setreg`: the calls a
  register semantics in mock mode emits -/
  | dcStartInst
  | dcGetReg
  | dcSetReg
  deriving DecidableEq, Repr

/-! ## Values and instructions -/

/-- An SSA value, as the term that computes it. -/
inductive Value where
  /-- `ConstantInt` of type `iw` -/
  | constInt (w n : Nat)
  /-- the translated function's sole parameter, the register set -/
  | regSetArg
  /-- `DCModule::getOrCreateFunction(addr)` -/
  | function (addr : UInt64)
  /-- `Intrinsic::getDeclaration` -/
  | intrinsic (id : Intrinsic)
  /-- `DCRegisterSema::getOrCreateRegSetDiffFunction()` -/
  | regSetDiffFunction
  /-- the address of `__llvm_dc_current_instr`, folded to an `i64*` constant -/
  | currentInstr
  /-- register `r` as the register semantics reads it in block `bb` -/
  | reg (r : Nat) (ty : Ty) (bb : Nat)
  | binOp (op : BinaryOps) (a b : Value)
  | cast (op : CastOps) (v : Value) (ty : Ty)
  /-- a call returning a value (all such calls of the core take one argument) -/
  | call (callee arg : Value) (ty : Ty)
  | load (ty : Ty) (ptr : Value) (align : Nat)
  | alloca (ty : Ty)
  | insertElement (vec elt idx : Value)
  | extractElement (vec idx : Value)
  /-- `DCRegisterSema::insertBitsInValue(whole, part)` -/
  | insertBits (whole part : Value)
  deriving DecidableEq, Repr, Inhabited

namespace Value

/-- `Value::getType`. -/
def ty : Value → Ty
  | constInt w _ => .int w
  | regSetArg => .ptr .regSet
  | function _ | intrinsic _ | regSetDiffFunction => .ptr .fn
  | currentInstr => .ptr (.int 64)
  | reg _ t _ => t
  | binOp _ a _ => a.ty
  | cast _ _ t => t
  | call _ _ t => t
  | load t _ _ => t
  | alloca t => .ptr t
  | insertElement v _ _ => v.ty
  | extractElement v _ => v.ty.elementType
  | insertBits w _ => w.ty

/-- `isa<Constant>`: constants are folded by the builder and never inserted. -/
def isConstant : Value → Bool
  | constInt .. | function _ | intrinsic _ | regSetDiffFunction | currentInstr => true
  | binOp _ a b => a.isConstant && b.isConstant
  | cast _ v _ => v.isConstant
  | insertElement v e i => v.isConstant && e.isConstant && i.isConstant
  | extractElement v i => v.isConstant && i.isConstant
  | _ => false

@[simp] theorem ty_constInt (w n : Nat) : (constInt w n).ty = .int w := rfl

@[simp] theorem ty_binOp (op : BinaryOps) (a b : Value) : (binOp op a b).ty = a.ty := rfl

@[simp] theorem ty_cast (op : CastOps) (v : Value) (t : Ty) : (cast op v t).ty = t := rfl

@[simp] theorem ty_insertBits (w p : Value) : (insertBits w p).ty = w.ty := rfl

end Value

/-- `ConstantInt::get(Ty, V)`: the constant truncated to the integer width;
`none` where the type is not an integer type (`cast<IntegerType>` fails). -/
def ConstantInt.get : Ty → Nat → Option Value
  | .int w, n => some (.constInt w (n % 2 ^ w))
  | _, _ => none

/-- A non-terminator instruction. -/
inductive Instr where
  /-- the instruction computing `v` (its operands were emitted before it) -/
  | val (v : Value)
  | store (v ptr : Value) (align : Nat) (isVolatile : Bool)
  /-- a call whose result is unused -/
  | call (callee : Value) (args : List Value)
  | fence (ordering scope : Nat)
  /-- the code `DCRegisterSema::saveAllLocalRegs` inserts -/
  | saveAllLocalRegs
  /-- the code `DCRegisterSema::restoreLocalRegs` inserts -/
  | restoreLocalRegs
  deriving DecidableEq, Repr

/-- `call void @llvm.trap()`. -/
def trapCall : Instr := .call (.intrinsic .trap) []

/-- Whether the instruction is a call to the register-set diff function. -/
def Instr.callsRegSetDiff : Instr → Bool
  | call .regSetDiffFunction _ => true
  | val (.call .regSetDiffFunction _ _) => true
  | _ => false

/-- An instruction: a non-terminator or one of the three terminators the core emits. -/
inductive Inst where
  | instr (i : Instr)
  /-- an unconditional branch to the block with the given index -/
  | br (target : Nat)
  /-- `ret void` -/
  | ret
  | unreachable
  deriving DecidableEq, Repr

/-- `isa<TerminatorInst>`. -/
def Inst.isTerminator : Inst → Bool
  | .instr _ => false
  | _ => true

/-- Which operation of the core created a block (ghost data). -/
inductive Origin where
  | entry
  | exit
  | diffExit
  /-- `getOrCreateBasicBlock(addr)` -/
  | addr (a : UInt64)
  /-- `insertCallBB`'s call block, made while `parent` was current; `succ` is the
  block it branches to -/
  | call (parent succ : Nat)
  /-- `insertCallBB`'s successor of the call block `callBB` -/
  | callSucc (callBB : Nat)
  /-- a block index not yet used -/
  | unused
  deriving DecidableEq, Repr

/-- A basic block of the function under construction. -/
structure BasicBlock where
  name : String
  insts : List Inst
  origin : Origin
  deriving DecidableEq, Repr

instance : Inhabited BasicBlock := ⟨⟨"", [], .unused⟩⟩

/-- `BasicBlock::getTerminator`: the last instruction, if it is a terminator. -/
def BasicBlock.getTerminator (bb : BasicBlock) : Option Inst :=
  bb.insts.getLast?.filter Inst.isTerminator

end Dagger
