import Dagger.IR.Semantics

/-!
# What the translator is given

Everything `DCFunction` reads but never writes:

* the decoded machine code (`MCDecodedInst`, `MCBasicBlock`), as the decoder
  hands it over;
* the semantic tables — `OpcodeToSemaIdx`, `SemanticsArray`, `ConstantArray` —
  and the numbering of the opcodes, value types and predicates written in them;
* the static part of the register semantics (which register is the PC, the IR
  type of each register), and the IR it inserts of its own;
* the three command-line policies;
* the target hooks.

The numbering of LLVM's `ISD` opcodes, of the `DCINS` pseudo-opcodes and of the
`MVT` tags lives in headers outside this repository, so it is a parameter: a
decoding of raw tokens into the opcodes `translateOpcode` distinguishes.

A target hook is target code with access to the core's protected interface. It
is modelled as a program over that interface (`Hook`), a free monad whose
operations are exactly the ones the core offers — read a tape token or operand,
push a result, read or write a register, emit an instruction, insert a call,
branch to the block at an address or to the exit block.
-/

namespace Dagger

/-! ## Decoded machine code -/

/-- `MCOperand`. -/
inductive MCOperand where
  | reg (r : Nat)
  | imm (v : Int)
  | other
  deriving DecidableEq, Repr

/-- `MCInst`: the target opcode and its operands. -/
structure MCInst where
  opcode : UInt32
  operands : List MCOperand
  deriving DecidableEq, Repr

/-- Modelled from the spec: `MCDecodedInst` (its header is not in this repository),
`{ address: u64, size: u8, mc_opcode: u32, operands: [MCOperand] }`. -/
structure MCDecodedInst where
  address : UInt64
  size : UInt8
  inst : MCInst
  deriving DecidableEq, Repr

/-- An `MCBasicBlock`: its code range and its decoded instructions. -/
structure MCBasicBlock where
  startAddr : UInt64
  endAddr : UInt64
  insts : List MCDecodedInst
  deriving DecidableEq, Repr

/-! ## The semantic tables -/

/-- A token of the semantics array read as an opcode: the `ISD` opcodes
`translateOpcode` handles, the `DCINS` pseudo-opcodes, a number in the target
range `[BUILTIN_OP_END, DC_OPCODE_START)`, or anything else. -/
inductive SemaOpcode where
  | add | fadd | sub | fsub | mul | fmul | udiv | sdiv | fdiv | urem | srem | frem
  | shl | srl | sra | and | or | xor
  | truncate | bitcast | zeroExtend | signExtend | fpToUint | fpToSint | uintToFp | sintToFp
  | fpRound | fpExtend
  | fsqrt | rotl | insertVectorElt | extractVectorElt | smulLohi | umulLohi
  | load | store | brind | br | trap | bswap | atomicFence
  | endOfInstruction | putRC | putReg | getRC | getReg | customOp | complexPattern
  | predicate | constantOp | movConstant | implicit
  | target
  | other
  deriving DecidableEq, Repr

/-- `TargetOpcode::Predicate`. -/
inductive Predicate where
  | memop | loadi16 | loadi32 | alignedload | alignedload256 | alignedload512 | load
  | alignednontemporalstore | nontemporalstore | alignedstore | alignedstore256
  | alignedstore512 | store
  | zextloadi8 | zextloadi16 | sextloadi8 | sextloadi16 | sextloadi32
  | andSu
  | other
  deriving DecidableEq, Repr

/-- The three arrays the table generator emits, and the numbering of their tokens. -/
structure SemaTables where
  /-- `OpcodeToSemaIdx`: start of each target opcode's semantics, `~0U` if none -/
  opcodeToSemaIdx : Nat → Nat
  semanticsArray : List Nat
  constantArray : Nat → UInt64
  /-- the numbering of `ISD` and `DCINS` opcodes -/
  opcode : Nat → SemaOpcode
  /-- the numbering of `MVT` tags -/
  valueType : Nat → EVT
  /-- the numbering of `TargetOpcode::Predicate` -/
  predicate : Nat → Predicate

/-- `~0U`, the index of an opcode that has no semantics. -/
def noSemantics : Nat := 0xFFFFFFFF

/-- The static part of the register semantics. -/
structure RegisterInfo where
  /-- `MRI.getProgramCounter()` -/
  programCounter : Nat
  /-- `DCRegisterSema::getRegType` -/
  regType : Nat → Ty

/-- Modelled from the spec: the IR the register semantics, an object of the
target's, inserts at the end of its current block when it is told of a new
instruction and when a register is read (given the value read) or written.
Nothing for one that keeps registers as SSA values; the calls of
`-enable-dc-reg-mock-intrin` (`llvm.dc.startinst`, `llvm.dc.getreg`,
`llvm.dc.setreg`) in mock mode. It is free but for what the core relies on: all
of it are non-terminators, and none of it calls the register-set diff function. -/
structure RegSemaCode where
  switchToInst : MCDecodedInst → List Instr
  getReg : Nat → Value → List Instr
  setReg : Nat → Value → List Instr
  switchToInst_plain : ∀ i, ∀ x ∈ switchToInst i, x.callsRegSetDiff = false
  getReg_plain : ∀ r v, ∀ x ∈ getReg r v, x.callsRegSetDiff = false
  setReg_plain : ∀ r v, ∀ x ∈ setReg r v, x.callsRegSetDiff = false

/-- A register semantics that inserts no IR of its own. -/
def RegSemaCode.silent : RegSemaCode where
  switchToInst _ := []
  getReg _ _ := []
  setReg _ _ := []
  switchToInst_plain _ _ h := nomatch h
  getReg_plain _ _ _ h := nomatch h
  setReg_plain _ _ _ h := nomatch h

/-- Modelled from the lit test: mock mode, one intrinsic call per notification and
register access, the register as a number in place of its name's metadata. The
lit test elides the arguments of `llvm.dc.startinst`. -/
def RegSemaCode.mock : RegSemaCode where
  switchToInst _ := [.call (.intrinsic .dcStartInst) []]
  getReg r v := [.val (.call (.intrinsic .dcGetReg) (.constInt 32 r) v.ty)]
  setReg r v := [.call (.intrinsic .dcSetReg) [v, .constInt 32 r]]
  switchToInst_plain _ _ h := by simp_all [Instr.callsRegSetDiff]
  getReg_plain _ _ _ h := by simp_all [Instr.callsRegSetDiff]
  setReg_plain _ _ _ h := by simp_all [Instr.callsRegSetDiff]

/-- The policies set on the command line. -/
structure Options where
  /-- `-enable-dc-regset-diff` -/
  enableRegSetDiff : Bool
  /-- `-enable-dc-pc-save` -/
  enableInstAddrSave : Bool
  /-- `-dc-translate-unknown-to-undef` -/
  translateUnknownToUndef : Bool

/-! ## Target hooks -/

/-- A target hook as a program over the core's protected interface. It ends with
`done none` to decline or fail, and with `done (some v)` to succeed. -/
inductive Hook where
  | done (res : Option Value)
  /-- `Next()` -/
  | next (k : Nat → Hook)
  /-- `getNextOperand()` -/
  | operand (k : Value → Hook)
  /-- `registerResult(v)` -/
  | result (v : Value) (k : Hook)
  | getReg (r : Nat) (k : Value → Hook)
  | setReg (r : Nat) (v : Value) (k : Hook)
  /-- `Builder->Insert(i)`; the register-set diff function is the register
  semantics' own, never called by target code -/
  | emit (i : Instr) (plain : i.callsRegSetDiff = false) (k : Hook)
  /-- `insertCall(target)` -/
  | call (target : Value) (k : Hook)
  /-- `Builder->CreateBr(getOrCreateBasicBlock(addr))` -/
  | br (addr : UInt64) (k : Hook)
  /-- `Builder->CreateBr(ExitBB)` -/
  | brExit (k : Hook)

/-- `DCFunction::translateComplexPattern`: the core's own version declines every
pattern. -/
def translateComplexPattern (_pattern : Nat) (_inst : MCDecodedInst) : Hook :=
  .done none

/-- The hooks a target provides. -/
structure TargetHooks where
  translateTargetInst : MCDecodedInst → Hook
  translateTargetOpcode : Nat → MCDecodedInst → Hook
  translateComplexPattern : Nat → MCDecodedInst → Hook := Dagger.translateComplexPattern
  translateCustomOperand : Nat → Nat → MCDecodedInst → Hook
  translateImplicit : Nat → MCDecodedInst → Hook

/-- A target that declines every hook: all of its instructions go through the
semantics tables. -/
def TargetHooks.declineAll : TargetHooks where
  translateTargetInst _ := .done none
  translateTargetOpcode _ _ := .done none
  translateCustomOperand _ _ _ := .done none
  translateImplicit _ _ := .done none

/-- Everything the translation of one function reads. -/
structure Config where
  tables : SemaTables
  regs : RegisterInfo
  opts : Options
  hooks : TargetHooks
  rsi : RegSemaCode

end Dagger
