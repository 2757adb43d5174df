import Dagger.Tables

/-!
# The state of a function translation

`DCFunction` as a record: the IR function under construction (`blocks`), the
members of the C++ class, the register semantics' per-block state, and three
ghost fields that record what the C++ leaves implicit — the trace of
interactions, the addresses opened so far, and the blocks ending in a tail call.

On top of the record, the primitive operations everything else is written with:

* appending an instruction to a block, and the core's `IRBuilder`, which appends
  at the end of its insertion block, folds constants (`Value.fold`) and records
  each insertion in the trace;
* the register semantics (`DRS`): a cache of the registers written in its
  current block, the notifications it receives, and the IR it inserts of its
  own, a parameter (`RegSemaCode`) but for the casts `getRegAsInt` and
  `insertBitsInValue` compute;
* the tape reader: `Next`, `NextVT`, the value stack, the operand accessors.
-/

namespace Dagger

/-- One interaction of the core with its collaborators. -/
inductive Event where
  /-- `DRS.SwitchToInst` -/
  | switchToInst (addr : UInt64)
  /-- `DRS.SwitchToBasicBlock` -/
  | switchToBasicBlock (bb : Nat)
  /-- `DRS.FinalizeBasicBlock` -/
  | finalizeBasicBlock
  /-- `DRS.FinalizeFunction` -/
  | finalizeFunction (bb : Nat)
  /-- `getReg(r)` returned `v` -/
  | getReg (r : Nat) (v : Value)
  /-- `setReg(r, v)` -/
  | setReg (r : Nat) (v : Value)
  /-- the core's `Builder` inserted `i` at the end of block `bb` -/
  | insert (bb : Nat) (i : Inst)
  deriving DecidableEq, Repr

/-- The state of a `DCFunction`. -/
structure DCFunction where
  /-- the blocks of `TheFunction`, by creation index -/
  blocks : Nat → BasicBlock
  numBlocks : Nat
  bbByAddr : UInt64 → Option Nat
  exitBB : Nat
  callBBs : List Nat
  theBB : Option Nat
  theMCBB : Option MCBasicBlock
  /-- the block at whose end `Builder` inserts -/
  insertPt : Nat
  idx : Nat
  resEVT : EVT
  /-- `Vals`, top of the stack first -/
  vals : List Value
  currentInst : Option MCDecodedInst
  /-- the register semantics' values of registers written in its current block -/
  regVals : Nat → Option Value
  /-- the register semantics' current block -/
  rsiBB : Nat
  /-- ghost: the interactions so far, oldest first -/
  trace : List Event
  /-- ghost: the addresses opened by `SwitchToBasicBlock` -/
  opened : List UInt64
  /-- ghost: the blocks `createExternalTailCallBB` ends with `ret` -/
  tailCalls : List Nat

namespace DCFunction

/-- The state before the constructor runs: an empty function. -/
def empty : DCFunction where
  blocks := fun _ => default
  numBlocks := 0
  bbByAddr := fun _ => none
  exitBB := 0
  callBBs := []
  theBB := none
  theMCBB := none
  insertPt := 0
  idx := 0
  resEVT := .invalid
  vals := []
  currentInst := none
  regVals := fun _ => none
  rsiBB := 0
  trace := []
  opened := []
  tailCalls := []

variable (s : DCFunction)

/-- `BasicBlock::Create(Ctx, name, TheFunction)`: a new empty block at the end. -/
def createBlock (name : String) (o : Origin) : Nat × DCFunction :=
  (s.numBlocks, { s with
    blocks := Function.update s.blocks s.numBlocks ⟨name, [], o⟩
    numBlocks := s.numBlocks + 1 })

/-- Change the instruction list of block `bb`. -/
def modifyInsts (bb : Nat) (f : List Inst → List Inst) : DCFunction :=
  { s with blocks := Function.update s.blocks bb { s.blocks bb with insts := f (s.blocks bb).insts } }

/-- Append `i` at the end of `bb`, as `XInst::Create(.., bb)` or a builder
positioned there does. -/
def appendInst (bb : Nat) (i : Inst) : DCFunction := s.modifyInsts bb (· ++ [i])

/-- The core's `Builder->Insert(i)`: append at the insertion point, recorded. -/
def insert (i : Inst) : DCFunction :=
  { s.appendInst s.insertPt i with trace := s.trace ++ [.insert s.insertPt i] }

/-- Record an interaction. -/
def log (e : Event) : DCFunction := { s with trace := s.trace ++ [e] }

@[simp] theorem createBlock_fst (n : String) (o : Origin) : (s.createBlock n o).1 = s.numBlocks := rfl

end DCFunction

/-! ## The core's `IRBuilder` -/

namespace Builder

variable (s : DCFunction)

/-- Build `v`: a constant is folded and not inserted, anything else becomes an
instruction at the insertion point. -/
def create (v : Value) : Value × DCFunction :=
  if v.isConstant then (v.fold, s) else (v, s.insert (.instr (.val v)))

/-- `CreateBinOp` (and `CreateAdd`, `CreateSub`, ...). -/
def createBinOp (op : BinaryOps) (a b : Value) : Value × DCFunction := create s (.binOp op a b)

/-- `CreateCast`: a cast to the value's own type is the value itself. -/
def createCast (op : CastOps) (v : Value) (t : Ty) : Value × DCFunction :=
  if v.ty = t then (v, s) else create s (.cast op v t)

/-- `CreateBitOrPointerCast`. -/
def createBitOrPointerCast (v : Value) (t : Ty) : Value × DCFunction :=
  if v.ty = t then (v, s)
  else if v.ty.isPointerTy && t.isIntegerTy then createCast s .ptrToInt v t
  else if v.ty.isIntegerTy && t.isPointerTy then createCast s .intToPtr v t
  else createCast s .bitCast v t

/-- `CreateCall` of a function returning a value. -/
def createCall (callee arg : Value) (t : Ty) : Value × DCFunction :=
  (.call callee arg t, s.insert (.instr (.val (.call callee arg t))))

/-- `CreateCall` of a function returning `void`. -/
def createCallVoid (callee : Value) (args : List Value) : DCFunction :=
  s.insert (.instr (.call callee args))

/-- `CreateLoad` / `CreateAlignedLoad` (alignment `0` is the ABI default). -/
def createLoad (t : Ty) (ptr : Value) (align : Nat) : Value × DCFunction :=
  (.load t ptr align, s.insert (.instr (.val (.load t ptr align))))

/-- `CreateStore` / `CreateAlignedStore`. -/
def createStore (v ptr : Value) (align : Nat) (isVolatile : Bool) : DCFunction :=
  s.insert (.instr (.store v ptr align isVolatile))

/-- `CreateAlloca`. -/
def createAlloca (t : Ty) : Value × DCFunction :=
  (.alloca t, s.insert (.instr (.val (.alloca t))))

/-- `CreateFence`. -/
def createFence (ordering scope : Nat) : DCFunction := s.insert (.instr (.fence ordering scope))

/-- `CreateBr`. -/
def createBr (bb : Nat) : DCFunction := s.insert (.br bb)

/-- `CreateRetVoid`. -/
def createRetVoid : DCFunction := s.insert .ret

/-- `CreateUnreachable`. -/
def createUnreachable : DCFunction := s.insert .unreachable

end Builder

/-! ## The register semantics -/

namespace DRS

variable (cfg : Config) (s : DCFunction)

/-- The register semantics appends `code` to its current block. -/
@[reducible] def emit (code : List Instr) : DCFunction := s.modifyInsts s.rsiBB (· ++ code.map .instr)

/-- Modelled from the spec: `DRS.SwitchToInst`, a notification, answered with the
register semantics' code for the new instruction. -/
def switchToInst (i : MCDecodedInst) : DCFunction :=
  emit (s.log (.switchToInst i.address)) (cfg.rsi.switchToInst i)

/-- Modelled from the spec: `DRS.SwitchToBasicBlock`: the register values of the
previous block are forgotten. -/
def switchToBasicBlock (bb : Nat) : DCFunction :=
  { s.log (.switchToBasicBlock bb) with regVals := fun _ => none, rsiBB := bb }

/-- Modelled from the spec: `DRS.FinalizeBasicBlock`, a notification. -/
def finalizeBasicBlock : DCFunction := s.log .finalizeBasicBlock

/-- Modelled from the spec: `DRS.FinalizeFunction`, a notification. -/
def finalizeFunction (bb : Nat) : DCFunction := s.log (.finalizeFunction bb)

/-- Modelled from the spec: `getReg(r)` gives the value last written to `r` in the
current block, and otherwise the register as the block found it. -/
def getReg (r : Nat) : Value × DCFunction :=
  let v := (s.regVals r).getD (.reg r (cfg.regs.regType r) s.rsiBB)
  (v, emit (s.log (.getReg r v)) (cfg.rsi.getReg r v))

/-- Modelled from the spec: `setReg(r, v)`. -/
def setReg (r : Nat) (v : Value) : DCFunction :=
  emit { s.log (.setReg r v) with regVals := Function.update s.regVals r (some v) } (cfg.rsi.setReg r v)

/-- Modelled from the spec: `getRegIntType(r)`, the integer type as wide as `r`. -/
def getRegIntType (r : Nat) : Ty := .int (cfg.regs.regType r).primitiveSizeInBits

/-- The register semantics builds `v` at the end of its own current block. -/
def create (v : Value) : Value × DCFunction :=
  if v.isConstant then (v.fold, s) else (v, s.appendInst s.rsiBB (.instr (.val v)))

/-- Modelled from the spec: `getRegAsInt(r)`, the register bit-cast to its integer type. -/
def getRegAsInt (r : Nat) : Value × DCFunction :=
  let (v, s) := getReg cfg s r
  if v.ty = getRegIntType cfg r then (v, s) else create s (.cast .bitCast v (getRegIntType cfg r))

/-- Modelled from the spec: `insertBitsInValue(whole, part)`, `whole` with its low
bits replaced by `part`. -/
def insertBitsInValue (whole part : Value) : Value × DCFunction := create s (.insertBits whole part)

/-- Insert `code` before position `i` of block `bb`. -/
def insertBefore (bb i : Nat) (code : List Inst) : DCFunction :=
  s.modifyInsts bb fun l => l.take i ++ code ++ l.drop i

/-- Modelled from the spec: `saveAllLocalRegs(BB, I)` inserts its code before `I`. -/
def saveAllLocalRegs (bb i : Nat) : DCFunction := insertBefore s bb i [.instr .saveAllLocalRegs]

/-- Modelled from the spec: `restoreLocalRegs(BB, I)` inserts its code before `I`. -/
def restoreLocalRegs (bb i : Nat) : DCFunction := insertBefore s bb i [.instr .restoreLocalRegs]

@[simp] theorem emit_nil : emit s [] = s := by
  simp [emit, DCFunction.modifyInsts]

theorem emit_cons (i : Instr) (code : List Instr) :
    emit s (i :: code) = emit (s.appendInst s.rsiBB (.instr i)) code := by
  simp [emit, DCFunction.appendInst, DCFunction.modifyInsts]

end DRS

/-! ## Reading the tape -/

section Tape

variable (cfg : Config) (s : DCFunction)

/-- Modelled from the spec: `Next()`, `SemanticsArray[Idx++]`; reading past the end
is undefined, here `none`. -/
def next : Option (Nat × DCFunction) :=
  (cfg.tables.semanticsArray.get? s.idx).map fun t => (t, { s with idx := s.idx + 1 })

/-- Modelled from the spec: `NextVT()`, a value-type tag. -/
def nextVT : Option (EVT × DCFunction) :=
  (next cfg s).map fun (t, s) => (cfg.tables.valueType t, s)

/-- Modelled from the spec: `getNextOperand()` pops the value stack. -/
def getNextOperand : Option (Value × DCFunction) :=
  match s.vals with
  | v :: vs => some (v, { s with vals := vs })
  | [] => none

/-- Modelled from the spec: `registerResult(v)` pushes on the value stack. -/
def registerResult (v : Value) : DCFunction := { s with vals := v :: s.vals }

/-- Modelled from the spec: `getRegOp(n)`, the register of operand `n` of the
current instruction. -/
def getRegOp (n : Nat) : Option Nat :=
  match s.currentInst.bind fun i => i.inst.operands.get? n with
  | some (.reg r) => some r
  | _ => none

/-- Modelled from the spec: `getImmOp(n)`, the immediate of operand `n`. -/
def getImmOp (n : Nat) : Option Int :=
  match s.currentInst.bind fun i => i.inst.operands.get? n with
  | some (.imm v) => some v
  | _ => none

/-- The type of the current result, `ResEVT.getTypeForEVT(Ctx)`. -/
def resType : Option Ty := s.resEVT.getTypeForEVT

end Tape

end Dagger
