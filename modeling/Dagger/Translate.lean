import Dagger.Function

/-!
# The semantics interpreter

`DCFunction::translateInst` and everything below it, `lib/DC/DCFunction.cpp`
lines 232–694: the instruction is offered to the target, then its semantics are
read off the tape one opcode at a time, each opcode popping its operands off the
value stack, emitting IR through the builder and pushing its results.

`translateOpcode` follows the C++ `switch` case by case. The cases the results
are about have their own definitions: `translateRotl`, `translateMulLoHi` (both
`SMUL_LOHI` and `UMUL_LOHI`, which differ only in the extension), and the
register-class accessors `putRC` / `getRC` behind `PUT_RC` / `GET_RC`.

The loop over the tape is given `fuel`: each round reads at least the opcode
token, so no instruction's semantics can take more rounds than the tape has
tokens, and `tryTranslateInst` passes that many.
-/

namespace Dagger

variable (cfg : Config)

/-- Run a target hook against the core's interface. -/
def runHook : Hook → DCFunction → Option (Option Value × DCFunction)
  | .done r, s => some (r, s)
  | .next k, s => (next cfg s).bind fun (t, s) => runHook (k t) s
  | .operand k, s => (getNextOperand s).bind fun (v, s) => runHook (k v) s
  | .result v k, s => runHook k (registerResult s v)
  | .getReg r k, s => runHook (k (DRS.getReg cfg s r).1) (DRS.getReg cfg s r).2
  | .setReg r v k, s => runHook k (DRS.setReg cfg s r v)
  | .emit i _ k, s => runHook k (s.insert (.instr i))
  | .call t k, s => (insertCall t s).bind (runHook k)
  | .br a k, s => runHook k (Builder.createBr (getOrCreateBasicBlock a s).2 (getOrCreateBasicBlock a s).1)
  | .brExit k, s => runHook k (Builder.createBr s s.exitBB)

/-- A hook's result as the `bool` the C++ hook returns. -/
def runBoolHook (h : Hook) (s : DCFunction) : Option (Bool × DCFunction) :=
  (runHook cfg h s).map fun (r, s) => (r.isSome, s)

/-- A successful case of `translateOpcode`. -/
def ok (s : Option DCFunction) : Option (Bool × DCFunction) := s.map fun s => (true, s)

/-- `DCFunction::translateBinOp`. -/
def translateBinOp (opc : BinaryOps) (s : DCFunction) : Option DCFunction := do
  let (v1, s) ← getNextOperand s
  let (v2, s) ← getNextOperand s
  let (v2, s) := if opc.isShift && v2.ty != v1.ty then Builder.createCast s .zext v2 v1.ty else (v2, s)
  let (r, s) := Builder.createBinOp s opc v1 v2
  pure (registerResult s r)

/-- `DCFunction::translateCastOp`. -/
def translateCastOp (opc : CastOps) (s : DCFunction) : Option DCFunction := do
  let resTy ← resType s
  let (v, s) ← getNextOperand s
  let (r, s) := Builder.createCast s opc v resTy
  pure (registerResult s r)

/-- The `ISD::ROTL` case: `(LHS << RHS) | (LHS >> (width - RHS))`. -/
def translateRotl (s : DCFunction) : Option DCFunction := do
  let (lhs, s) ← getNextOperand s
  let ty := lhs.ty
  guard ty.isIntegerTy
  let (r, s) ← getNextOperand s
  let (rhs, s) := Builder.createCast s .zext r ty
  let (shl, s) := Builder.createBinOp s .shl lhs rhs
  let width ← ConstantInt.get ty ty.primitiveSizeInBits
  let (sub, s) := Builder.createBinOp s .sub width rhs
  let (lshr, s) := Builder.createBinOp s .lshr lhs sub
  let (res, s) := Builder.createBinOp s .or shl lshr
  pure (registerResult s res)

/-- `cast<IntegerType>`: the width of an integer type. -/
def intWidth : Option Ty → Option Nat
  | some (.int w) => some w
  | _ => none

/-- The `ISD::SMUL_LOHI` (`ext = sext`) and `ISD::UMUL_LOHI` (`ext = zext`) cases:
the full product at width `lo + hi`, then its low and high parts as two results. -/
def translateMulLoHi (ext : CastOps) (s : DCFunction) : Option DCFunction := do
  let (re2, s) ← nextVT cfg s
  let lo ← intWidth (resType s)
  let hi ← intWidth re2.getTypeForEVT
  let resTy := Ty.int (lo + hi)
  let (a, s) ← getNextOperand s
  let (op1, s) := Builder.createCast s ext a resTy
  let (b, s) ← getNextOperand s
  let (op2, s) := Builder.createCast s ext b resTy
  let (full, s) := Builder.createBinOp s .mul op1 op2
  let (loV, s) := Builder.createCast s .trunc full (.int lo)
  let s := registerResult s loV
  let (sh, s) := Builder.createBinOp s .lshr full (.constInt (lo + hi) (lo % 2 ^ (lo + hi)))
  let (hiV, s) := Builder.createCast s .trunc sh (.int hi)
  pure (registerResult s hiV)

/-- The body of `DCINS::PUT_RC` once the register and the value are known: make
the value an integer as wide as the register, then write it. -/
def putRC (regNo : Nat) (res : Value) (s : DCFunction) : Option DCFunction := do
  let regType := DRS.getRegIntType cfg regNo
  let (res, s) := if res.ty.isPointerTy then Builder.createCast s .ptrToInt res regType else (res, s)
  let (res, s) :=
    if !res.ty.isIntegerTy then Builder.createCast s .bitCast res (.int res.ty.primitiveSizeInBits)
    else (res, s)
  let (res, s) :=
    if res.ty.primitiveSizeInBits < regType.primitiveSizeInBits then
      let (whole, s) := DRS.getRegAsInt cfg s regNo
      DRS.insertBitsInValue s whole res
    else (res, s)
  guard (res.ty = regType)
  pure (DRS.setReg cfg s regNo res)

/-- The body of `DCINS::GET_RC` once the register is known: the register as an
integer, truncated to the result's width and bit-cast to the result type. -/
def getRC (resTy : Ty) (regNo : Nat) (s : DCFunction) : Value × DCFunction :=
  let (reg, s) := DRS.getRegAsInt cfg s regNo
  let (reg, s) :=
    if resTy.primitiveSizeInBits < reg.ty.primitiveSizeInBits then
      Builder.createCast s .trunc reg (.int resTy.primitiveSizeInBits)
    else (reg, s)
  if !resTy.isIntegerTy then Builder.createCast s .bitCast reg resTy else (reg, s)

/-- `DCFunction::translateExtLoad`. -/
def translateExtLoad (memTy : Ty) (isSExt : Bool) (s : DCFunction) : Option DCFunction := do
  let (ptr, s) ← getNextOperand s
  let (ptr, s) := Builder.createBitOrPointerCast s ptr (.ptr memTy)
  let (v, s) := Builder.createLoad s memTy ptr 0
  let resTy ← resType s
  let (r, s) := Builder.createCast s (if isSExt then .sext else .zext) v resTy
  pure (registerResult s r)

/-- The `ISD::LOAD` case: the operand becomes a pointer to the result type, and
is loaded with alignment 1. -/
def translateLoad (s : DCFunction) : Option DCFunction := do
  let resTy ← resType s
  let resPtrTy := Ty.ptr resTy
  let (ptr, s) ← getNextOperand s
  let (ptr, s) :=
    if !ptr.ty.isPointerTy then Builder.createCast s .intToPtr ptr resPtrTy
    else if ptr.ty != resPtrTy then Builder.createCast s .bitCast ptr resPtrTy
    else (ptr, s)
  let (v, s) := Builder.createLoad s ptr.ty.pointee ptr 1
  pure (registerResult s v)

/-- The `ISD::STORE` case: the pointer operand becomes a pointer to the value's
type, and the value is stored with alignment 1. -/
def translateStore (s : DCFunction) : Option DCFunction := do
  let (val, s) ← getNextOperand s
  let (ptr, s) ← getNextOperand s
  let valPtrTy := Ty.ptr val.ty
  let ptrTy := ptr.ty
  let (ptr, s) :=
    if !ptrTy.isPointerTy then Builder.createCast s .intToPtr ptr valPtrTy
    else if ptrTy != valPtrTy then Builder.createCast s .bitCast ptr valPtrTy
    else (ptr, s)
  pure (Builder.createStore s val ptr 1 false)

/-- `DCFunction::translatePredicate`. -/
def translatePredicate (pred : Nat) (s : DCFunction) : Option (Bool × DCFunction) :=
  match cfg.tables.predicate pred with
  | .memop | .loadi16 | .loadi32 | .alignedload | .alignedload256 | .alignedload512 | .load =>
    ok do
      let resTy ← resType s
      let resPtrTy := Ty.ptr resTy
      let (ptr, s) ← getNextOperand s
      let (ptr, s) :=
        if !ptr.ty.isPointerTy then Builder.createCast s .intToPtr ptr resPtrTy
        else if ptr.ty != resPtrTy then Builder.createCast s .bitCast ptr resPtrTy
        else (ptr, s)
      let (v, s) := Builder.createLoad s ptr.ty.pointee ptr 1
      pure (registerResult s v)
  | .alignednontemporalstore | .nontemporalstore | .alignedstore | .alignedstore256
  | .alignedstore512 | .store =>
    ok do
      let (val, s) ← getNextOperand s
      let (ptr, s) ← getNextOperand s
      let valPtrTy := Ty.ptr val.ty
      let ptrTy := ptr.ty
      let (ptr, s) :=
        if !ptrTy.isPointerTy then Builder.createCast s .intToPtr ptr valPtrTy
        else if ptrTy != valPtrTy then Builder.createCast s .bitCast ptr valPtrTy
        else (ptr, s)
      pure (Builder.createStore s val ptr 1 false)
  | .zextloadi8 => ok (translateExtLoad (.int 8) false s)
  | .zextloadi16 => ok (translateExtLoad (.int 16) false s)
  | .sextloadi8 => ok (translateExtLoad (.int 8) true s)
  | .sextloadi16 => ok (translateExtLoad (.int 16) true s)
  | .sextloadi32 => ok (translateExtLoad (.int 32) true s)
  | .andSu => ok (translateBinOp .and s)
  | .other => some (false, s)

/-- `AtomicOrdering::NotAtomic`. -/
def notAtomic : Nat := 0

/-- `AtomicOrdering::SequentiallyConsistent`. -/
def sequentiallyConsistent : Nat := 7

/-- `SynchronizationScope::SingleThread`. -/
def singleThread : Nat := 0

/-- `SynchronizationScope::CrossThread`. -/
def crossThread : Nat := 1

/-- `cast<ConstantInt>(V)->getZExtValue()`. -/
def zextValue : Value → Option Nat
  | .constInt _ n => if n < 2 ^ 64 then some n else none
  | _ => none

/-- `DCFunction::translateOpcode`: one semantic opcode, its value type first. -/
def translateOpcode (opcode : Nat) (s : DCFunction) : Option (Bool × DCFunction) := do
  let (vt, s) ← nextVT cfg s
  let s := { s with resEVT := vt }
  let inst ← s.currentInst
  match cfg.tables.opcode opcode with
  | .target => runBoolHook cfg (cfg.hooks.translateTargetOpcode opcode inst) s
  | .add => ok (translateBinOp .add s)
  | .fadd => ok (translateBinOp .fadd s)
  | .sub => ok (translateBinOp .sub s)
  | .fsub => ok (translateBinOp .fsub s)
  | .mul => ok (translateBinOp .mul s)
  | .fmul => ok (translateBinOp .fmul s)
  | .udiv => ok (translateBinOp .udiv s)
  | .sdiv => ok (translateBinOp .sdiv s)
  | .fdiv => ok (translateBinOp .fdiv s)
  | .urem => ok (translateBinOp .urem s)
  | .srem => ok (translateBinOp .srem s)
  | .frem => ok (translateBinOp .frem s)
  | .shl => ok (translateBinOp .shl s)
  | .srl => ok (translateBinOp .lshr s)
  | .sra => ok (translateBinOp .ashr s)
  | .and => ok (translateBinOp .and s)
  | .or => ok (translateBinOp .or s)
  | .xor => ok (translateBinOp .xor s)
  | .truncate => ok (translateCastOp .trunc s)
  | .bitcast => ok (translateCastOp .bitCast s)
  | .zeroExtend => ok (translateCastOp .zext s)
  | .signExtend => ok (translateCastOp .sext s)
  | .fpToUint => ok (translateCastOp .fpToUI s)
  | .fpToSint => ok (translateCastOp .fpToSI s)
  | .uintToFp => ok (translateCastOp .uiToFP s)
  | .sintToFp => ok (translateCastOp .siToFP s)
  | .fpRound => ok (translateCastOp .fpTrunc s)
  | .fpExtend => ok (translateCastOp .fpExt s)
  | .fsqrt => ok do
    let (v, s) ← getNextOperand s
    let (r, s) := Builder.createCall s (.intrinsic (.sqrt v.ty)) v v.ty
    pure (registerResult s r)
  | .rotl => ok (translateRotl s)
  | .insertVectorElt => ok do
    let (vec, s) ← getNextOperand s
    let (val, s) ← getNextOperand s
    let (idx, s) ← getNextOperand s
    let (r, s) := Builder.create s (.insertElement vec val idx)
    pure (registerResult s r)
  | .extractVectorElt => ok do
    let (val, s) ← getNextOperand s
    let (idx, s) ← getNextOperand s
    let (r, s) := Builder.create s (.extractElement val idx)
    pure (registerResult s r)
  | .smulLohi => ok (translateMulLoHi cfg .sext s)
  | .umulLohi => ok (translateMulLoHi cfg .zext s)
  | .load => ok (translateLoad s)
  | .store => ok (translateStore s)
  | .brind => ok do
    let (op1, s) ← getNextOperand s
    let s := DRS.setReg cfg s cfg.regs.programCounter op1
    let s ← insertCall op1 s
    pure (Builder.createBr s s.exitBB)
  | .br => ok do
    let (op1, s) ← getNextOperand s
    let target ← zextValue op1
    let s := DRS.setReg cfg s cfg.regs.programCounter op1
    let (bb, s) := getOrCreateBasicBlock (UInt64.ofNat target) s
    pure (Builder.createBr s bb)
  | .trap => ok (some (Builder.createCallVoid s (.intrinsic .trap) []))
  | .putRC => ok do
    let (miOperandNo, s) ← next cfg s
    let regNo ← getRegOp s miOperandNo
    let (res, s) ← getNextOperand s
    putRC cfg regNo res s
  | .putReg => ok do
    let (regNo, s) ← next cfg s
    let (res, s) ← getNextOperand s
    pure (DRS.setReg cfg s regNo res)
  | .getRC => ok do
    let (miOperandNo, s) ← next cfg s
    let resTy ← resType s
    let regNo ← getRegOp s miOperandNo
    let (reg, s) := getRC cfg resTy regNo s
    pure (registerResult s reg)
  | .getReg => ok do
    let (regNo, s) ← next cfg s
    let (v, s) := DRS.getReg cfg s regNo
    pure (registerResult s v)
  | .customOp => do
    let (operandType, s) ← next cfg s
    let (miOperandNo, s) ← next cfg s
    let (op, s) ← runHook cfg (cfg.hooks.translateCustomOperand operandType miOperandNo inst) s
    match op with
    | some v => pure (true, registerResult s v)
    | none => pure (false, s)
  | .complexPattern => do
    let (pattern, s) ← next cfg s
    let (op, s) ← runHook cfg (cfg.hooks.translateComplexPattern pattern inst) s
    match op with
    | some v => pure (true, registerResult s v)
    | none => pure (false, s)
  | .predicate => do
    let (pred, s) ← next cfg s
    translatePredicate cfg pred s
  | .constantOp => ok do
    let (miOperandNo, s) ← next cfg s
    let resTy ← resType s
    let w ← intWidth resTy
    let imm ← getImmOp s miOperandNo
    pure (registerResult s (.constInt w ((imm % 2 ^ 64).toNat % 2 ^ w)))
  | .movConstant => ok do
    let (valIdx, s) ← next cfg s
    let resTy ← if s.resEVT = .iPTR then some (Ty.int 64) else resType s
    let c ← ConstantInt.get resTy (cfg.tables.constantArray valIdx).toNat
    pure (registerResult s c)
  | .implicit => do
    let (regNo, s) ← next cfg s
    let (_, s) ← runHook cfg (cfg.hooks.translateImplicit regNo inst) s
    pure (true, s)
  | .bswap => ok do
    let resTy ← resType s
    let (op, s) ← getNextOperand s
    let (r, s) := Builder.createCall s (.intrinsic (.bswap resTy)) op resTy
    pure (registerResult s r)
  | .atomicFence => ok do
    let (ord, s) ← getNextOperand s
    let ordV ← zextValue ord
    let (scope, s) ← getNextOperand s
    let scopeV ← zextValue scope
    guard (notAtomic < ordV ∧ ordV ≤ sequentiallyConsistent)
    guard (scopeV = singleThread ∨ scopeV = crossThread)
    pure (Builder.createFence s ordV scopeV)
  | .endOfInstruction | .other => some (false, s)

/-- The loop of `tryTranslateInst` over the tape, until `END_OF_INSTRUCTION`. -/
def translateLoop : Nat → DCFunction → Option (Bool × DCFunction)
  | 0, _ => none
  | fuel + 1, s => do
    let (opcode, s) ← next cfg s
    if cfg.tables.opcode opcode = .endOfInstruction then pure (true, s)
    else
      let (success, s) ← translateOpcode cfg opcode s
      if success then translateLoop fuel s else pure (false, s)

/-- `DCFunction::tryTranslateInst`. -/
def tryTranslateInst (s : DCFunction) : Option (Bool × DCFunction) := do
  let inst ← s.currentInst
  let (handled, s) ← runBoolHook cfg (cfg.hooks.translateTargetInst inst) s
  if handled then pure (true, s)
  else
    let idx := cfg.tables.opcodeToSemaIdx inst.inst.opcode.toNat
    let s := { s with idx := idx }
    if idx = noSemantics then pure (false, s)
    else
      -- Increment the PC before anything.
      let pc := cfg.regs.programCounter
      let (oldPC, s) := DRS.getReg cfg s pc
      let size ← ConstantInt.get oldPC.ty inst.size.toNat
      let (newPC, s) := Builder.createBinOp s .add oldPC size
      let s := DRS.setReg cfg s pc newPC
      translateLoop cfg (cfg.tables.semanticsArray.length + 1) s

/-- `DCFunction::translateInst`. -/
def translateInst (decodedInst : MCDecodedInst) (s : DCFunction) : Option (Bool × DCFunction) := do
  let s := DRS.switchToInst cfg { s with currentInst := some decodedInst } decodedInst
  let s :=
    if cfg.opts.enableInstAddrSave then
      Builder.createStore s (.constInt 64 decodedInst.address.toNat) .currentInstr 0 true
    else s
  let (success, s) ← tryTranslateInst cfg s
  let (success, s) :=
    if !success && cfg.opts.translateUnknownToUndef then
      (true, Builder.createUnreachable (Builder.createCallVoid s (.intrinsic .trap) []))
    else (success, s)
  pure (success, { s with vals := [], currentInst := none })

end Dagger
