import Dagger.State

/-!
# Building the blocks of a translated function

The part of `DCFunction` that decides which IR blocks exist and where code goes,
`lib/DC/DCFunction.cpp` lines 48–230:

* the constructor, which creates the entry and exit blocks (and, when register-set
  diffing is on, the block that calls the diff function before returning) and
  branches from the entry to the block of the function's start address;
* `getOrCreateBasicBlock`, which maps a code address to its block, creating a
  placeholder `call @llvm.trap(); unreachable` on first request;
* `SwitchToBasicBlock` / `FinalizeBasicBlock`, which open the block of an MC
  block for insertion and close it with a fall-through branch;
* `insertCallBB`, which splits the current block around a block holding one call;
* `createExternalTailCallBB` and the destructor.

An `assert` that fails, a null `TheBB` dereferenced, or a `cast<>` of the wrong
kind makes the operation return `none`.
-/

namespace Dagger

/-- `utohexstr`: upper-case hexadecimal digits, without prefix. -/
def utohexstr (x : UInt64) : String := String.mk ((Nat.toDigits 16 x.toNat).map Char.toUpper)

/-- `Name.substr(0, Name.find_first_of("_c"))`: the name up to its first `_` or `c`. -/
def stripCallSuffix (name : String) : String :=
  String.mk (name.toList.takeWhile fun c => c != '_' && c != 'c')

section

variable (cfg : Config)

/-- `DCFunction::getOrCreateBasicBlock`. -/
def getOrCreateBasicBlock (addr : UInt64) (s : DCFunction) : Nat × DCFunction :=
  match s.bbByAddr addr with
  | some bb => (bb, s)
  | none =>
    let (bb, s) := s.createBlock ("bb_" ++ utohexstr addr) (.addr addr)
    let s := { s with bbByAddr := Function.update s.bbByAddr addr (some bb) }
    (bb, (s.appendInst bb (.instr trapCall)).appendInst bb .unreachable)

/-- `DCFunction::prepareBasicBlockForInsertion`: the block must be a placeholder
(two instructions, `unreachable` second); both are erased. -/
def prepareBasicBlockForInsertion (bb : Nat) (s : DCFunction) : Option DCFunction :=
  match (s.blocks bb).insts with
  | [_, .unreachable] => some (s.modifyInsts bb fun l => l.tail.tail)
  | _ => none

/-- `DCFunction::SwitchToBasicBlock(uint64_t)`. -/
def switchToBasicBlock (beginAddr : UInt64) (s : DCFunction) : Option DCFunction := do
  let (bb, s) := getOrCreateBasicBlock beginAddr s
  let s ← prepareBasicBlockForInsertion bb { s with theBB := some bb }
  let s := DRS.switchToBasicBlock { s with insertPt := bb, opened := s.opened ++ [beginAddr] } bb
  -- The PC at the start of the basic block is known, just set it.
  let pc := cfg.regs.programCounter
  let c ← ConstantInt.get (cfg.regs.regType pc) beginAddr.toNat
  pure (DRS.setReg cfg s pc c)

/-- `DCFunction::SwitchToBasicBlock(const MCBasicBlock *)`. -/
def switchToBasicBlockMC (mcbb : MCBasicBlock) (s : DCFunction) : Option DCFunction :=
  switchToBasicBlock cfg mcbb.startAddr { s with theMCBB := some mcbb }

end

/-- `DCFunction::FinalizeBasicBlock`: fall through to the block at the MC block's
end address unless the block already ends with a terminator. -/
def finalizeBasicBlock (s : DCFunction) : Option DCFunction := do
  let bb ← s.theBB
  let s ← if (s.blocks bb).getTerminator.isNone then do
      let mcbb ← s.theMCBB
      let (target, s) := getOrCreateBasicBlock mcbb.endAddr s
      pure (s.appendInst bb (.br target))
    else pure s
  pure { DRS.finalizeBasicBlock s with theBB := none, theMCBB := none }

/-- `DCFunction::insertCallBB`: branch into a new block holding only
`call target(regset)`, which branches to a new successor block where translation
goes on. -/
def insertCallBB (target : Value) (s : DCFunction) : Option (Nat × DCFunction) := do
  let cur ← s.theBB
  let (callBB, s) := s.createBlock ((s.blocks cur).name ++ "_call") (.call cur (s.numBlocks + 1))
  let s := s.appendInst callBB (.instr (.call target [.regSetArg]))
  let s := Builder.createBr s callBB
  guard (s.insertPt = cur)
  let bbName := stripCallSuffix (s.blocks cur).name
  let callInstAddr := match s.currentInst with
    | some i => utohexstr i.address
    | none => ""
  let (succ, s) := s.createBlock (bbName ++ "_c" ++ callInstAddr) (.callSucc callBB)
  let s := DRS.switchToBasicBlock (DRS.finalizeBasicBlock { s with theBB := some succ }) succ
  let s := { s with insertPt := succ }
  let s := s.appendInst callBB (.br succ)
  pure (callBB, { s with callBBs := s.callBBs ++ [callBB] })

/-- `DCFunction::insertTranslateAt`: ask the runtime for the translation of the
code at a computed address. -/
def insertTranslateAt (origTarget : Value) (s : DCFunction) : Value × DCFunction :=
  let (p, s) := Builder.createCast s .intToPtr origTarget .i8Ptr
  let (ptr, s) := Builder.createCall s (.intrinsic .dcTranslateAt) p .i8Ptr
  Builder.createCast s .bitCast ptr (.ptr .fn)

/-- `DCFunction::insertCall`: a constant target is the function at that address,
any other goes through `llvm.dc.translate.at`. -/
def insertCall (callTarget : Value) (s : DCFunction) : Option DCFunction := do
  let (target, s) ← match callTarget with
    | .constInt _ n => if n < 2 ^ 64 then some (Value.function (UInt64.ofNat n), s) else none
    | _ => some (insertTranslateAt callTarget s)
  let (_, s) ← insertCallBB target s
  pure s

/-- `DCFunction::createExternalTailCallBB`: open the block at `addr`, call the
function there and return directly. -/
def createExternalTailCallBB (cfg : Config) (addr : UInt64) (s : DCFunction) :
    Option DCFunction := do
  let s ← switchToBasicBlock cfg addr s
  let (_, s) ← insertCallBB (.function addr) s
  pure { Builder.createRetVoid s with tailCalls := s.tailCalls ++ [s.insertPt] }

/-- The constructor `DCFunction::DCFunction` for an MC function starting at
`startAddr`. -/
def DCFunction.new (cfg : Config) (startAddr : UInt64) : DCFunction :=
  let hex := utohexstr startAddr
  let (entry, s) := DCFunction.empty.createBlock ("entry_fn_" ++ hex) .entry
  let (exit, s) := s.createBlock ("exit_fn_" ++ hex) .exit
  let s := { s with theBB := some entry, exitBB := exit, insertPt := entry }
  let s :=
    if cfg.opts.enableRegSetDiff then
      let (savedRegSet, s) := Builder.createAlloca s .regSet
      let (regSet, s) := Builder.createLoad s .regSet .regSetArg 0
      let s := Builder.createStore s regSet savedRegSet 0 false
      let (diffExit, s) := s.createBlock ("diff_exit_fn_" ++ hex) .diffExit
      let fnAddr := Value.cast .intToPtr (.constInt 64 startAddr.toNat) .i8Ptr
      let s := s.appendInst diffExit (.instr (.call .regSetDiffFunction [fnAddr, savedRegSet, .regSetArg]))
      let s := s.appendInst diffExit .ret
      s.appendInst exit (.br diffExit)
    else s.appendInst exit .ret
  let (first, s) := getOrCreateBasicBlock startAddr s
  Builder.createBr s first

/-- The body of the destructor's loop over `CallBBs`: assert the call block's
size, then wrap its call in the register semantics' save and restore code. -/
def wrapCallBB (s : DCFunction) (callBB : Nat) : Option DCFunction := do
  guard ((s.blocks callBB).insts.length = 2)
  -- `CallI` is the call; the save code goes before it, which moves it to
  -- position 1, and `++CallI` is the branch after it, at position 2.
  let s := DRS.saveAllLocalRegs s callBB 0
  pure (DRS.restoreLocalRegs s callBB 2)

/-- The destructor `DCFunction::~DCFunction`: wrap every call block's call in the
register semantics' save and restore code, then finalize the function. -/
def DCFunction.destroy (s : DCFunction) : Option DCFunction := do
  let s ← s.callBBs.foldlM wrapCallBB s
  pure (DRS.finalizeFunction s s.exitBB)

end Dagger
