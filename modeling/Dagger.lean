import Dagger.IR.Syntax
import Dagger.IR.Semantics
import Dagger.Tables
import Dagger.State
import Dagger.Function
import Dagger.Translate
import Dagger.Run
import Dagger.Steps
import Dagger.Values
import Dagger.Arithmetic
import Dagger.Registers
import Dagger.MemoryAccess
import Dagger.Blocks
import Dagger.Invariant
import Dagger.Frame
import Dagger.Terminators
import Dagger.BlockMap
import Dagger.CallBlocks
import Dagger.Notifications
import Dagger.Exits
import Dagger.ProgramCounter
import Dagger.CallNames
import Dagger.Tape
import Dagger.Meaning
import Dagger.BlockMeaning
import Dagger.Fuel
