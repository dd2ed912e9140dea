import NovaC.Exceptions.Machine
import NovaC.Exceptions.Discipline
import NovaC.Exceptions.Finally
import NovaC.C.Fragment
import NovaC.Matches.Writer
import NovaC.Matches.Lowering
import NovaC.C.Contained
import NovaC.Matches.Preservation
import NovaC.Matches.Jumps
import NovaC.Arrays.GenArray
import NovaC.Classes.Layout
import NovaC.Arrays.Tree
import NovaC.Arrays.Allocation
import NovaC.C.Buffer
import NovaC.C.Decimal
import NovaC.C.Expression
import NovaC.C.Parsing
import NovaC.Expressions.Emission
import NovaC.HashMap.HashMap
import NovaC.HashMap.Operations
import NovaC.HashMap.Refinement
import NovaC.Network.Framing
import NovaC.Statics.Blocks
import NovaC.Statics.Order
import NovaC.Arrays.Copy
import NovaC.C.Constants
import NovaC.C.Operands
import NovaC.Closures.Prelude
import NovaC.Closures.Sharing
import NovaC.Diagnostics.Engine
import NovaC.Diagnostics.Messages
import NovaC.Expressions.Literals
import NovaC.Expressions.Splicing
import NovaC.Files.GetStr
import NovaC.Files.Lines
import NovaC.Names.Clashes
import NovaC.Parameters.Calls
import NovaC.Processes.GetPipe
import NovaC.ScrollBar.Drift
import NovaC.Accumulation.Truncated
import NovaC.C.Pool
import NovaC.Conditionals.TernaryOperation
import NovaC.HashMap.Invariant
import NovaC.HashMap.NullData
import NovaC.HashMap.PrimeSize
import NovaC.Names.Parameters
import NovaC.Network.Bounds
import NovaC.ScrollBar.Conservation
import NovaC.Traces.Addr2line
import NovaC.Traces.Stacktrace
import NovaC.Arrays.FreeArray
import NovaC.C.Hexadecimal
import NovaC.Database.Results
import NovaC.Files.Ufgets
import NovaC.HashMap.Fermat
import NovaC.Makefiles.Paths
import NovaC.Objects.HashCode
import NovaC.Processes.Relay
import NovaC.Threads.Sleep
import NovaC.Exceptions.Catching
import NovaC.Startup.Established
import NovaC.HashMap.AbsentKeys
import NovaC.HashMap.Release
import NovaC.HashMap.OnePass
import NovaC.Curl.Receiving
import NovaC.Destructors.Release
import NovaC.ScrollBar.Independence
import NovaC.Closures.Scoping
