import Hardhat.Network.BlockchainData
import Hardhat.Network.EmptyBlockRanges
import Hardhat.Network.Indices
import Hardhat.Network.Revert
import Hardhat.Network.Logs
import Hardhat.Network.StoredBlocks
import Hardhat.Compile.Types
import Hardhat.Compile.Graph
import Hardhat.Compile.CompilationJob
import Hardhat.Compile.Planner
import Hardhat.Compile.Store
import Hardhat.Compile.Cache
import Hardhat.Compile.CompileJobs
import Hardhat.Compile.Progress
import Hardhat.Compile.Emit
import Hardhat.Compile.Task
import Hardhat.Compile.Incremental
import Hardhat.Compile.History
import Hardhat.Compile.FailureReasons
import Hardhat.Compile.Diagnostics
import Hardhat.Compile.Console
import Hardhat.Compile.CompilerChoice
