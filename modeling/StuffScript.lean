import StuffScript.Main
import StuffScript.Proofs.Frame
import StuffScript.Proofs.DepthLimit
import StuffScript.Proofs.RepeatedCalls
import StuffScript.Proofs.Acceptance
import StuffScript.Proofs.Balance
import StuffScript.Proofs.Layout
import StuffScript.Proofs.Joining
import StuffScript.Proofs.Buffering
import StuffScript.Proofs.Prediction
import StuffScript.Proofs.EarliestError
import StuffScript.Proofs.WriteHistory
import StuffScript.Proofs.Termination
import StuffScript.Proofs.ChunkRuns
import StuffScript.Proofs.ParserLikeness
import StuffScript.Proofs.Relocation
import StuffScript.Proofs.Precedence
import StuffScript.Proofs.CallPaths
import StuffScript.Proofs.Iteration
import StuffScript.Proofs.HeapSoundness
import StuffScript.Proofs.Lookahead
import StuffScript.Proofs.Printing
import StuffScript.Proofs.Sequencing
import StuffScript.Proofs.ChunkParsing
import StuffScript.Proofs.Offsets
import StuffScript.Proofs.OutlineReading
import StuffScript.Proofs.Consumption
import StuffScript.Proofs.Spans
import StuffScript.Proofs.LoopCost
import StuffScript.Proofs.Quoting
import StuffScript.Proofs.UniqueReading
import StuffScript.Proofs.KnownOperators
import StuffScript.Proofs.Counting
import StuffScript.Proofs.Modes
import StuffScript.Proofs.Pulling
import StuffScript.Proofs.Readings
import StuffScript.Proofs.Progress
