import Loom.Main
import Loom.Proofs.LoadOrder.Precedence
import Loom.Proofs.RoundTrip
import Loom.Text.Lossy
import Loom.Proofs.Batch.Contents
import Loom.Proofs.Reweaving
import Loom.Proofs.Batch.PlannedOrder
import Loom.Proofs.Corruption
import Loom.Proofs.Truncation
import Loom.Transformer.Scripted
import Loom.Proofs.Deeds
import Loom.Proofs.Batch.Accounts
import Loom.Proofs.Batch.Confinement
import Loom.Proofs.Batch.Delivery
import Loom.Proofs.Batch.Repetition
import Loom.Proofs.Batch.Replanning
import Loom.Proofs.Batch.Reloading
import Loom.Proofs.Batch.Stopping
import Loom.Proofs.Verdict
import Loom.Proofs.Batch.Calls
import Loom.Proofs.Batch.GlueOrder
import Loom.Proofs.Batch.TargetOrder
import Loom.Proofs.SymbolAcceptance
import Loom.Proofs.Commands
import Loom.Proofs.Batch.Leftovers
import Loom.Proofs.LoadOrder.Rounds
import Loom.Proofs.LoadOrder.ScanNumbers
import Loom.Proofs.LoadOrder.Arranged
import Loom.Proofs.LoadOrder.SameGraph
import Loom.Proofs.Filing
import Loom.Proofs.Faults
import Loom.Proofs.RegistrationTable
import Loom.Proofs.SearchPath.Permutations
import Loom.Proofs.Batch.Refusals
import Loom.Proofs.Batch.StagingLife
import Loom.Proofs.Reader.Indexed
import Loom.Proofs.Reader.Writing
import Loom.Proofs.Reservations
