import Runbook.Main
import Runbook.Proofs.CommandLine.Reversal
import Runbook.Proofs.CommandLine.Simulation
import Runbook.Proofs.Execution.Reachable
import Runbook.Proofs.Identity.Order
import Runbook.Proofs.Location
import Runbook.Proofs.Log.Chronology
import Runbook.Proofs.Log.Consistency
import Runbook.Proofs.Log.Lines
import Runbook.Proofs.Log.Listing
import Runbook.Proofs.Record.Decoding
import Runbook.Proofs.Record.Resaving
import Runbook.Proofs.Reversal.Criterion
import Runbook.Proofs.Reversal.Twice
import Runbook.Proofs.Reversal.WellFormed
import Runbook.Proofs.Run.Agreement
import Runbook.Proofs.Run.Counting
import Runbook.Proofs.Run.Creations
import Runbook.Proofs.Run.EarlierOutcomes
import Runbook.Proofs.Run.EarlyStop
import Runbook.Proofs.Run.Filling
import Runbook.Proofs.Run.MissingFillers
import Runbook.Proofs.Run.Scoping
import Runbook.Proofs.SortedMap
import Runbook.Proofs.Statement.Acceptance
import Runbook.Proofs.Statistics
import Runbook.Proofs.Store.Archive
import Runbook.Proofs.Store.Contents
import Runbook.Proofs.Store.Refinement
import Runbook.Proofs.Template.Acceptance
import Runbook.Proofs.Template.Canonical
import Runbook.Proofs.Template.RoundTrip
import Runbook.Proofs.Token.Layout
import Runbook.Proofs.Token.Spans
