import TestRun.Main
import TestRun.Proofs.Suite.Outcomes
import TestRun.Proofs.Tree.Verdict
import TestRun.Proofs.Report.Document
import TestRun.Text.Lower
import TestRun.Text.Numeral
import TestRun.Proofs.Xml.Reading
import TestRun.Proofs.Plan.Descent
import TestRun.Proofs.Plan.Ledger
import TestRun.Proofs.Listener.Starting
import TestRun.Proofs.Listener.Watching
import TestRun.Proofs.Listener.Epochs
import TestRun.Proofs.Files.Directories
import TestRun.Proofs.Listener.Filing
import TestRun.Proofs.Listener.Indifference
import TestRun.Proofs.Listener.Containment
import TestRun.Proofs.Report.Identifiers
import TestRun.Proofs.Xml.LineEnds
import TestRun.Proofs.Report.Bodies
import TestRun.Proofs.Report.Counts
import TestRun.Proofs.Suite.Recording
import TestRun.Proofs.Suite.Agreement
import TestRun.Proofs.Listener.Interleaving
import TestRun.Proofs.Suite.Depiction
import TestRun.Proofs.Listener.Renewal
import TestRun.Proofs.Suite.Sharing
import TestRun.Proofs.Suite.Interrupts
import TestRun.Proofs.Listener.Confinement
import TestRun.Proofs.Tree.Precedence
import TestRun.Proofs.Listener.Redelivery
import TestRun.Proofs.Suite.Accounting
import TestRun.Proofs.Time.Timestamps
import TestRun.Proofs.Suite.Lookup
import TestRun.Proofs.Suite.Glimpses
