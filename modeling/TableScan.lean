import TableScan.Gallery
import TableScan.Main
import TableScan.Predicate
import TableScan.Workshop
import TableScan.Proofs.Accounts
import TableScan.Proofs.Books
import TableScan.Proofs.Conservation
import TableScan.Proofs.Delivery
import TableScan.Proofs.Progress
import TableScan.Proofs.Replay
import TableScan.Proofs.Failures
import TableScan.Proofs.Returns
import TableScan.Proofs.Evaluations
import TableScan.Proofs.Independence
import TableScan.Proofs.Renewal
import TableScan.Proofs.Revisits
import TableScan.Proofs.Settling
import TableScan.Proofs.Turnover
import TableScan.Proofs.Starvation
import TableScan.Proofs.Refusals
import TableScan.Proofs.Reports
import TableScan.Proofs.Outcomes
import TableScan.Proofs.RoundTrips
import TableScan.Proofs.RowIds
import TableScan.Proofs.Admissions
import TableScan.Proofs.Shards
import TableScan.Proofs.Alignment
