import EditionWatch.Proofs.Apart
import EditionWatch.Proofs.Convergence
import EditionWatch.Proofs.Costs
import EditionWatch.Proofs.Coverage
import EditionWatch.Proofs.Custody
import EditionWatch.Proofs.Dispatch
import EditionWatch.Proofs.Effects
import EditionWatch.Proofs.Endings
import EditionWatch.Proofs.Failures
import EditionWatch.Proofs.Gates
import EditionWatch.Proofs.Grounds
import EditionWatch.Proofs.Hearing
import EditionWatch.Proofs.Inquiries
import EditionWatch.Proofs.Ledger
import EditionWatch.Proofs.Lookups
import EditionWatch.Proofs.News
import EditionWatch.Proofs.Origins
import EditionWatch.Proofs.Recency
import EditionWatch.Proofs.Removals
import EditionWatch.Proofs.Retrievals
import EditionWatch.Proofs.Scans
import EditionWatch.Proofs.Settling
import EditionWatch.Proofs.Sparse
import EditionWatch.Proofs.Stalls
import EditionWatch.Proofs.Stillness
import EditionWatch.Proofs.Succession
import EditionWatch.Proofs.Uris
import EditionWatch.Proofs.Writings
import EditionWatch.Scenario.Play
