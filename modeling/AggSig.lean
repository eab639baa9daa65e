import AggSig.Printed
import AggSig.Published
import AggSig.RawPoint
import AggSig.Proofs.Aggregate.Sums
import AggSig.Proofs.Coding.Forms
import AggSig.Proofs.Curve.Multiples
import AggSig.Proofs.Key.Document
import AggSig.Proofs.Key.File
import AggSig.Proofs.Key.Generation
import AggSig.Proofs.Text.Numeration
import AggSig.Proofs.Verify.Batch
import AggSig.Proofs.Verify.Distinct
import AggSig.Proofs.Verify.FailClosed
import AggSig.Proofs.Verify.Identity
import AggSig.Proofs.Verify.Merge
import AggSig.Proofs.Verify.Shards
import AggSig.Proofs.Verify.Untrusted
