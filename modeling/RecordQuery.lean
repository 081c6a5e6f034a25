import RecordQuery.Main
import RecordQuery.Proofs.Grammar.Acceptance
import RecordQuery.Proofs.Reprocess
import RecordQuery.Proofs.Scan.Segmentation
import RecordQuery.Proofs.Evaluation
import RecordQuery.Proofs.Validation
import RecordQuery.Proofs.Grammar.WellFormed
import RecordQuery.Proofs.Printing
import RecordQuery.Proofs.Derived
import RecordQuery.Proofs.Composition
import RecordQuery.Proofs.BooleanLaws
import RecordQuery.Proofs.Check
import RecordQuery.Proofs.Value.Number
import RecordQuery.Proofs.Faults
import RecordQuery.Proofs.Grammar.Unknown
import RecordQuery.Proofs.Mirror
import RecordQuery.Proofs.Value.Denotation
import RecordQuery.Proofs.Indifference
import RecordQuery.Proofs.Grammar.Delimited
import RecordQuery.Proofs.Spacing
import RecordQuery.Proofs.Parameters
import RecordQuery.Proofs.Binary64.Written
import RecordQuery.Proofs.Value.Normal
import RecordQuery.Proofs.Literals
import RecordQuery.Proofs.Json.Layout
import RecordQuery.Proofs.Registrations
import RecordQuery.Proofs.Scan.Stepwise
