import Acceptor.Log
import Acceptor.Snapshot.Binary
import Acceptor.Snapshot.Json
import Acceptor.Proofs.Description.Diagnosis
import Acceptor.Proofs.Description.RoundTrip
import Acceptor.Proofs.Equivalence
import Acceptor.Proofs.Run
import Acceptor.Proofs.Snapshot.Binary
import Acceptor.Proofs.Snapshot.Json
import Acceptor.Proofs.Table
import Acceptor.Proofs.Word.Cut
import Acceptor.Proofs.Word.PrefixFree
import Acceptor.Proofs.Word.Strategies
import Acceptor.Proofs.Draft
import Acceptor.Proofs.Violation
import Acceptor.Proofs.Confinement
import Acceptor.Proofs.Path
import Acceptor.Proofs.Collecting
import Acceptor.Proofs.Description.Normalization
import Acceptor.Proofs.Description.LineBreaks
import Acceptor.Proofs.Word.Omitted
import Acceptor.Proofs.Description.Layout
import Acceptor.Proofs.Description.PartDiagnosis
import Acceptor.Proofs.Description.RowDiagnosis
import Acceptor.Proofs.Continuation
import Acceptor.Proofs.Word.Absent
import Acceptor.Proofs.Rearranging
import Acceptor.Proofs.History
import Acceptor.Proofs.Description.Seam
import Acceptor.Proofs.Description.Names
import Acceptor.Proofs.PathText
import Acceptor.Proofs.Log.Run
import Acceptor.Proofs.Log.Table
