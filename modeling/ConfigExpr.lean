import ConfigExpr.Main
import ConfigExpr.Proofs.CanonicalOutput
import ConfigExpr.Proofs.CaretColumn
import ConfigExpr.Proofs.CheckScan
import ConfigExpr.Proofs.DepthLimit
import ConfigExpr.Proofs.DescentRun
import ConfigExpr.Proofs.ErrorReach
import ConfigExpr.Proofs.JsonDecoding
import ConfigExpr.Proofs.LongestMatch
import ConfigExpr.Proofs.SignificantText
import ConfigExpr.Proofs.Traversals
import ConfigExpr.Proofs.Truncation
