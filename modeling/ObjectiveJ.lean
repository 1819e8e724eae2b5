import ObjectiveJ.Diagnostics.Reader
import ObjectiveJ.Frame.Dump
import ObjectiveJ.Issue.Dump
import ObjectiveJ.Main
import ObjectiveJ.Tree.Build
import ObjectiveJ.Tree.Preorder
import ObjectiveJ.Proofs.Format.Fallback
import ObjectiveJ.Proofs.Expression.Faithful
import ObjectiveJ.Proofs.Tables.Registry
import ObjectiveJ.Proofs.Tables.Selector
import ObjectiveJ.Proofs.Tables.Suggestion
import ObjectiveJ.Proofs.Layout.Semicolons
import ObjectiveJ.Proofs.Balance.Statements
import ObjectiveJ.Proofs.Warnings.Hidden
import ObjectiveJ.Proofs.Warnings.Retract
import ObjectiveJ.Proofs.Expression.Literal
import ObjectiveJ.Proofs.Expression.Object
import ObjectiveJ.Proofs.SourceMap.Backends
import ObjectiveJ.Proofs.Errors.Consistent
import ObjectiveJ.Proofs.Errors.Limit
import ObjectiveJ.Proofs.Style.Output
import ObjectiveJ.Proofs.Code.Nesting
import ObjectiveJ.Proofs.Code.Once
import ObjectiveJ.Proofs.Tables.Resolution
import ObjectiveJ.Proofs.SourceMap.Additions
import ObjectiveJ.Proofs.Command.Outputs
import ObjectiveJ.Proofs.Balance.Declarations
