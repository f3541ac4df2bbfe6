import SimplyTyped.Expr.Record
import SimplyTyped.Outline.Tree
import SimplyTyped.Report
import SimplyTyped.Session
import SimplyTyped.Proofs.Blame
import SimplyTyped.Proofs.Nameless
import SimplyTyped.Proofs.Typing
import SimplyTyped.Proofs.Unambiguous
import SimplyTyped.Proofs.FreeVariables
import SimplyTyped.Proofs.ForeignNodes
import SimplyTyped.Proofs.Annotations
import SimplyTyped.Proofs.LexicalScope
import SimplyTyped.Proofs.Replacement
import SimplyTyped.Proofs.Substitution
import SimplyTyped.Proofs.DepthLimit
import SimplyTyped.Proofs.Skeleton
import SimplyTyped.Proofs.BindingForms
import SimplyTyped.Proofs.DeclaredTypes
import SimplyTyped.Proofs.ReportText
import SimplyTyped.Proofs.UnboundNames
import SimplyTyped.Proofs.InsertionOrder
