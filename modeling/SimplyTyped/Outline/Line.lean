import SimplyTyped.Display
import SimplyTyped.Expr.Surface
import SimplyTyped.Inference

/-!
# Lines

What is printed about an expression is a list of lines. A line says what it is
about: a node at some depth with its verdict, the name of a branch, a cut, or a
notice to the reader. `Line.pieces` is the one place where lines turn into styled
text.

A verdict is what a reader of an annotated expression is told about a node: its
type, or that it has none. The reason for a rejection is not part of it.
-/

namespace SimplyTyped

/-! ### Verdicts -/

/-- The type of a node, or that it is ill-typed. -/
inductive Verdict where
  | typed (type : Ty)
  | illTyped
  deriving DecidableEq, Repr

/-- The text that a verdict adds after a node. -/
def Verdict.text : Verdict → String
  | typed type => " :: " ++ type.text
  | illTyped => " :: <error>"

namespace Expr

def verdict (Γ : Context) (e : Expr) : Except UnknownNode Verdict :=
  (e.judge Γ).map fun
    | .ok type => .typed type
    | .error _ => .illTyped

/-- The verdict on an expression if verdicts are shown. Where they are not,
    nothing is inferred. -/
def shownVerdict (shown : Bool) (Γ : Context) (e : Expr) :
    Except UnknownNode (Option Verdict) :=
  if shown then (e.verdict Γ).map some else .ok none

/-- The text of a verdict that is shown or not; nothing stands for one that is
    not. -/
def verdictText (shown : Bool) (Γ : Context) (e : Expr) : Except UnknownNode String :=
  (e.shownVerdict shown Γ).map fun verdict? => (verdict?.map Verdict.text).getD ""

end Expr

/-! ### Heads -/

/-- What a node is there for; nodes of one role share a style. -/
inductive Role where
  | literal
  | reference
  | operation
  | control
  | function
  | unknown
  deriving DecidableEq, Repr

def Role.style : Role → Display.Style
  | literal => .cyan
  | reference => .green
  | operation => .yellow
  | control => .magenta
  | function => .brightBlue
  | unknown => .white

/-- What a line shows of a node apart from its parts: the kind of node, the
    literal, name or signature that belongs to it, and its role. -/
structure Head where
  kind : String
  detail : String
  role : Role
  deriving DecidableEq, Repr

namespace Expr

def role : Expr → Role
  | num _ => .literal
  | bool _ => .literal
  | var _ => .reference
  | letIn _ _ _ => .control
  | binary _ _ _ => .operation
  | cond _ _ _ => .control
  | lam _ _ _ => .function
  | app _ _ => .function
  | letRec _ _ _ _ _ _ => .function
  | foreign _ => .unknown

/-- The literal, name or signature that belongs to the node at the root. -/
def detail : Expr → String
  | num value => "(" ++ value.text ++ ")"
  | bool value => "(" ++ boolWord value ++ ")"
  | var name => "(" ++ name ++ ")"
  | letIn name _ _ => "(" ++ name ++ ")"
  | lam param paramType _ => "(" ++ parameterText param paramType ++ ")"
  | letRec name param paramType returnType _ _ =>
    "(" ++ signatureText name param paramType returnType ++ ")"
  | _ => ""

def head (e : Expr) : Head := ⟨e.kind, e.detail, e.role⟩

end Expr

/-! ### Lines and their text -/

inductive Line where
  /-- A node at some depth, with its verdict where verdicts are shown. -/
  | node (depth : Nat) (head : Head) (verdict : Option Verdict)
  /-- The name of a branch of a node at some depth. -/
  | branch (depth : Nat) (label : String)
  /-- A node at some depth that is left out with everything below it. -/
  | cut (depth : Nat)
  /-- A message about the whole expression. -/
  | notice (text : String)
  deriving DecidableEq, Repr

namespace Line

/-- A node is indented by four columns for each level of depth. -/
def indent (depth : Nat) : String := String.ofList (List.replicate (4 * depth) ' ')

def pieces : Line → List Display.Piece
  | node depth head verdict =>
    [⟨.dim, indent depth⟩, ⟨head.role.style, head.kind⟩, ⟨.brightWhite, head.detail⟩]
      ++ (verdict.map fun v => ⟨.dimRed, v.text⟩).toList
  | branch depth label => [⟨.dim, indent depth ++ "  " ++ label ++ ":"⟩]
  | cut depth => [⟨.dim, indent depth ++ "..."⟩]
  | notice text => [⟨.boldRed, text⟩]

def plain (line : Line) : List String := (Display.rows line.pieces).map Display.plainRow

def coloured (line : Line) : List String := (Display.rows line.pieces).map Display.colouredRow

end Line

end SimplyTyped
