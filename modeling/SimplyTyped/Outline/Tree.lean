import SimplyTyped.Report

/-!
# Outlines

The outline of an expression is its tree, one node to a line, parts below the
node they belong to and each under the name of its branch. A depth limit leaves
out everything from that depth on, and verdicts can be left away.

`Expr.children` lists the parts of a node from left to right, each with a label
and with the context it is read in. The contexts are those of inference, with one
liberty: where the value of a binding is ill-typed, inference would never reach
the body, and the body is read in the outer context.

The verdict on a node is found before its line is written, and its parts after.
So an outline that stops at an unknown node still has all the lines above it.
-/

namespace SimplyTyped

/-! ### Parts of a node -/

namespace Expr

/-- A part of the node at the root of `parent`, with its label and the context it
    is read in. A part is smaller than the whole, so going from part to part
    ends. -/
structure Child (parent : Expr) where
  label : String
  node : Expr
  scope : Context
  smaller : sizeOf node < sizeOf parent := by simp +arith

def bodyScope (Γ : Context) (name : String) (value : Expr) : Except UnknownNode Context :=
  (value.judge Γ).map fun
    | .ok type => Γ.insert name type
    | .error _ => Γ

/-- The parts of a node. To know the context of the body, a binding has its value
    judged first, and is without parts when that reaches an unknown node. -/
def children (Γ : Context) : (e : Expr) → Except UnknownNode (List (Child e))
  | letIn name value body => do
    let Δ ← bodyScope Γ name value
    return [{ label := "value", node := value, scope := Γ },
      { label := "body", node := body, scope := Δ }]
  | binary _ left right =>
    .ok [{ label := "left", node := left, scope := Γ },
      { label := "right", node := right, scope := Γ }]
  | cond condition thenBranch elseBranch =>
    .ok [{ label := "condition", node := condition, scope := Γ },
      { label := "then", node := thenBranch, scope := Γ },
      { label := "else", node := elseBranch, scope := Γ }]
  | lam param paramType body =>
    .ok [{ label := "body", node := body, scope := Γ.insert param paramType }]
  | app function argument =>
    .ok [{ label := "function", node := function, scope := Γ },
      { label := "argument", node := argument, scope := Γ }]
  | letRec name param paramType returnType definition body =>
    let Δ := Γ.insert name (.arrow paramType returnType)
    .ok [{ label := "function_body", node := definition, scope := Δ.insert param paramType },
      { label := "body", node := body, scope := Δ }]
  | num _ => .ok []
  | bool _ => .ok []
  | var _ => .ok []
  | foreign _ => .ok []

end Expr

/-! ### The tree -/

structure OutlineOptions where
  /-- Whether nodes carry their verdicts. -/
  showTypes : Bool := true
  /-- The depth at which nodes are left out; the root has depth zero. -/
  maxDepth : Option Int := none
  deriving Repr

/-- Whether nodes at a depth are left out. -/
def OutlineOptions.cutsAt (options : OutlineOptions) (depth : Nat) : Bool :=
  match options.maxDepth with
  | none => false
  | some limit => limit ≤ depth

namespace Expr

/-- The outline of an expression that stands at the given depth. -/
def outlineFrom (options : OutlineOptions) (Γ : Context) (depth : Nat) (e : Expr) :
    Printed Unit :=
  if options.cutsAt depth then .write (.cut depth)
  else do
    let verdict ← .ofOutcome (e.shownVerdict options.showTypes Γ)
    Printed.write (.node depth e.head verdict)
    let children ← .ofOutcome (e.children Γ)
    children.forM fun child => do
      Printed.write (.branch depth child.label)
      child.node.outlineFrom options child.scope (depth + 1)
termination_by sizeOf e
decreasing_by exact child.smaller

def outline (options : OutlineOptions) (Γ : Context) (e : Expr) : Printed Unit :=
  e.outlineFrom options Γ 0

/-- Outlines are what was asked for. -/
def outlineChannel : Channel := .output

end Expr

end SimplyTyped
