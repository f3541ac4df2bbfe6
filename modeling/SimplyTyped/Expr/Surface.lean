import SimplyTyped.Failure

/-!
# Surface form

`Expr.surface` writes an expression in the syntax of the language. Operands of
an operator and the callee of a call are parenthesised unless they are atoms or
calls; every other position is delimited by keywords or brackets and needs no
parentheses. A foreign node has no surface form, so writing stops at the
leftmost one.
-/

namespace SimplyTyped.Expr

/-- Whether an expression stands for itself as an operand. -/
def isAtom : Expr → Bool
  | num _ => true
  | bool _ => true
  | var _ => true
  | app _ _ => true
  | _ => false

/-- The text of an expression in operand position. -/
def enclosed (e : Expr) (text : String) : String :=
  if e.isAtom then text else "(" ++ text ++ ")"

def boolWord (value : Bool) : String := if value then "true" else "false"

def parameterText (param : String) (type : Ty) : String := param ++ " : " ++ type.text

def signatureText (name param : String) (paramType returnType : Ty) : String :=
  name ++ "(" ++ parameterText param paramType ++ "): " ++ returnType.text

def surface : Expr → Except UnknownNode String
  | num value => .ok value.text
  | bool value => .ok (boolWord value)
  | var name => .ok name
  | letIn name value body => do
    let valueText ← value.surface
    let bodyText ← body.surface
    return "let " ++ name ++ " = " ++ valueText ++ " in " ++ bodyText
  | binary op left right => do
    let leftText ← left.surface
    let rightText ← right.surface
    return left.enclosed leftText ++ " " ++ op.symbol ++ " " ++ right.enclosed rightText
  | cond condition thenBranch elseBranch => do
    let conditionText ← condition.surface
    let thenText ← thenBranch.surface
    let elseText ← elseBranch.surface
    return "if " ++ conditionText ++ " then " ++ thenText ++ " else " ++ elseText
  | lam param paramType body => do
    let bodyText ← body.surface
    return "fun (" ++ parameterText param paramType ++ ") -> " ++ bodyText
  | app function argument => do
    let functionText ← function.surface
    let argumentText ← argument.surface
    return function.enclosed functionText ++ "(" ++ argumentText ++ ")"
  | letRec name param paramType returnType definition body => do
    let definitionText ← definition.surface
    let bodyText ← body.surface
    return "letfun " ++ signatureText name param paramType returnType ++ " -> "
      ++ definitionText ++ " in " ++ bodyText
  | foreign kind => .error ⟨kind⟩

end SimplyTyped.Expr
