import SimplyTyped.Expr.Basic

/-!
# Failures

There are two ways for an expression to fail, and they are kept apart. A
*rejection* is a verdict on the program: it breaks a typing rule. An *unknown
node* means that the expression is not a program at all, because a foreign node
was reached. Whoever reports on programs turns rejections into text and lets
unknown nodes pass.
-/

namespace SimplyTyped

inductive Fault where
  /-- A variable that nothing binds. -/
  | unbound (name : String)
  /-- An expression whose type is not the one its surroundings demand. -/
  | mismatch (expected actual : Ty)
  /-- An expression that is called but has no function type. -/
  | notFunction (actual : Ty)
  /-- A fault in the words of whoever found it; no typing rule gives one. -/
  | stated (message : String)
  deriving DecidableEq, Repr

def Fault.message : Fault → String
  | unbound name => "Unbound variable: " ++ name
  | mismatch expected actual =>
    "Type mismatch: expected " ++ expected.text ++ ", but got " ++ actual.text
  | notFunction actual => "Type mismatch: expected a function, but got " ++ actual.text
  | stated message => message

/-- A fault with the expression it is found at, where that is known. -/
structure Rejection where
  fault : Fault
  node : Option Expr
  deriving DecidableEq, Repr

/-- The wording of a rejection, which does not depend on the place. -/
def Rejection.message (r : Rejection) : String := r.fault.message

/-- The same fault, found at the given expression. -/
def Rejection.locatedAt (r : Rejection) (e : Expr) : Rejection := ⟨r.fault, some e⟩

/-- A foreign node was reached; only its kind is known. -/
structure UnknownNode where
  kind : String
  deriving DecidableEq, Repr

def UnknownNode.message (u : UnknownNode) : String := "Unknown expression node: " ++ u.kind

/-- Why an expression has no type. -/
inductive Failure where
  | rejected (rejection : Rejection)
  | unknown (node : UnknownNode)
  deriving DecidableEq, Repr

end SimplyTyped
