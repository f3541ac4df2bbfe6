import SimplyTyped.Numeral
import SimplyTyped.Ty

/-!
# Expressions

A small functional language: literals, variables, a few operators, conditionals,
functions of one parameter and two binding forms. Every function says the type
of its parameter, and a recursive definition says the type of its result too, so
types can be read off without unification.

An expression may also hold a *foreign* node: a value of some other kind, known
by the name of that kind only. It has no type and no surface form.
-/

namespace SimplyTyped

inductive BinOp where
  | plus
  | or
  | eq
  deriving DecidableEq, Repr

namespace BinOp

/-- How an operator is written between its operands. -/
def symbol : BinOp → String
  | plus => "+"
  | or => "||"
  | eq => "=="

/-- The name of the node that an operator makes. -/
def kind : BinOp → String
  | plus => "Plus"
  | or => "Or"
  | eq => "Eq"

/-- The type that an operator demands of both operands. Equality names none: it
    only demands that the operands agree. -/
def operandType? : BinOp → Option Ty
  | plus => some .number
  | or => some .boolean
  | eq => none

def resultType : BinOp → Ty
  | plus => .number
  | or => .boolean
  | eq => .boolean

end BinOp

/-- Expressions. In `letRec name param paramType returnType definition body` the
    name is bound in the definition and in the body, the parameter in the
    definition only and inside the name. -/
inductive Expr where
  | num (value : Numeral)
  | bool (value : Bool)
  | var (name : String)
  | letIn (name : String) (value body : Expr)
  | binary (op : BinOp) (left right : Expr)
  | cond (condition thenBranch elseBranch : Expr)
  | lam (param : String) (paramType : Ty) (body : Expr)
  | app (function argument : Expr)
  | letRec (name param : String) (paramType returnType : Ty) (definition body : Expr)
  | foreign (kind : String)
  deriving DecidableEq, Repr

namespace Expr

/-- The name of the kind of node at the root of an expression. -/
def kind : Expr → String
  | num _ => "Num"
  | bool _ => "Bool"
  | var _ => "Var"
  | letIn _ _ _ => "Let"
  | binary op _ _ => op.kind
  | cond _ _ _ => "If"
  | lam _ _ _ => "Fun"
  | app _ _ => "Call"
  | letRec _ _ _ _ _ _ => "LetFun"
  | foreign kind => kind

/-- Whether two expressions have the same nodes with the same names and
    annotations. Numerals are compared by what they stand for, so that an
    expression holding a not-a-number is alike to none. -/
def alike : Expr → Expr → Bool
  | num m, num n => m.alike n
  | bool b, bool b' => b == b'
  | var x, var x' => x == x'
  | letIn x value body, letIn x' value' body' =>
    x == x' && value.alike value' && body.alike body'
  | binary op left right, binary op' left' right' =>
    op == op' && left.alike left' && right.alike right'
  | cond c a b, cond c' a' b' => c.alike c' && a.alike a' && b.alike b'
  | lam x t body, lam x' t' body' => x == x' && t == t' && body.alike body'
  | app function argument, app function' argument' =>
    function.alike function' && argument.alike argument'
  | letRec f x t r definition body, letRec f' x' t' r' definition' body' =>
    f == f' && x == x' && t == t' && r == r'
      && definition.alike definition' && body.alike body'
  | foreign kind, foreign kind' => kind == kind'
  | _, _ => false

end Expr

end SimplyTyped
