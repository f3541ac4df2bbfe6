import SimplyTyped.Expr.Basic

/-!
# Record form

`Expr.record` spells an expression out as nested records: the kind of each node
followed by all its fields by name. Unlike the surface form it loses nothing,
and it is defined for foreign nodes, which have no fields.

Names are quoted there. A quoted text stands between single quotes, or between
double quotes when it has single quotes inside and no double ones. The quote in
use and the backslash are written after a backslash, and the control characters
of ASCII by name or by their two hexadecimal digits. All other characters stand
for themselves.
-/

namespace SimplyTyped

/-! ### Quoted text -/

namespace Text

/-- The quote that goes around a text. -/
def quoteFor (cs : List Char) : Char :=
  if cs.contains '\x27' && !cs.contains '\x22' then '\x22' else '\x27'

/-- A character below 256 as two lower-case hexadecimal digits. -/
def hexPair (c : Char) : List Char :=
  [Nat.digitChar (c.toNat / 16), Nat.digitChar (c.toNat % 16)]

/-- How one character is written between quotes of the given kind. -/
def quotedChar (quote c : Char) : List Char :=
  if c = quote || c = '\x5c' then ['\x5c', c]
  else if c = '\n' then ['\x5c', 'n']
  else if c = '\r' then ['\x5c', 'r']
  else if c = '\t' then ['\x5c', 't']
  else if c.toNat < 0x20 || c.toNat = 0x7f then ['\x5c', 'x'] ++ hexPair c
  else [c]

def quoted (s : String) : String :=
  let quote := quoteFor s.toList
  String.ofList ([quote] ++ s.toList.flatMap (quotedChar quote) ++ [quote])

end Text

/-! ### Records -/

namespace Expr

def recordText (kind : String) (fields : List (String × String)) : String :=
  kind ++ "(" ++ ", ".intercalate (fields.map fun field => field.1 ++ "=" ++ field.2) ++ ")"

def record (e : Expr) : String :=
  recordText e.kind <|
    match e with
    | num value => [("value", value.text)]
    | bool value => [("value", if value then "True" else "False")]
    | var name => [("name", Text.quoted name)]
    | letIn name value body =>
      [("name", Text.quoted name), ("value", value.record), ("body", body.record)]
    | binary _ left right => [("left", left.record), ("right", right.record)]
    | cond condition thenBranch elseBranch =>
      [("condition", condition.record), ("then_expr", thenBranch.record),
        ("else_expr", elseBranch.record)]
    | lam param paramType body =>
      [("param", Text.quoted param), ("param_type", paramType.record), ("body", body.record)]
    | app function argument =>
      [("function", function.record), ("argument", argument.record)]
    | letRec name param paramType returnType definition body =>
      [("name", Text.quoted name), ("param", Text.quoted param),
        ("param_type", paramType.record), ("return_type", returnType.record),
        ("function_body", definition.record), ("body", body.record)]
    | foreign _ => []

end Expr

end SimplyTyped
