/-!
# Types

The language has two ground types, numbers and booleans, and function types.
Types are compared by shape (`Ty.same`), and they are written in two ways: the
surface text that appears in messages and in function signatures (`Ty.text`),
and the record text that spells out every constructor (`Ty.record`).
-/

namespace SimplyTyped

/-- A type: a ground type or a function type. -/
inductive Ty where
  | number
  | boolean
  | arrow (param result : Ty)
  deriving DecidableEq, Repr, Inhabited

namespace Ty

/-! ### Comparison by shape -/

/-- Whether two types have the same shape, compared from the root down. -/
def same : Ty → Ty → Bool
  | number, number => true
  | boolean, boolean => true
  | arrow param result, arrow param' result' => param.same param' && result.same result'
  | _, _ => false

@[simp] theorem same_self (t : Ty) : t.same t = true := by
  induction t with
  | number => rfl
  | boolean => rfl
  | arrow param result ihp ihr => simp [same, ihp, ihr]

theorem eq_of_same {s t : Ty} (h : s.same t = true) : s = t := by
  induction s generalizing t with
  | number => cases t <;> simp_all [same]
  | boolean => cases t <;> simp_all [same]
  | arrow param result ihp ihr =>
    cases t with
    | number => simp [same] at h
    | boolean => simp [same] at h
    | arrow param' result' =>
      simp only [same, Bool.and_eq_true] at h
      rw [ihp h.1, ihr h.2]

theorem same_iff {s t : Ty} : s.same t = true ↔ s = t :=
  ⟨eq_of_same, fun h => h ▸ same_self s⟩

/-! ### Text -/

def isArrow : Ty → Bool
  | arrow _ _ => true
  | _ => false

/-- The surface text of a type. The arrow associates to the right, so a
    function type is parenthesised exactly where it is a parameter. -/
def text : Ty → String
  | number => "Number"
  | boolean => "Boolean"
  | arrow param result =>
    (if param.isArrow then "(" ++ param.text ++ ")" else param.text) ++ " -> " ++ result.text

/-- The record text of a type: every constructor with its named fields. -/
def record : Ty → String
  | number => "NumberType()"
  | boolean => "BooleanType()"
  | arrow param result =>
    "FunctionType(param=" ++ param.record ++ ", result=" ++ result.record ++ ")"

end Ty

end SimplyTyped
