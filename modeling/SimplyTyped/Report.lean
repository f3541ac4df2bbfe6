import SimplyTyped.Outline.Line

/-!
# Printing and reports

`Printed α` is what a printing run leaves behind: the lines it wrote and how it
ended, with a value or at an unknown node. Lines written before the end stay
written.

There are two ways to tell whether an expression is well-typed: as a text that
holds the type or the reason, and as a yes or no, where a no comes with a printed
notice that gives the reason.
-/

namespace SimplyTyped

/-! ### Printing that may stop -/

/-- The lines that a run wrote, and its outcome. -/
structure Printed (α : Type) where
  lines : List Line
  outcome : Except UnknownNode α

namespace Printed

variable {α β : Type}

protected def pure (value : α) : Printed α := ⟨[], .ok value⟩

/-- Goes on with the value of a run, after its lines; a run that has stopped stays
    as it is. -/
protected def bind (run : Printed α) (next : α → Printed β) : Printed β :=
  match run.outcome with
  | .error node => ⟨run.lines, .error node⟩
  | .ok value =>
    let rest := next value
    ⟨run.lines ++ rest.lines, rest.outcome⟩

instance : Monad Printed where
  pure := Printed.pure
  bind := Printed.bind

def write (line : Line) : Printed Unit := ⟨[line], .ok ()⟩

def ofOutcome (outcome : Except UnknownNode α) : Printed α := ⟨[], outcome⟩

/-! ### Running one after the other -/

theorem bind_ok (lines : List Line) (value : α) (next : α → Printed β) :
    ((⟨lines, .ok value⟩ : Printed α) >>= next) =
      ⟨lines ++ (next value).lines, (next value).outcome⟩ := rfl

theorem bind_error (lines : List Line) (node : UnknownNode) (next : α → Printed β) :
    ((⟨lines, .error node⟩ : Printed α) >>= next) = ⟨lines, .error node⟩ := rfl

/-- Runs can be regrouped, and an empty run in between changes nothing. -/
instance : LawfulMonad Printed :=
  LawfulMonad.mk' Printed
    (fun ⟨lines, outcome⟩ => by
      cases outcome with
      | error node => rfl
      | ok value => exact congrArg (Printed.mk · (.ok value)) (List.append_nil lines))
    (fun _ _ => rfl)
    (fun ⟨lines, outcome⟩ next last => by
      cases outcome with
      | error node => rfl
      | ok value =>
        rw [bind_ok, bind_ok]
        cases hn : next value with
        | mk lines' outcome' =>
          cases outcome' with
          | error node => rfl
          | ok value' => simp [bind_ok])

@[simp] theorem ofOutcome_ok (value : α) : ofOutcome (.ok value) = pure value := rfl

@[simp] theorem ofOutcome_error_bind (node : UnknownNode) (next : α → Printed β) :
    (ofOutcome (.error node) >>= next) = ofOutcome (.error node) := rfl

@[simp] theorem lines_write_bind (line : Line) (next : Unit → Printed α) :
    (write line >>= next).lines = line :: (next ()).lines := rfl

@[simp] theorem outcome_write_bind (line : Line) (next : Unit → Printed α) :
    (write line >>= next).outcome = (next ()).outcome := rfl

end Printed

/-- Where printed lines go when nobody asks for them elsewhere. -/
inductive Channel where
  | output
  | diagnostics
  deriving DecidableEq, Repr

/-! ### Reports -/

namespace Expr

/-- The notice that goes with a rejection. -/
def rejectionText (rejection : Rejection) : String :=
  "Type checking failed: " ++ rejection.message

/-- The type of an expression, or why it has none, in words. -/
def typeText (Γ : Context) (e : Expr) : Except UnknownNode String :=
  (e.judge Γ).map fun
    | .ok type => "Inferred type: " ++ type.text
    | .error rejection => rejectionText rejection

/-- Whether an expression is well-typed. -/
def report (Γ : Context) (e : Expr) : Printed Bool := do
  match ← .ofOutcome (e.judge Γ) with
  | .ok _ => return true
  | .error rejection =>
    Printed.write (.notice (rejectionText rejection))
    return false

/-- Notices are meant for the reader, apart from any output. -/
def reportChannel : Channel := .diagnostics

end Expr

end SimplyTyped
