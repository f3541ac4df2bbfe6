import SimplyTyped.Context

/-!
# Sessions

A session keeps every context made so far and numbers them from zero on. Number
zero is the empty context. Contexts are never changed, so a number means the same
context for the whole session.
-/

namespace SimplyTyped

/-- The contexts of a session, in the order they were made. -/
structure Session where
  contexts : Array Context

namespace Session

/-- A session in which only the empty context is known. -/
def start : Session := ⟨#[.empty]⟩

def get? (s : Session) (id : Nat) : Option Context := s.contexts[id]?

/-- Keeps a context under the next free number. -/
def push (s : Session) (Γ : Context) : Nat × Session :=
  (s.contexts.size, ⟨s.contexts.push Γ⟩)

end Session

end SimplyTyped
