import SimplyTyped.Proofs.Blame
import SimplyTyped.Proofs.TypeNotation
import SimplyTyped.Report

/-!
# What a report tells

A report on an expression is a text, and types and names are only pieces of it. This module
shows that nothing is lost: from the text one can tell whether there is a type, and which
one, or what the fault is, with the name or the types that belong to it. Only the node that
a rejection points at is not in the text.

Names may be any strings, so a name can spell out a whole message. The kinds of faults stay
apart all the same, because they differ before the name begins. Two messages begin alike, and
there the first word of a type tells them apart; two types in one message are told apart by
unique reading (`Ty.chars_append_inj`).
-/

namespace SimplyTyped

/-! ### The faults that inference finds -/

/-- A fault that a typing rule can give. The types of a mismatch differ, what is no function
    has no function type, and nothing is found in other words than these. -/
def Fault.Genuine : Fault → Prop
  | unbound _ => True
  | mismatch expected actual => expected ≠ actual
  | notFunction actual => ∀ param result, actual ≠ .arrow param result
  | stated _ => False

/-- Inference finds genuine faults only: the blame lies at a place, and a place has no other
    way to break. -/
theorem Expr.genuine_of_infer {Γ : Context} {e : Expr} {r : Rejection}
    (h : e.infer Γ = .error (.rejected r)) : r.fault.Genuine := by
  obtain ⟨path, _, ⟨scope, node, demand⟩, _, hbreaks⟩ :=
    Place.fails_iff_blamed.1 (Place.fails_nothing_iff.2 h)
  rcases hbreaks with hstuck | ⟨t, _, hunmet⟩
  · cases hstuck
    trivial
  · cases hunmet with
    | mismatch hne => exact hne
    | notFunction harrow => exact harrow

/-! ### Messages -/

namespace Fault

def chars (f : Fault) : List Char := f.message.toList

theorem chars_unbound (x : String) : (unbound x).chars = "Unbound variable: ".toList ++ x.toList :=
  String.toList_append

theorem chars_mismatch (s t : Ty) :
    (mismatch s t).chars =
      "Type mismatch: expected ".toList ++ (s.chars ++ (", but got ".toList ++ t.chars)) := by
  show ("Type mismatch: expected " ++ s.text ++ ", but got " ++ t.text).toList = _
  simp only [Ty.chars, String.toList_append, List.append_assoc]

theorem chars_notFunction (t : Ty) :
    (notFunction t).chars =
      "Type mismatch: expected ".toList ++ ("a function, but got ".toList ++ t.chars) := by
  have hsplit : "Type mismatch: expected a function, but got " =
      "Type mismatch: expected " ++ "a function, but got " := by decide
  show ("Type mismatch: expected a function, but got " ++ t.text).toList = _
  rw [hsplit, String.toList_append, String.toList_append, List.append_assoc, Ty.chars]

theorem chars_unbound_ne (x : String) (cs : List Char) :
    (unbound x).chars ≠ "Type mismatch: expected ".toList ++ cs := by
  rw [chars_unbound]
  intro h
  have hfirst : some 'U' = some 'T' := congrArg List.head? h
  exact absurd hfirst (by decide)

/-- After the same beginning, one message goes on with a type and the other does not. -/
theorem chars_mismatch_ne_notFunction (s t t' : Ty) :
    (mismatch s t).chars ≠ (notFunction t').chars := by
  intro h
  rw [chars_mismatch, chars_notFunction] at h
  have htype := List.append_cancel_left h
  have hlead := Ty.leadingWord_chars s (", but got ".toList ++ t.chars) rfl
  have hword : leadingWord ("a function, but got ".toList ++ t'.chars) = "a".toList := rfl
  rw [htype, hword] at hlead
  exact absurd hlead (by decide)

theorem chars_mismatch_inj {s t s' t' : Ty} (h : (mismatch s t).chars = (mismatch s' t').chars) :
    s = s' ∧ t = t' := by
  -- Between the two types stands a comma, and no type goes on with one.
  have hseparated : ∀ cs, Separated (", but got ".toList ++ cs) := fun _ => rfl
  have hend : ∀ cs, Ty.goesOn (", but got ".toList ++ cs) = false := fun _ => rfl
  rw [chars_mismatch, chars_mismatch] at h
  obtain ⟨hs, hrest⟩ := Ty.chars_append_inj (hseparated _) (hend _) (hseparated _) (hend _)
    (List.append_cancel_left h)
  exact ⟨hs, Ty.chars_inj (List.append_cancel_left hrest)⟩

/-- A genuine fault can be told from its message. -/
theorem message_inj {f g : Fault} (hf : f.Genuine) (hg : g.Genuine) (h : f.message = g.message) :
    f = g := by
  have hchars : f.chars = g.chars := congrArg String.toList h
  cases f with
  | unbound x =>
    cases g with
    | unbound y =>
      rw [chars_unbound, chars_unbound] at hchars
      rw [String.toList_inj.1 (List.append_cancel_left hchars)]
    | mismatch s t => exact absurd (hchars.trans (chars_mismatch s t)) (chars_unbound_ne x _)
    | notFunction t => exact absurd (hchars.trans (chars_notFunction t)) (chars_unbound_ne x _)
    | stated message => cases hg
  | mismatch s t =>
    cases g with
    | unbound y => exact absurd (hchars.symm.trans (chars_mismatch s t)) (chars_unbound_ne y _)
    | mismatch s' t' =>
      obtain ⟨rfl, rfl⟩ := chars_mismatch_inj hchars
      rfl
    | notFunction t' => exact absurd hchars (chars_mismatch_ne_notFunction s t t')
    | stated message => cases hg
  | notFunction t =>
    cases g with
    | unbound y => exact absurd (hchars.symm.trans (chars_notFunction t)) (chars_unbound_ne y _)
    | mismatch s' t' => exact absurd hchars.symm (chars_mismatch_ne_notFunction s' t' t)
    | notFunction t' =>
      rw [chars_notFunction, chars_notFunction] at hchars
      rw [Ty.chars_inj (List.append_cancel_left (List.append_cancel_left hchars))]
    | stated message => cases hg
  | stated message => cases hf

end Fault

/-! ### Reports -/

namespace Expr

section

variable {Γ : Context} {e : Expr}

theorem typeText_of_ok {t : Ty} (h : e.infer Γ = .ok t) :
    e.typeText Γ = .ok ("Inferred type: " ++ t.text) := by
  simp only [typeText, judge, h]
  rfl

theorem typeText_of_rejected {r : Rejection} (h : e.infer Γ = .error (.rejected r)) :
    e.typeText Γ = .ok ("Type checking failed: " ++ r.fault.message) := by
  simp only [typeText, judge, h]
  rfl

theorem ok_or_rejected (h : ∀ u, e.infer Γ ≠ .error (.unknown u)) :
    (∃ t, e.infer Γ = .ok t) ∨ ∃ r, e.infer Γ = .error (.rejected r) := by
  rcases ok_or_error (e.infer Γ) with hok | ⟨f, hf⟩
  · exact .inl hok
  · cases f with
    | rejected r => exact .inr ⟨r, hf⟩
    | unknown u => exact absurd hf (h u)

end

theorem inferred_ne_failed (t : Ty) (f : Fault) :
    "Inferred type: " ++ t.text ≠ "Type checking failed: " ++ f.message := by
  intro h
  have hlists := congrArg String.toList h
  rw [String.toList_append, String.toList_append] at hlists
  have hfirst : some 'I' = some 'T' := congrArg List.head? hlists
  exact absurd hfirst (by decide)

theorem inferred_eq_iff {s t : Ty} :
    "Inferred type: " ++ s.text = "Inferred type: " ++ t.text ↔ s = t := by
  rw [String.append_right_inj]
  exact ⟨fun h => Ty.text_injective h, congrArg Ty.text⟩

theorem failed_eq_iff {f g : Fault} (hf : f.Genuine) (hg : g.Genuine) :
    "Type checking failed: " ++ f.message = "Type checking failed: " ++ g.message ↔ f = g := by
  rw [String.append_right_inj]
  exact ⟨Fault.message_inj hf hg, congrArg Fault.message⟩

/-- **A report loses nothing but the node.** Where no foreign node is reached there are
    reports, and two of them are the same text exactly when both expressions have one type,
    or are rejected for one fault: of the same kind, with the same name or the same types. A
    mismatch is never reported with one text for both of its types. -/
theorem typeText_eq_iff_same_finding (Γ Γ' : Context) (e e' : Expr)
    (h : ∀ u, e.infer Γ ≠ .error (.unknown u)) (h' : ∀ u, e'.infer Γ' ≠ .error (.unknown u)) :
    (∃ text text', e.typeText Γ = .ok text ∧ e'.typeText Γ' = .ok text' ∧
      (text = text' ↔
        (∃ t, e.infer Γ = .ok t ∧ e'.infer Γ' = .ok t) ∨
          ∃ r r', e.infer Γ = .error (.rejected r) ∧ e'.infer Γ' = .error (.rejected r') ∧
            r.fault = r'.fault)) ∧
    ∀ expected actual node, e.infer Γ = .error (.rejected ⟨.mismatch expected actual, node⟩) →
      expected.text ≠ actual.text := by
  constructor
  · rcases ok_or_rejected h with ⟨t, ht⟩ | ⟨r, hr⟩
    · rcases ok_or_rejected h' with ⟨t', ht'⟩ | ⟨r', hr'⟩
      · refine ⟨_, _, typeText_of_ok ht, typeText_of_ok ht', ?_⟩
        rw [ht, ht', inferred_eq_iff]
        simp [eq_comm]
      · refine ⟨_, _, typeText_of_ok ht, typeText_of_rejected hr', ?_⟩
        rw [ht, hr']
        simp [inferred_ne_failed]
    · rcases ok_or_rejected h' with ⟨t', ht'⟩ | ⟨r', hr'⟩
      · refine ⟨_, _, typeText_of_rejected hr, typeText_of_ok ht', ?_⟩
        rw [hr, ht']
        simp [(inferred_ne_failed t' r.fault).symm]
      · refine ⟨_, _, typeText_of_rejected hr, typeText_of_rejected hr', ?_⟩
        rw [hr, hr', failed_eq_iff (genuine_of_infer hr) (genuine_of_infer hr')]
        simp
  · intro expected actual node hmismatch htext
    have hgenuine : expected ≠ actual := genuine_of_infer hmismatch
    exact hgenuine (Ty.text_injective htext)

/-- A mismatch inside an operation and one at an argument, in different contexts and at
    different nodes, have one report. A variable whose name spells out the message of this
    mismatch has another. -/
theorem typeText_eq_iff_same_finding_call :
    let Γ : Context := .ofList [("f", .arrow .number .number), ("b", .boolean)]
    let call : Expr := .app (.var "f") (.var "b")
    let sum : Expr := .binary .plus (.num (.int 1)) (.bool true)
    let posing : Expr := .var "Type mismatch: expected Number, but got Boolean"
    (call.infer Γ = .error (.rejected ⟨.mismatch .number .boolean, some (.var "b")⟩) ∧
      sum.infer .empty = .error (.rejected ⟨.mismatch .number .boolean, some (.bool true)⟩) ∧
      call.typeText Γ = sum.typeText .empty) ∧
    (∃ node, posing.infer .empty = .error (.rejected
        ⟨.unbound "Type mismatch: expected Number, but got Boolean", node⟩)) ∧
    call.typeText Γ ≠ posing.typeText .empty ∧ Ty.number.text ≠ Ty.boolean.text := by
  intro Γ call sum posing
  obtain ⟨⟨text, text', hcall, hsum, hsame⟩, hdiffer⟩ :=
    typeText_eq_iff_same_finding Γ .empty call sum nofun nofun
  obtain ⟨⟨text₁, text₂, hcall', hposing, hother⟩, _⟩ :=
    typeText_eq_iff_same_finding Γ .empty call posing nofun nofun
  refine ⟨⟨rfl, rfl, ?_⟩, ⟨_, rfl⟩, ?_, hdiffer .number .boolean _ rfl⟩
  · rw [hcall, hsum, hsame.2 (.inr ⟨_, _, rfl, rfl, rfl⟩)]
  · intro htext
    rw [hcall', hposing] at htext
    rcases hother.1 (Except.ok.inj htext) with ⟨t, ht, _⟩ | ⟨r, r', hr, hr', hfault⟩
    · cases ht
    · cases hr
      cases hr'
      cases hfault

end Expr

end SimplyTyped
