import SimplyTyped.Proofs.Reader
import SimplyTyped.Ty

/-!
# Reading types

The text of a type can be read back, also from the front of a longer text. The one
difficulty is where a type ends: an arrow after a type may belong to it, or stand
between the type and an expression. What follows the arrow tells, because a type
begins with the name of a ground type after its parentheses, and no expression does.

So the text of a type determines it, and to compare texts is to compare types.
-/

namespace SimplyTyped.Ty

/-! ### How types begin -/

def chars (t : Ty) : List Char := t.text.toList

theorem chars_arrow (param result : Ty) :
    (arrow param result).chars =
      parenthesised (!param.isArrow) param.chars ++ (" -> ".toList ++ result.chars) := by
  simp only [chars, text, parenthesised]
  cases param.isArrow <;> simp [String.toList_append]

def groundWords : List (List Char) := ["Number".toList, "Boolean".toList]

theorem leadingWord_chars (t : Ty) (rest : List Char) (hrest : Separated rest) :
    leadingWord (t.chars ++ rest) ∈ groundWords := by
  induction t generalizing rest with
  | number =>
    have hlead : leadingWord (number.chars ++ rest) = "Number".toList :=
      leadingWord_append (by decide) (by decide) hrest
    simp [hlead, groundWords]
  | boolean =>
    have hlead : leadingWord (boolean.chars ++ rest) = "Boolean".toList :=
      leadingWord_append (by decide) (by decide) hrest
    simp [hlead, groundWords]
  | arrow param result ihp _ =>
    rw [chars_arrow, List.append_assoc]
    cases param.isArrow with
    | true =>
      rw [Bool.not_true, leadingWord_parenthesised]
      exact ihp (")".toList ++ ((" -> ".toList ++ result.chars) ++ rest)) rfl
    | false => exact ihp ((" -> ".toList ++ result.chars) ++ rest) rfl

/-! ### Reading a type -/

/-- Whether a text goes on with an arrow and a result type. -/
def goesOn (cs : List Char) : Bool :=
  " -> ".toList.isPrefixOf cs && groundWords.contains (leadingWord (cs.drop 4))

def readGround : Reader Ty := do
  let w ← word
  if w = "Number".toList then return number
  else if w = "Boolean".toList then return boolean
  else failure

/-- Reads a type. The first argument bounds how deep types are nested. -/
def read : Nat → Reader Ty
  | 0 => failure
  | n + 1 => do
    let param ← readParenthesised (read n) readGround
    let cs ← get
    if goesOn cs then
      skip " -> "
      let result ← read n
      return arrow param result
    else return param

/-- A type is read off the front of every text that does not go on with it. -/
def ReadsBack (t : Ty) (n : Nat) : Prop :=
  ∀ rest, Separated rest → goesOn rest = false → Reads (read n) t.chars t rest

theorem goesOn_arrow (cs : List Char) :
    goesOn (" -> ".toList ++ cs) = groundWords.contains (leadingWord cs) := by
  have hprefix : " -> ".toList.isPrefixOf (" -> ".toList ++ cs) = true :=
    List.isPrefixOf_iff_prefix.2 ⟨cs, rfl⟩
  rw [goesOn, hprefix]
  rfl

theorem goesOn_result (t : Ty) (rest : List Char) (hrest : Separated rest) :
    goesOn ((" -> ".toList ++ t.chars) ++ rest) = true := by
  have hlead := leadingWord_chars t rest hrest
  rw [List.append_assoc, goesOn_arrow]
  simpa using hlead

theorem reads_ground {t : Ty} (ht : t.isArrow = false) {rest : List Char}
    (hrest : Separated rest) : Reads readGround t.chars t rest := by
  cases t with
  | number => exact (reads_word (by decide) hrest).bind_nil rfl
  | boolean => exact (reads_word (by decide) hrest).bind_nil rfl
  | arrow param result => cases ht

theorem head?_ground {t : Ty} (ht : t.isArrow = false) (rest : List Char) :
    (t.chars ++ rest).head? ≠ some '(' := by
  cases t with
  | number => exact head?_word (by decide) (by decide) rest
  | boolean => exact head?_word (by decide) (by decide) rest
  | arrow param result => cases ht

theorem reads_param {n : Nat} {t : Ty} {rest : List Char}
    (h : Reads (read n) t.chars t (")".toList ++ rest)) (hrest : Separated rest) :
    Reads (readParenthesised (read n) readGround) (parenthesised (!t.isArrow) t.chars) t rest := by
  cases harrow : t.isArrow with
  | true => exact reads_inside h
  | false => exact reads_outside (reads_ground harrow hrest) (head?_ground harrow rest)

theorem reads_chars_of_ground {t : Ty} (ht : t.isArrow = false) :
    ∃ depth, ∀ n ≥ depth, t.ReadsBack n := by
  refine ⟨1, ?_⟩
  intro n hn rest hrest hend
  obtain ⟨m, rfl⟩ : ∃ m, n = m + 1 := ⟨n - 1, by omega⟩
  have hfirst : Reads (readParenthesised (read m) readGround) t.chars t rest :=
    reads_outside (reads_ground ht hrest) (head?_ground ht rest)
  apply hfirst.bind_nil
  apply Reads.get
  rw [List.nil_append, hend]
  rfl

/-- **Types can be read back**, with enough depth. -/
theorem reads_chars (t : Ty) : ∃ depth, ∀ n ≥ depth, t.ReadsBack n := by
  induction t with
  | number => exact reads_chars_of_ground rfl
  | boolean => exact reads_chars_of_ground rfl
  | arrow param result ihp ihr =>
    obtain ⟨d, hp⟩ := ihp
    obtain ⟨d', hr⟩ := ihr
    refine ⟨d + d' + 1, ?_⟩
    intro n hn rest hrest hend
    obtain ⟨m, rfl⟩ : ∃ m, n = m + 1 := ⟨n - 1, by omega⟩
    have hparam : Reads (read m) param.chars param
        (")".toList ++ ((" -> ".toList ++ result.chars) ++ rest)) :=
      hp m (by omega) _ rfl rfl
    have hresult : Reads (read m) result.chars result rest := hr m (by omega) rest hrest hend
    rw [chars_arrow]
    apply (reads_param hparam rfl).bind
    apply Reads.get
    rw [if_pos (goesOn_result result rest hrest)]
    apply (reads_skip " -> " _).bind
    exact hresult.map (arrow param)

/-- Unique reading: a text that begins with a type, and does not go on with it, says which
    type it is and where it ends. -/
theorem chars_append_inj {s t : Ty} {rest rest' : List Char} (hrest : Separated rest)
    (hend : goesOn rest = false) (hrest' : Separated rest') (hend' : goesOn rest' = false)
    (h : s.chars ++ rest = t.chars ++ rest') : s = t ∧ rest = rest' := by
  obtain ⟨d, hs⟩ := reads_chars s
  obtain ⟨d', ht⟩ := reads_chars t
  have hrs : read (d + d') (s.chars ++ rest) = some (s, rest) := hs _ (by omega) rest hrest hend
  have hrt : read (d + d') (t.chars ++ rest') = some (t, rest') :=
    ht _ (by omega) rest' hrest' hend'
  rw [h, hrt] at hrs
  cases hrs
  exact ⟨rfl, rfl⟩

theorem chars_inj {s t : Ty} (h : s.chars = t.chars) : s = t := by
  have hseparated : Separated [] := trivial
  have hend : goesOn [] = false := rfl
  have happend : s.chars ++ [] = t.chars ++ [] := by rw [h]
  exact (chars_append_inj hseparated hend hseparated hend happend).1

theorem text_injective : Function.Injective text := by
  intro s t h
  exact chars_inj (congrArg String.toList h)

/-- **One identity of types.** Two types have the same shape exactly when they are equal,
    and exactly when they have the same text: no parenthesis is left out that is needed to
    tell a type. -/
theorem same_iff_eq_iff_text_eq (s t : Ty) :
    (s.same t = true ↔ s = t) ∧ (s = t ↔ s.text = t.text) := by
  constructor
  · exact same_iff
  · constructor
    · intro h
      rw [h]
    · intro h
      exact text_injective h

/-- Two nestings of three types. -/
example :
    (arrow (arrow number boolean) number).text = "(Number -> Boolean) -> Number" ∧
      (arrow number (arrow boolean number)).text = "Number -> Boolean -> Number" := by
  decide

end SimplyTyped.Ty
