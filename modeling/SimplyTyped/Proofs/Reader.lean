/-!
# Readers

A reader takes something off the front of a text, or fails. `Reads r text a rest`
says that `r` takes exactly `text` off the front of `text ++ rest` and gives `a`.
Readers run one after the other read one text after the other (`Reads.bind`), so a
proof that a composed reader reads a composed text has the shape of the text.
-/

namespace SimplyTyped

abbrev Reader := StateT (List Char) Option

def Reads {α : Type} (reader : Reader α) (text : List Char) (value : α) (rest : List Char) :
    Prop :=
  reader (text ++ rest) = some (value, rest)

namespace Reads

variable {α β : Type} {reader : Reader α} {next : α → Reader β} {text text' rest : List Char}
  {a : α} {b : β}

theorem run_bind (h : Reads reader text a rest) :
    (reader >>= next) (text ++ rest) = next a rest := by
  unfold Reads at h
  calc (reader >>= next) (text ++ rest)
      = (reader (text ++ rest)).bind fun p => next p.1 p.2 := rfl
    _ = next a rest := by rw [h]; rfl

theorem bind (h : Reads reader text a (text' ++ rest)) (h' : Reads (next a) text' b rest) :
    Reads (reader >>= next) (text ++ text') b rest := by
  unfold Reads
  rw [List.append_assoc, h.run_bind]
  exact h'

theorem bind_nil (h : Reads reader text a rest) (h' : Reads (next a) [] b rest) :
    Reads (reader >>= next) text b rest := by
  have hbind : Reads (reader >>= next) (text ++ []) b rest := bind h h'
  rwa [List.append_nil] at hbind

theorem map (h : Reads reader text a rest) (f : α → β) :
    Reads (reader >>= fun a => pure (f a)) text (f a) rest := h.run_bind

theorem get {next : List Char → Reader β} (h : Reads (next (text ++ rest)) text b rest) :
    Reads (get >>= next) text b rest := h

end Reads

/-! ### Fixed texts -/

def skip (s : String) : Reader Unit := fun cs =>
  if s.toList.isPrefixOf cs then some ((), cs.drop s.toList.length) else none

theorem reads_skip (s : String) (rest : List Char) : Reads (skip s) s.toList () rest := by
  have hprefix : s.toList.isPrefixOf (s.toList ++ rest) = true :=
    List.isPrefixOf_iff_prefix.2 ⟨rest, rfl⟩
  simp only [Reads, skip, hprefix, List.drop_left, if_true]

/-! ### Words -/

/-- The characters of words: of names, keywords and integers. -/
def isWordChar (c : Char) : Bool := c.isAlphanum || c == '_' || c == '-'

def firstWord (cs : List Char) : List Char := cs.takeWhile isWordChar

def word : Reader (List Char) := fun cs => some (firstWord cs, cs.dropWhile isWordChar)

/-- No word goes on at the front of a text. -/
def Separated : List Char → Prop
  | [] => True
  | c :: _ => isWordChar c = false

theorem firstWord_append {w rest : List Char} (hw : w.all isWordChar = true)
    (hrest : Separated rest) : firstWord (w ++ rest) = w := by
  rw [List.all_eq_true] at hw
  rw [firstWord, List.takeWhile_append_of_pos hw]
  rcases rest with _ | ⟨c, rest⟩
  · exact List.append_nil w
  · have hc : isWordChar c = false := hrest
    rw [List.takeWhile_cons, hc]
    exact List.append_nil w

theorem reads_word {w rest : List Char} (hw : w.all isWordChar = true) (hrest : Separated rest) :
    Reads word w w rest := by
  have hdrop : (w ++ rest).dropWhile isWordChar = rest := by
    rw [List.dropWhile_append_of_pos (List.all_eq_true.1 hw)]
    rcases rest with _ | ⟨c, rest⟩
    · rfl
    · have hc : isWordChar c = false := hrest
      rw [List.dropWhile_cons, hc]
      rfl
  rw [Reads, word, firstWord_append hw hrest, hdrop]

/-! ### Parentheses -/

def parenthesised (bare : Bool) (text : List Char) : List Char :=
  if bare then text else "(".toList ++ (text ++ ")".toList)

/-- Reads in parentheses if the text opens one, and otherwise without. -/
def readParenthesised {α : Type} (inside outside : Reader α) : Reader α := do
  let cs ← get
  if cs.head? = some '(' then
    skip "("
    let a ← inside
    skip ")"
    return a
  else outside

theorem reads_inside {α : Type} {inside outside : Reader α} {text rest : List Char} {a : α}
    (h : Reads inside text a (")".toList ++ rest)) :
    Reads (readParenthesised inside outside) (parenthesised false text) a rest := by
  have hopens : (parenthesised false text ++ rest).head? = some '(' := rfl
  apply Reads.get
  rw [if_pos hopens]
  apply (reads_skip "(" _).bind
  apply h.bind
  exact (reads_skip ")" rest).map fun _ => a

theorem reads_outside {α : Type} {inside outside : Reader α} {text rest : List Char} {a : α}
    (h : Reads outside text a rest) (hhead : (text ++ rest).head? ≠ some '(') :
    Reads (readParenthesised inside outside) (parenthesised true text) a rest := by
  have hbare : parenthesised true text = text := rfl
  rw [hbare]
  apply Reads.get
  rw [if_neg hhead]
  exact h

/-- The first word after any number of opening parentheses. -/
def leadingWord (cs : List Char) : List Char := firstWord (cs.dropWhile (· == '('))

theorem leadingWord_parenthesised (text rest : List Char) :
    leadingWord (parenthesised false text ++ rest) =
      leadingWord (text ++ (")".toList ++ rest)) := by
  have happend : parenthesised false text ++ rest = '(' :: (text ++ (")".toList ++ rest)) := by
    simp [parenthesised]
  rw [happend]
  rfl

theorem leadingWord_of_head? {cs : List Char} (h : cs.head? ≠ some '(') :
    leadingWord cs = firstWord cs := by
  cases cs with
  | nil => rfl
  | cons c cs =>
    have hc : (c == '(') = false := by simpa using h
    rw [leadingWord, List.dropWhile_cons, hc]
    rfl

theorem head?_word {w : List Char} (hw : w.all isWordChar = true) (hne : w ≠ [])
    (rest : List Char) : (w ++ rest).head? ≠ some '(' := by
  obtain ⟨c, w, rfl⟩ := List.exists_cons_of_ne_nil hne
  have hc : isWordChar c = true := List.all_eq_true.1 hw c List.mem_cons_self
  intro h
  have hparen : c = '(' := Option.some.inj h
  rw [hparen] at hc
  exact absurd hc (by decide)

theorem leadingWord_append {w rest : List Char} (hw : w.all isWordChar = true) (hne : w ≠ [])
    (hrest : Separated rest) : leadingWord (w ++ rest) = w := by
  rw [leadingWord_of_head? (head?_word hw hne rest)]
  exact firstWord_append hw hrest

end SimplyTyped
