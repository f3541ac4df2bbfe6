import SimplyTyped.Expr.Surface
import SimplyTyped.Proofs.TypeNotation

/-!
# How expressions are written

An expression is plain when its names are names of the language, its numerals are
integers and no node is foreign. This module has what a reader needs to know about
the surface form of a plain expression: its pieces in order, that the atoms are words
that stand for themselves and for nothing else (`AtomWord`), and how expressions
begin. An operand never begins with a keyword, and no expression begins with the name
of a ground type.
-/

namespace SimplyTyped

/-! ### Plain expressions -/

def reserved : List String :=
  ["let", "letfun", "in", "if", "then", "else", "fun", "true", "false", "Number", "Boolean"]

/-- Whether a text is a name: a letter or underscore, followed by letters, digits and
    underscores, and not a reserved word. -/
def isName (s : String) : Bool :=
  match s.toList with
  | [] => false
  | c :: cs =>
    (c.isAlpha || c == '_') && cs.all (fun c => c.isAlphanum || c == '_') && !reserved.contains s

namespace Expr

/-- Whether all names are names of the language, all numerals are integers and no
    node is foreign. -/
def isPlain : Expr → Bool
  | num (.int _) => true
  | num (.double _) => false
  | bool _ => true
  | var x => isName x
  | letIn x value body => isName x && value.isPlain && body.isPlain
  | binary _ left right => left.isPlain && right.isPlain
  | cond condition thenBranch elseBranch =>
    condition.isPlain && thenBranch.isPlain && elseBranch.isPlain
  | lam x _ body => isName x && body.isPlain
  | app function argument => function.isPlain && argument.isPlain
  | letRec name param _ _ definition body =>
    isName name && isName param && definition.isPlain && body.isPlain
  | foreign _ => false

/-! ### The text of an expression -/

/-- The surface form of an expression without foreign nodes. -/
def text : Expr → String
  | num value => value.text
  | bool value => boolWord value
  | var x => x
  | letIn x value body => "let " ++ x ++ " = " ++ value.text ++ " in " ++ body.text
  | binary op left right =>
    left.enclosed left.text ++ " " ++ op.symbol ++ " " ++ right.enclosed right.text
  | cond condition thenBranch elseBranch =>
    "if " ++ condition.text ++ " then " ++ thenBranch.text ++ " else " ++ elseBranch.text
  | lam x paramType body => "fun (" ++ parameterText x paramType ++ ") -> " ++ body.text
  | app function argument => function.enclosed function.text ++ "(" ++ argument.text ++ ")"
  | letRec name param paramType returnType definition body =>
    "letfun " ++ signatureText name param paramType returnType ++ " -> " ++ definition.text
      ++ " in " ++ body.text
  | foreign _ => ""

theorem surface_of_isPlain {e : Expr} (h : e.isPlain = true) : e.surface = .ok e.text := by
  induction e with
  | num value => rfl
  | bool value => rfl
  | var x => rfl
  | letIn x value body ihv ihb =>
    simp only [isPlain, Bool.and_eq_true] at h
    simp only [surface, ihv h.1.2, ihb h.2, text]
    rfl
  | binary op left right ihl ihr =>
    simp only [isPlain, Bool.and_eq_true] at h
    simp only [surface, ihl h.1, ihr h.2, text]
    rfl
  | cond condition thenBranch elseBranch ihc iha ihb =>
    simp only [isPlain, Bool.and_eq_true] at h
    simp only [surface, ihc h.1.1, iha h.1.2, ihb h.2, text]
    rfl
  | lam x paramType body ih =>
    simp only [isPlain, Bool.and_eq_true] at h
    simp only [surface, ih h.2, text]
    rfl
  | app function argument ihf iha =>
    simp only [isPlain, Bool.and_eq_true] at h
    simp only [surface, ihf h.1, iha h.2, text]
    rfl
  | letRec name param paramType returnType definition body ihd ihb =>
    simp only [isPlain, Bool.and_eq_true] at h
    simp only [surface, ihd h.1.2, ihb h.2, text]
    rfl
  | foreign kind => cases h

def chars (e : Expr) : List Char := e.text.toList

def operandChars (e : Expr) : List Char := parenthesised e.isAtom e.chars

theorem toList_enclosed (e : Expr) : (e.enclosed e.text).toList = e.operandChars := by
  unfold enclosed operandChars parenthesised chars
  split <;> simp [String.toList_append]

theorem chars_letIn (x : String) (value body : Expr) :
    (letIn x value body).chars =
      "let ".toList ++ (x.toList ++ (" = ".toList ++ (value.chars ++
        (" in ".toList ++ body.chars)))) := by
  show ("let " ++ x ++ " = " ++ value.text ++ " in " ++ body.text).toList = _
  simp only [chars, String.toList_append, List.append_assoc]

theorem chars_binary (op : BinOp) (left right : Expr) :
    (binary op left right).chars =
      left.operandChars ++ ((" " ++ op.symbol ++ " ").toList ++ right.operandChars) := by
  show (left.enclosed left.text ++ " " ++ op.symbol ++ " " ++ right.enclosed right.text).toList = _
  simp only [← toList_enclosed, String.toList_append, List.append_assoc]

theorem chars_cond (condition thenBranch elseBranch : Expr) :
    (cond condition thenBranch elseBranch).chars =
      "if ".toList ++ (condition.chars ++ (" then ".toList ++ (thenBranch.chars ++
        (" else ".toList ++ elseBranch.chars)))) := by
  show ("if " ++ condition.text ++ " then " ++ thenBranch.text ++ " else "
    ++ elseBranch.text).toList = _
  simp only [chars, String.toList_append, List.append_assoc]

theorem chars_lam (x : String) (paramType : Ty) (body : Expr) :
    (lam x paramType body).chars =
      "fun (".toList ++ (x.toList ++ (" : ".toList ++ (paramType.chars ++
        (") -> ".toList ++ body.chars)))) := by
  show ("fun (" ++ parameterText x paramType ++ ") -> " ++ body.text).toList = _
  simp only [chars, parameterText, Ty.chars, String.toList_append, List.append_assoc]

theorem chars_app (function argument : Expr) :
    (app function argument).chars =
      function.operandChars ++ parenthesised false argument.chars := by
  have hparen : parenthesised false argument.chars =
      "(".toList ++ (argument.chars ++ ")".toList) := rfl
  rw [hparen]
  show (function.enclosed function.text ++ "(" ++ argument.text ++ ")").toList = _
  simp only [← toList_enclosed, chars, String.toList_append, List.append_assoc]

theorem chars_letRec (name param : String) (paramType returnType : Ty) (definition body : Expr) :
    (letRec name param paramType returnType definition body).chars =
      "letfun ".toList ++ (name.toList ++ ("(".toList ++ (param.toList ++ (" : ".toList ++
        (paramType.chars ++ ("): ".toList ++ (returnType.chars ++ (" -> ".toList ++
          (definition.chars ++ (" in ".toList ++ body.chars)))))))))) := by
  show ("letfun " ++ signatureText name param paramType returnType ++ " -> " ++ definition.text
    ++ " in " ++ body.text).toList = _
  simp only [chars, signatureText, parameterText, Ty.chars, String.toList_append,
    List.append_assoc]

/-! ### Atoms -/

def startsInt (w : List Char) : Bool := w.head?.any fun c => c.isDigit || c == '-'

def intOf : List Char → Int
  | '-' :: digits => -(Nat.ofDigitChars 10 digits 0 : Int)
  | digits => Nat.ofDigitChars 10 digits 0

def atomOf (w : List Char) : Expr :=
  if w = "true".toList then bool true
  else if w = "false".toList then bool false
  else if startsInt w then num (.int (intOf w))
  else var (String.ofList w)

def formWords : List (List Char) := ["let", "if", "fun", "letfun"].map String.toList

/-- A word that is read as an atom and as nothing else. -/
structure AtomWord (w : List Char) (e : Expr) : Prop where
  wordChars : w.all isWordChar = true
  nonempty : w ≠ []
  notForm : w ∉ formWords
  notGround : w ∉ Ty.groundWords
  atom : atomOf w = e

theorem atomWord_bool (b : Bool) : AtomWord (boolWord b).toList (bool b) := by
  cases b with
  | true => exact ⟨by decide, by decide, by decide, by decide, rfl⟩
  | false => exact ⟨by decide, by decide, by decide, by decide, rfl⟩

theorem toList_text_int (v : Int) :
    (Numeral.int v).text.toList =
      if v < 0 then '-' :: Nat.toDigits 10 v.natAbs else Nat.toDigits 10 v.natAbs := by
  simp only [Numeral.text, Numeral.signed, decide_eq_true_eq]
  split
  · rw [String.toList_append, Nat.toList_repr]
    rfl
  · exact Nat.toList_repr

theorem isDigit_of_mem_toDigits {n : Nat} {c : Char} (hc : c ∈ Nat.toDigits 10 n) :
    c.isDigit = true :=
  Nat.isDigit_of_mem_toDigits (by decide) (by decide) hc

theorem intOf_toDigits (n : Nat) : intOf (Nat.toDigits 10 n) = n := by
  unfold intOf
  split
  next digits hdigits =>
    have hminus : ('-' : Char).isDigit = true := by
      apply isDigit_of_mem_toDigits
      rw [hdigits]
      exact List.mem_cons_self
    exact absurd hminus (by decide)
  next => rw [Nat.ofDigitChars_ten_toDigits]

theorem intOf_text (v : Int) : intOf (Numeral.int v).text.toList = v := by
  rw [toList_text_int]
  split
  · rw [intOf, Nat.ofDigitChars_ten_toDigits]
    omega
  · rw [intOf_toDigits]
    omega

theorem startsInt_text (v : Int) : startsInt (Numeral.int v).text.toList = true := by
  rw [toList_text_int]
  split
  · rfl
  · have hne : Nat.toDigits 10 v.natAbs ≠ [] := Nat.toDigits_ne_nil
    obtain ⟨c, cs, hcs⟩ := List.exists_cons_of_ne_nil hne
    have hdigit : c.isDigit = true := isDigit_of_mem_toDigits (hcs ▸ List.mem_cons_self)
    rw [hcs]
    simp [startsInt, hdigit]

theorem isWordChar_of_isDigit {c : Char} (hc : c.isDigit = true) : isWordChar c = true := by
  simp [isWordChar, Char.isAlphanum, hc]

theorem atomWord_int (v : Int) : AtomWord (Numeral.int v).text.toList (num (.int v)) := by
  have hstarts := startsInt_text v
  have hother : ∀ w, startsInt w = false → (Numeral.int v).text.toList ≠ w := by
    intro w hw heq
    rw [heq, hw] at hstarts
    cases hstarts
  refine ⟨?_, ?_, ?_, ?_, ?_⟩
  · have hdigits : (Nat.toDigits 10 v.natAbs).all isWordChar = true :=
      List.all_eq_true.2 fun c hc => isWordChar_of_isDigit (isDigit_of_mem_toDigits hc)
    rw [toList_text_int]
    split
    · rw [List.all_cons, hdigits]
      rfl
    · exact hdigits
  · exact hother [] rfl
  · intro hmem
    have hform : ∀ w ∈ formWords, startsInt w = false := by decide
    exact hother _ (hform _ hmem) rfl
  · intro hmem
    have hground : ∀ w ∈ Ty.groundWords, startsInt w = false := by decide
    exact hother _ (hground _ hmem) rfl
  · rw [atomOf, if_neg (hother _ (by decide)), if_neg (hother _ (by decide)), if_pos hstarts,
      intOf_text]

theorem isName_iff {x : String} :
    isName x = true ↔ ∃ c cs, x.toList = c :: cs ∧ (c.isAlpha = true ∨ c = '_') ∧
      (∀ d ∈ cs, d.isAlphanum = true ∨ d = '_') ∧ x ∉ reserved := by
  unfold isName
  split
  next h => simp [h]
  next c cs h => simp [h, and_assoc]

theorem mem_reserved_of_mem_map {x : String} (words : List String)
    (hwords : words ⊆ reserved) (h : x.toList ∈ words.map String.toList) : x ∈ reserved := by
  obtain ⟨w, hw, heq⟩ := List.mem_map.1 h
  rw [String.toList_inj] at heq
  exact heq ▸ hwords hw

theorem not_isDigit_of_isAlpha {c : Char} (hc : c.isAlpha = true) : c.isDigit = false := by
  have hletter : (decide ('A'.val ≤ c.val ∧ c.val ≤ 'Z'.val) ||
      (decide ('a'.val ≤ c.val) && decide (c.val ≤ 'z'.val))) = true := hc
  have hcases : 'A'.val ≤ c.val ∨ 'a'.val ≤ c.val := by
    simp only [Bool.or_eq_true, Bool.and_eq_true, decide_eq_true_eq] at hletter
    rcases hletter with h | h
    · exact .inl h.1
    · exact .inr h.1
  apply Bool.eq_false_iff.2
  intro hdigit
  have hbound : c.toNat ≤ '9'.toNat := (Char.isDigit_iff_toNat.1 hdigit).2
  have hletters : '9'.toNat < 'A'.toNat ∧ '9'.toNat < 'a'.toNat := by decide
  rcases hcases with h | h
  · have hA : 'A'.toNat ≤ c.toNat := h
    omega
  · have ha : 'a'.toNat ≤ c.toNat := h
    omega

theorem not_startsInt_of_isAlpha {c : Char} (hc : c.isAlpha = true ∨ c = '_') (cs : List Char) :
    startsInt (c :: cs) = false := by
  rcases hc with hc | rfl
  · have hdigit : c.isDigit = false := not_isDigit_of_isAlpha hc
    have hminus : c ≠ '-' := by
      intro h
      subst h
      exact absurd hc (by decide)
    simp [startsInt, hdigit, hminus]
  · rfl

theorem atomWord_name {x : String} (hx : isName x = true) : AtomWord x.toList (var x) := by
  obtain ⟨c, cs, hcs, hc, htail, hreserved⟩ := isName_iff.1 hx
  have hne : ∀ w ∈ reserved, x.toList ≠ w.toList := by
    intro w hw heq
    rw [String.toList_inj] at heq
    exact hreserved (heq ▸ hw)
  refine ⟨?_, ?_, ?_, ?_, ?_⟩
  · rw [hcs, List.all_eq_true]
    intro d hd
    have hd : d.isAlphanum = true ∨ d = '_' := by
      rcases List.mem_cons.1 hd with rfl | hd
      · rcases hc with hc | hc
        · exact .inl (by simp [Char.isAlphanum, hc])
        · exact .inr hc
      · exact htail d hd
    rcases hd with hd | rfl
    · simp [isWordChar, hd]
    · rfl
  · rw [hcs]
    exact List.cons_ne_nil c cs
  · intro hmem
    exact hreserved (mem_reserved_of_mem_map _ (by decide) hmem)
  · intro hmem
    exact hreserved (mem_reserved_of_mem_map ["Number", "Boolean"] (by decide) hmem)
  -- A name begins with no digit and no minus sign, so it is not read as a number.
  · have hstarts : startsInt x.toList = false := by
      rw [hcs]
      exact not_startsInt_of_isAlpha hc cs
    rw [atomOf, if_neg (hne "true" (by decide)), if_neg (hne "false" (by decide)), hstarts]
    simp

theorem atomWord_num {value : Numeral} (h : (num value).isPlain = true) :
    AtomWord value.text.toList (num value) := by
  cases value with
  | int v => exact atomWord_int v
  | double x => cases h

/-! ### How expressions begin -/

theorem operandChars_of_isAtom {e : Expr} (h : e.isAtom = true) : e.operandChars = e.chars := by
  rw [operandChars, h]
  rfl

theorem operandChars_of_not_isAtom {e : Expr} (h : e.isAtom = false) :
    e.operandChars = parenthesised false e.chars := by
  rw [operandChars, h]

theorem operandChars_app (function argument : Expr) :
    (app function argument).operandChars =
      function.operandChars ++ parenthesised false argument.chars := by
  rw [operandChars_of_isAtom rfl, chars_app]

theorem AtomWord.firstWord_notForm {w rest : List Char} {e : Expr} (hw : AtomWord w e)
    (hrest : Separated rest) : firstWord (w ++ rest) ∉ formWords := by
  rw [firstWord_append hw.wordChars hrest]
  exact hw.notForm

theorem firstWord_notForm_of_not_isAtom {e : Expr} (h : e.isAtom = false) (rest : List Char) :
    firstWord (e.operandChars ++ rest) ∉ formWords := by
  have hparen : firstWord (parenthesised false e.chars ++ rest) = [] := rfl
  rw [operandChars_of_not_isAtom h, hparen]
  decide

/-- No operand begins with a keyword. -/
theorem firstWord_operand {e : Expr} (h : e.isPlain = true) (rest : List Char)
    (hrest : Separated rest) : firstWord (e.operandChars ++ rest) ∉ formWords := by
  induction e generalizing rest with
  | num value => exact (atomWord_num h).firstWord_notForm hrest
  | bool value => exact (atomWord_bool value).firstWord_notForm hrest
  | var x => exact (atomWord_name h).firstWord_notForm hrest
  | app function argument ihf _ =>
    simp only [isPlain, Bool.and_eq_true] at h
    rw [operandChars_app, List.append_assoc]
    exact ihf h.1 _ rfl
  | foreign kind => cases h
  -- All other forms are in parentheses.
  | _ => exact firstWord_notForm_of_not_isAtom rfl rest

theorem separated_operator (op : BinOp) (rest : List Char) :
    Separated ((" " ++ op.symbol ++ " ").toList ++ rest) := by
  cases op with
  | plus => rfl
  | or => rfl
  | eq => rfl

theorem AtomWord.leadingWord_notGround {w rest : List Char} {e : Expr} (hw : AtomWord w e)
    (hrest : Separated rest) : leadingWord (w ++ rest) ∉ Ty.groundWords := by
  rw [leadingWord_append hw.wordChars hw.nonempty hrest]
  exact hw.notGround

theorem leadingWord_operandChars (e : Expr) (rest : List Char) (hrest : Separated rest) :
    ∃ rest', Separated rest' ∧
      leadingWord (e.operandChars ++ rest) = leadingWord (e.chars ++ rest') := by
  cases hatom : e.isAtom with
  | true => exact ⟨rest, hrest, by rw [operandChars_of_isAtom hatom]⟩
  | false =>
    refine ⟨")".toList ++ rest, rfl, ?_⟩
    rw [operandChars_of_not_isAtom hatom, leadingWord_parenthesised]

/-- No expression begins with the name of a ground type, so it is never taken for a type. -/
theorem leadingWord_notGround {e : Expr} (h : e.isPlain = true) (rest : List Char)
    (hrest : Separated rest) : leadingWord (e.chars ++ rest) ∉ Ty.groundWords := by
  have hkeyword : ∀ w : List Char, w ∈ formWords → w ∉ Ty.groundWords := by decide
  induction e generalizing rest with
  | num value => exact (atomWord_num h).leadingWord_notGround hrest
  | bool value => exact (atomWord_bool value).leadingWord_notGround hrest
  | var x => exact (atomWord_name h).leadingWord_notGround hrest
  | letIn x value body =>
    rw [chars_letIn]
    exact hkeyword "let".toList (by decide)
  | binary op left right ihl _ =>
    simp only [isPlain, Bool.and_eq_true] at h
    obtain ⟨rest', hrest', hlead⟩ :=
      leadingWord_operandChars left _ (separated_operator op (right.operandChars ++ rest))
    rw [chars_binary, List.append_assoc, List.append_assoc, hlead]
    exact ihl h.1 rest' hrest'
  | cond condition thenBranch elseBranch =>
    rw [chars_cond]
    exact hkeyword "if".toList (by decide)
  | lam x paramType body =>
    rw [chars_lam]
    exact hkeyword "fun".toList (by decide)
  | app function argument ihf _ =>
    simp only [isPlain, Bool.and_eq_true] at h
    obtain ⟨rest', hrest', hlead⟩ :=
      leadingWord_operandChars function (parenthesised false argument.chars ++ rest) rfl
    rw [chars_app, List.append_assoc, hlead]
    exact ihf h.1 rest' hrest'
  | letRec name param paramType returnType definition body =>
    rw [chars_letRec]
    exact hkeyword "letfun".toList (by decide)
  | foreign kind => cases h

end Expr

end SimplyTyped
