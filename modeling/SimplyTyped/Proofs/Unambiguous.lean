import SimplyTyped.Proofs.ExprNotation

/-!
# The surface form is unambiguous

A plain expression can be read back from its surface form, so no two plain
expressions have the same one.

The reader looks at the first word. Four keywords open the forms that reach as far
as they can; everything else is an operand, or two operands with an operator between
them. An operand is a word or something in parentheses, followed by any number of
arguments. Positions without parentheses end at a keyword, at a closing parenthesis
or at the end of the text, and none of these goes on with an expression (`Stops`).
An operand has no such end: its arguments come right after it. So the statement
about operands (`ReadsOperand`) says where the reader stands after an operand and
not that it stops there.
-/

namespace SimplyTyped.Expr

/-! ### The reader -/

def readName : Reader String := do
  let w ← word
  return String.ofList w

def readAtom : Reader Expr := do
  let w ← word
  return atomOf w

/-- Reads arguments in parentheses. The number bounds how many there are. -/
def readCalls (inner : Reader Expr) : Nat → Expr → Reader Expr
  | 0, _ => failure
  | k + 1, callee => do
    let cs ← get
    if cs.head? = some '(' then
      let argument ← readParenthesised inner failure
      readCalls inner k (app callee argument)
    else return callee

def readOperand (inner : Reader Expr) (k : Nat) : Reader Expr := do
  let head ← readParenthesised inner readAtom
  readCalls inner k head

def operator? (cs : List Char) : Option BinOp :=
  [BinOp.plus, .or, .eq].find? fun op => (" " ++ op.symbol ++ " ").toList.isPrefixOf cs

def readOperation (inner : Reader Expr) (k : Nat) : Reader Expr := do
  let left ← readOperand inner k
  let cs ← get
  match operator? cs with
  | some op =>
    skip (" " ++ op.symbol ++ " ")
    let right ← readOperand inner k
    return binary op left right
  | none => return left

def readLetIn (inner : Reader Expr) : Reader Expr := do
  skip "let "
  let x ← readName
  skip " = "
  let value ← inner
  skip " in "
  let body ← inner
  return letIn x value body

def readCond (inner : Reader Expr) : Reader Expr := do
  skip "if "
  let condition ← inner
  skip " then "
  let thenBranch ← inner
  skip " else "
  let elseBranch ← inner
  return cond condition thenBranch elseBranch

def readLam (n : Nat) (inner : Reader Expr) : Reader Expr := do
  skip "fun ("
  let x ← readName
  skip " : "
  let paramType ← Ty.read n
  skip ") -> "
  let body ← inner
  return lam x paramType body

def readLetRec (n : Nat) (inner : Reader Expr) : Reader Expr := do
  skip "letfun "
  let name ← readName
  skip "("
  let param ← readName
  skip " : "
  let paramType ← Ty.read n
  skip "): "
  let returnType ← Ty.read n
  skip " -> "
  let definition ← inner
  skip " in "
  let body ← inner
  return letRec name param paramType returnType definition body

def readForm (n : Nat) (inner : Reader Expr) (w : List Char) : Reader Expr :=
  if w = "let".toList then readLetIn inner
  else if w = "if".toList then readCond inner
  else if w = "fun".toList then readLam n inner
  else if w = "letfun".toList then readLetRec n inner
  else readOperation inner n

/-- Reads an expression. The first argument bounds how deep it is nested. -/
def read : Nat → Reader Expr
  | 0 => failure
  | n + 1 => do
    let cs ← get
    readForm n (read n) (firstWord cs)

/-! ### Reading each form -/

/-- Nothing at the front of a text goes on with an expression. -/
structure Stops (rest : List Char) : Prop where
  separated : Separated rest
  noCall : rest.head? ≠ some '('
  noOperator : operator? rest = none

/-- The reader reads an expression wherever nothing goes on with it. -/
def ReadsBack (reader : Reader Expr) (e : Expr) : Prop :=
  ∀ rest, Stops rest → Reads reader e.chars e rest

theorem reads_name {x : String} (hx : isName x = true) {rest : List Char}
    (hrest : Separated rest) : Reads readName x.toList x rest := by
  have hword := (reads_word (atomWord_name hx).wordChars hrest).map String.ofList
  rwa [String.ofList_toList] at hword

section Forms

variable {inner : Reader Expr} {value body definition : Expr}

theorem readsBack_letIn {x : String} (hx : isName x = true) (hvalue : ReadsBack inner value)
    (hbody : ReadsBack inner body) : ReadsBack (readLetIn inner) (letIn x value body) := by
  intro rest hrest
  rw [chars_letIn]
  apply (reads_skip "let " _).bind
  refine (reads_name hx ?_).bind ((reads_skip " = " _).bind ?_)
  · rfl
  refine (hvalue _ ?_).bind ((reads_skip " in " _).bind ?_)
  · exact ⟨rfl, nofun, rfl⟩
  exact (hbody rest hrest).map (letIn x value)

theorem readsBack_cond {condition thenBranch elseBranch : Expr}
    (hcondition : ReadsBack inner condition) (hthen : ReadsBack inner thenBranch)
    (helse : ReadsBack inner elseBranch) :
    ReadsBack (readCond inner) (cond condition thenBranch elseBranch) := by
  intro rest hrest
  rw [chars_cond]
  apply (reads_skip "if " _).bind
  refine (hcondition _ ?_).bind ((reads_skip " then " _).bind ?_)
  · exact ⟨rfl, nofun, rfl⟩
  refine (hthen _ ?_).bind ((reads_skip " else " _).bind ?_)
  · exact ⟨rfl, nofun, rfl⟩
  exact (helse rest hrest).map (cond condition thenBranch)

theorem readsBack_lam {x : String} {paramType : Ty} {n : Nat} (hx : isName x = true)
    (hparam : paramType.ReadsBack n) (hbody : ReadsBack inner body) :
    ReadsBack (readLam n inner) (lam x paramType body) := by
  intro rest hrest
  rw [chars_lam]
  apply (reads_skip "fun (" _).bind
  refine (reads_name hx ?_).bind ((reads_skip " : " _).bind ?_)
  · rfl
  refine (hparam _ ?_ ?_).bind ((reads_skip ") -> " _).bind ?_)
  · rfl
  · rfl
  exact (hbody rest hrest).map (lam x paramType)

theorem readsBack_letRec {name param : String} {paramType returnType : Ty} {n : Nat}
    (hname : isName name = true) (hparamName : isName param = true)
    (hparam : paramType.ReadsBack n) (hreturn : returnType.ReadsBack n)
    (hplain : definition.isPlain = true) (hdefinition : ReadsBack inner definition)
    (hbody : ReadsBack inner body) :
    ReadsBack (readLetRec n inner) (letRec name param paramType returnType definition body) := by
  intro rest hrest
  rw [chars_letRec]
  apply (reads_skip "letfun " _).bind
  refine (reads_name hname ?_).bind ((reads_skip "(" _).bind ?_)
  · rfl
  refine (reads_name hparamName ?_).bind ((reads_skip " : " _).bind ?_)
  · rfl
  refine (hparam _ ?_ ?_).bind ((reads_skip "): " _).bind ?_)
  · rfl
  · rfl
  refine (hreturn _ ?_ ?_).bind ((reads_skip " -> " _).bind ?_)
  · rfl
  · -- The arrow after the return type does not belong to it.
    have hlead := leadingWord_notGround hplain ((" in ".toList ++ body.chars) ++ rest) rfl
    rw [List.append_assoc, Ty.goesOn_arrow]
    simpa using hlead
  refine (hdefinition _ ?_).bind ((reads_skip " in " _).bind ?_)
  · exact ⟨rfl, nofun, rfl⟩
  exact (hbody rest hrest).map (letRec name param paramType returnType definition)

end Forms

/-! ### Reading operands -/

def calls : Expr → Nat
  | app function _ => function.calls + 1
  | _ => 0

/-- The reader reads an operand, and goes on with the arguments that come after it. -/
def ReadsOperand (inner : Reader Expr) (e : Expr) : Prop :=
  ∀ k rest, Separated rest →
    readOperand inner (k + e.calls) (e.operandChars ++ rest) = readCalls inner k e rest

section Operands

variable {inner : Reader Expr} {k : Nat} {e callee function argument left right : Expr}
  {rest : List Char}

theorem readCalls_succ (cs : List Char) :
    readCalls inner (k + 1) callee cs =
      (if cs.head? = some '(' then
        readParenthesised inner failure >>= fun argument => readCalls inner k (app callee argument)
      else pure callee) cs := rfl

theorem readCalls_argument (h : Reads inner argument.chars argument (")".toList ++ rest)) :
    readCalls inner (k + 1) callee (parenthesised false argument.chars ++ rest) =
      readCalls inner k (app callee argument) rest := by
  have hopens : (parenthesised false argument.chars ++ rest).head? = some '(' := rfl
  rw [readCalls_succ, if_pos hopens]
  exact (reads_inside h).run_bind

theorem readCalls_end (h : rest.head? ≠ some '(') :
    readCalls inner (k + 1) callee rest = some (callee, rest) := by
  rw [readCalls_succ, if_neg h]
  rfl

theorem readsOperand_atom (hatom : e.isAtom = true) (hcalls : e.calls = 0)
    (hword : AtomWord e.chars e) : ReadsOperand inner e := by
  intro k rest hrest
  have hread : Reads readAtom e.chars (atomOf e.chars) rest :=
    (reads_word hword.wordChars hrest).map atomOf
  rw [hword.atom] at hread
  have hhead : (e.chars ++ rest).head? ≠ some '(' := head?_word hword.wordChars hword.nonempty rest
  rw [operandChars_of_isAtom hatom, hcalls]
  exact (reads_outside hread hhead).run_bind

theorem readsOperand_form (hform : e.isAtom = false) (hcalls : e.calls = 0)
    (h : ReadsBack inner e) : ReadsOperand inner e := by
  intro k rest hrest
  have hread : Reads inner e.chars e (")".toList ++ rest) := h _ ⟨rfl, nofun, rfl⟩
  rw [operandChars_of_not_isAtom hform, hcalls]
  exact (reads_inside hread).run_bind

theorem readsOperand_app (hfunction : ReadsOperand inner function)
    (hargument : ReadsBack inner argument) : ReadsOperand inner (app function argument) := by
  intro k rest hrest
  have hread : Reads inner argument.chars argument (")".toList ++ rest) :=
    hargument _ ⟨rfl, nofun, rfl⟩
  have hcalls : k + (app function argument).calls = k + 1 + function.calls := by
    simp only [calls]
    omega
  have hopen : Separated (parenthesised false argument.chars ++ rest) := rfl
  rw [hcalls, operandChars_app, List.append_assoc, hfunction (k + 1) _ hopen]
  exact readCalls_argument hread

theorem ReadsOperand.reads (h : ReadsOperand inner e) (hk : e.calls < k)
    (hrest : Separated rest) (hcall : rest.head? ≠ some '(') :
    Reads (readOperand inner k) e.operandChars e rest := by
  -- One step is left after the arguments, to see that no other one follows.
  obtain ⟨m, rfl⟩ : ∃ m, k = m + 1 + e.calls := ⟨k - 1 - e.calls, by omega⟩
  rw [Reads, h (m + 1) rest hrest]
  exact readCalls_end hcall

theorem readsBack_operand (h : ReadsOperand inner e) (hatom : e.isAtom = true)
    (hk : e.calls < k) : ReadsBack (readOperation inner k) e := by
  intro rest hrest
  have hread := h.reads hk hrest.separated hrest.noCall
  rw [operandChars_of_isAtom hatom] at hread
  apply hread.bind_nil
  apply Reads.get
  rw [List.nil_append, hrest.noOperator]
  rfl

theorem operator?_symbol (op : BinOp) (rest : List Char) :
    operator? ((" " ++ op.symbol ++ " ").toList ++ rest) = some op := by
  cases op with
  | plus => rfl
  | or => rfl
  | eq => rfl

theorem head?_operator (op : BinOp) (rest : List Char) :
    ((" " ++ op.symbol ++ " ").toList ++ rest).head? ≠ some '(' := by
  cases op with
  | plus => nofun
  | or => nofun
  | eq => nofun

theorem readsBack_binary {op : BinOp} (hleft : ReadsOperand inner left)
    (hright : ReadsOperand inner right) (hk : left.calls < k) (hk' : right.calls < k) :
    ReadsBack (readOperation inner k) (binary op left right) := by
  intro rest hrest
  rw [chars_binary]
  have hleft : Reads (readOperand inner k) left.operandChars left
      (((" " ++ op.symbol ++ " ").toList ++ right.operandChars) ++ rest) := by
    apply hleft.reads hk
    · rw [List.append_assoc]
      exact separated_operator op _
    · rw [List.append_assoc]
      exact head?_operator op _
  apply hleft.bind
  apply Reads.get
  rw [List.append_assoc, operator?_symbol]
  apply (reads_skip (" " ++ op.symbol ++ " ") _).bind
  exact (hright.reads hk' hrest.separated hrest.noCall).map (binary op left)

end Operands

/-! ### Reading expressions -/

theorem readForm_of_notForm {n : Nat} {inner : Reader Expr} {w : List Char} (h : w ∉ formWords) :
    readForm n inner w = readOperation inner n := by
  have hne : ∀ v ∈ formWords, w ≠ v := by
    intro v hv heq
    exact h (heq ▸ hv)
  rw [readForm, if_neg (hne _ (by decide)), if_neg (hne _ (by decide)),
    if_neg (hne _ (by decide)), if_neg (hne _ (by decide))]

theorem readsBack_of_form {n : Nat} {w : List Char} {e : Expr}
    (hword : ∀ rest, firstWord (e.chars ++ rest) = w)
    (h : ReadsBack (readForm n (read n) w) e) : ReadsBack (read (n + 1)) e := by
  intro rest hrest
  apply Reads.get
  rw [hword rest]
  exact h rest hrest

theorem readsBack_of_operation {n : Nat} {e : Expr}
    (hword : ∀ rest, Separated rest → firstWord (e.chars ++ rest) ∉ formWords)
    (h : ReadsBack (readOperation (read n) n) e) : ReadsBack (read (n + 1)) e := by
  intro rest hrest
  apply Reads.get
  rw [readForm_of_notForm (hword rest hrest.separated)]
  exact h rest hrest

/-- Every reader that is deep enough reads an expression back, also as an operand. -/
def Readable (e : Expr) : Prop :=
  ∃ depth, ∀ n ≥ depth, ReadsBack (read n) e ∧ ReadsOperand (read n) e

theorem calls_of_not_isAtom {e : Expr} (h : e.isAtom = false) : e.calls = 0 := by
  cases e with
  | app function argument => cases h
  | _ => rfl

theorem readable_form {e : Expr} (hform : e.isAtom = false) (depth : Nat)
    (h : ∀ n ≥ depth, ReadsBack (read (n + 1)) e) : Readable e := by
  refine ⟨depth + 1, ?_⟩
  intro n hn
  obtain ⟨m, rfl⟩ : ∃ m, n = m + 1 := ⟨n - 1, by omega⟩
  have hback : ReadsBack (read (m + 1)) e := h m (by omega)
  exact ⟨hback, readsOperand_form hform (calls_of_not_isAtom hform) hback⟩

theorem readable_operand {e : Expr} (hplain : e.isPlain = true) (hatom : e.isAtom = true)
    (depth : Nat) (h : ∀ n ≥ depth, ReadsOperand (read n) e) : Readable e := by
  refine ⟨depth + e.calls + 2, ?_⟩
  intro n hn
  obtain ⟨m, rfl⟩ : ∃ m, n = m + 1 := ⟨n - 1, by omega⟩
  refine ⟨readsBack_of_operation ?_ ?_, h (m + 1) (by omega)⟩
  · intro rest hrest
    rw [← operandChars_of_isAtom hatom]
    exact firstWord_operand hplain rest hrest
  · exact readsBack_operand (h m (by omega)) hatom (by omega)

theorem readable_atom {e : Expr} (hplain : e.isPlain = true) (hatom : e.isAtom = true)
    (hcalls : e.calls = 0) (hword : AtomWord e.chars e) : Readable e := by
  apply readable_operand hplain hatom 0
  intro n _
  exact readsOperand_atom hatom hcalls hword

/-- **Expressions can be read back**, with enough depth. The thresholds of the parts are
    added up, so one depth serves all of them. -/
theorem readable {e : Expr} (h : e.isPlain = true) : Readable e := by
  induction e with
  | num value => exact readable_atom h rfl rfl (atomWord_num h)
  | bool value => exact readable_atom h rfl rfl (atomWord_bool value)
  | var x => exact readable_atom h rfl rfl (atomWord_name h)
  | app function argument ihf iha =>
    have hparts := h
    simp only [isPlain, Bool.and_eq_true] at hparts
    obtain ⟨d₁, hfunction⟩ := ihf hparts.1
    obtain ⟨d₂, hargument⟩ := iha hparts.2
    apply readable_operand h rfl (d₁ + d₂)
    intro n hn
    exact readsOperand_app (hfunction n (by omega)).2 (hargument n (by omega)).1
  | binary op left right ihl ihr =>
    simp only [isPlain, Bool.and_eq_true] at h
    obtain ⟨d₁, hleft⟩ := ihl h.1
    obtain ⟨d₂, hright⟩ := ihr h.2
    apply readable_form rfl (d₁ + d₂ + left.calls + right.calls + 1)
    intro n hn
    apply readsBack_of_operation
    · intro rest _
      rw [chars_binary, List.append_assoc, List.append_assoc]
      exact firstWord_operand h.1 _ (separated_operator op _)
    · exact readsBack_binary (hleft n (by omega)).2 (hright n (by omega)).2 (by omega) (by omega)
  | letIn x value body ihv ihb =>
    simp only [isPlain, Bool.and_eq_true] at h
    obtain ⟨d₁, hvalue⟩ := ihv h.1.2
    obtain ⟨d₂, hbody⟩ := ihb h.2
    apply readable_form rfl (d₁ + d₂)
    intro n hn
    apply readsBack_of_form (w := "let".toList)
    · intro rest
      rw [chars_letIn]
      rfl
    · exact readsBack_letIn h.1.1 (hvalue n (by omega)).1 (hbody n (by omega)).1
  | cond condition thenBranch elseBranch ihc iht ihe =>
    simp only [isPlain, Bool.and_eq_true] at h
    obtain ⟨d₁, hcondition⟩ := ihc h.1.1
    obtain ⟨d₂, hthen⟩ := iht h.1.2
    obtain ⟨d₃, helse⟩ := ihe h.2
    apply readable_form rfl (d₁ + d₂ + d₃)
    intro n hn
    apply readsBack_of_form (w := "if".toList)
    · intro rest
      rw [chars_cond]
      rfl
    · exact readsBack_cond (hcondition n (by omega)).1 (hthen n (by omega)).1
        (helse n (by omega)).1
  | lam x paramType body ih =>
    simp only [isPlain, Bool.and_eq_true] at h
    obtain ⟨d₁, hparam⟩ := paramType.reads_chars
    obtain ⟨d₂, hbody⟩ := ih h.2
    apply readable_form rfl (d₁ + d₂)
    intro n hn
    apply readsBack_of_form (w := "fun".toList)
    · intro rest
      rw [chars_lam]
      rfl
    · exact readsBack_lam h.1 (hparam n (by omega)) (hbody n (by omega)).1
  | letRec name param paramType returnType definition body ihd ihb =>
    simp only [isPlain, Bool.and_eq_true] at h
    obtain ⟨⟨⟨hname, hparamName⟩, hdefinitionPlain⟩, hbodyPlain⟩ := h
    obtain ⟨d₁, hparam⟩ := paramType.reads_chars
    obtain ⟨d₂, hreturn⟩ := returnType.reads_chars
    obtain ⟨d₃, hdefinition⟩ := ihd hdefinitionPlain
    obtain ⟨d₄, hbody⟩ := ihb hbodyPlain
    apply readable_form rfl (d₁ + d₂ + d₃ + d₄)
    intro n hn
    apply readsBack_of_form (w := "letfun".toList)
    · intro rest
      rw [chars_letRec]
      rfl
    · exact readsBack_letRec hname hparamName (hparam n (by omega)) (hreturn n (by omega))
        hdefinitionPlain (hdefinition n (by omega)).1 (hbody n (by omega)).1
  | foreign kind => cases h

theorem text_inj {a b : Expr} (ha : a.isPlain = true) (hb : b.isPlain = true)
    (h : a.text = b.text) : a = b := by
  obtain ⟨d₁, hreada⟩ := readable ha
  obtain ⟨d₂, hreadb⟩ := readable hb
  have hend : Stops [] := ⟨trivial, nofun, rfl⟩
  have hra : read (d₁ + d₂) (a.chars ++ []) = some (a, []) := (hreada _ (by omega)).1 [] hend
  have hrb : read (d₁ + d₂) (b.chars ++ []) = some (b, []) := (hreadb _ (by omega)).1 [] hend
  have hchars : a.chars = b.chars := congrArg String.toList h
  rw [hchars, hrb] at hra
  cases hra
  rfl

/-- **The surface form is unambiguous**: every plain expression has a surface form,
    and plain expressions with the same surface form are the same. -/
theorem surface_unambiguous (a b : Expr) (ha : a.isPlain = true) (hb : b.isPlain = true) :
    ∃ s t, a.surface = .ok s ∧ b.surface = .ok t ∧ (s = t → a = b) := by
  refine ⟨a.text, b.text, surface_of_isPlain ha, surface_of_isPlain hb, ?_⟩
  intro h
  exact text_inj ha hb h

/-- The arrow after a return type is written like the arrows inside it, and a call of a
    call like a call in an argument up to one parenthesis. -/
theorem surface_unambiguous_letRec :
    ∃ s t,
      (letRec "f" "x" .number (.arrow .number .number) (var "g")
        (app (app (var "f") (var "x")) (num (.int (-1))))).surface = .ok s ∧
      (letRec "f" "x" .number .number (var "g")
        (app (var "f") (app (var "x") (num (.int (-1)))))).surface = .ok t ∧
      s ≠ t := by
  obtain ⟨s, t, hs, ht, h⟩ := surface_unambiguous
    (letRec "f" "x" .number (.arrow .number .number) (var "g")
      (app (app (var "f") (var "x")) (num (.int (-1)))))
    (letRec "f" "x" .number .number (var "g")
      (app (var "f") (app (var "x") (num (.int (-1))))))
    (by decide) (by decide)
  refine ⟨s, t, hs, ht, ?_⟩
  intro hst
  exact absurd (h hst) (by decide)

end SimplyTyped.Expr
