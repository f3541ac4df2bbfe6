import SimplyTyped.Proofs.Outcome

/-!
# Names of bound variables do not matter

The nameless form of an expression has no binder names. An occurrence of a bound
variable refers to its binder by counting outwards, and only free variables keep
their names. Inference can be run on the nameless form, where binders push types
on a stack instead of binding names in a context, and it has the same outcome
there. So expressions with one nameless form have one outcome: choosing other
names for bound variables, shadowing or not, changes neither the type nor the
report of a failure.
-/

namespace SimplyTyped

/-! ### Nameless forms -/

/-- Expressions without binder names, below `n` binders. A recursive definition is
    below two binders, its parameter inside its name, and the body below the name. -/
inductive Nameless : Nat → Type where
  | num {n : Nat} (value : Numeral) : Nameless n
  | bool {n : Nat} (value : Bool) : Nameless n
  | bound {n : Nat} (binder : Fin n) : Nameless n
  | free {n : Nat} (name : String) : Nameless n
  | letIn {n : Nat} (value : Nameless n) (body : Nameless (n + 1)) : Nameless n
  | binary {n : Nat} (op : BinOp) (left right : Nameless n) : Nameless n
  | cond {n : Nat} (condition thenBranch elseBranch : Nameless n) : Nameless n
  | lam {n : Nat} (paramType : Ty) (body : Nameless (n + 1)) : Nameless n
  | app {n : Nat} (function argument : Nameless n) : Nameless n
  | letRec {n : Nat} (paramType returnType : Ty) (definition : Nameless (n + 2))
      (body : Nameless (n + 1)) : Nameless n
  | foreign {n : Nat} (kind : String) : Nameless n
  deriving DecidableEq

/-- The nearest binder with a name, where the binders around an occurrence are
    listed from the nearest one outwards. -/
def binder? : (binders : List String) → String → Option (Fin binders.length)
  | [], _ => none
  | y :: binders, x =>
    if x = y then some ⟨0, Nat.zero_lt_succ _⟩ else (binder? binders x).map Fin.succ

def Expr.nameless (binders : List String) : Expr → Nameless binders.length
  | num value => .num value
  | bool value => .bool value
  | var x =>
    match binder? binders x with
    | some i => .bound i
    | none => .free x
  | letIn x value body => .letIn (value.nameless binders) (body.nameless (x :: binders))
  | binary op left right => .binary op (left.nameless binders) (right.nameless binders)
  | cond condition thenBranch elseBranch =>
    .cond (condition.nameless binders) (thenBranch.nameless binders)
      (elseBranch.nameless binders)
  | lam x paramType body => .lam paramType (body.nameless (x :: binders))
  | app function argument => .app (function.nameless binders) (argument.nameless binders)
  | letRec name param paramType returnType definition body =>
    .letRec paramType returnType (definition.nameless (param :: name :: binders))
      (body.nameless (name :: binders))
  | foreign kind => .foreign kind

/-! ### Inference on nameless forms -/

abbrev BinderTypes (n : Nat) := Fin n → Ty

def BinderTypes.push {n : Nat} (t : Ty) (ts : BinderTypes n) : BinderTypes (n + 1) :=
  Fin.cases t ts

/-- The outcome of inference on a nameless form. The context is that of the free
    names and never changes. -/
def Nameless.outcome (Γ : Context) : {n : Nat} → BinderTypes n → Nameless n → Except Failure Ty
  | _, _, num _ => .ok .number
  | _, _, bool _ => .ok .boolean
  | _, ts, bound binder => .ok (ts binder)
  | _, _, free x => (Γ.lookup x).mapError Failure.rejected
  | _, ts, letIn value body => do
    let t ← value.outcome Γ ts
    body.outcome Γ (ts.push t)
  | _, ts, binary op left right => do
    let leftType ← left.outcome Γ ts
    (op.operandType?.getD leftType).agree leftType
    right.outcome Γ ts >>= (op.operandType?.getD leftType).agree
    return op.resultType
  | _, ts, cond condition thenBranch elseBranch => do
    condition.outcome Γ ts >>= Ty.boolean.agree
    let t ← thenBranch.outcome Γ ts
    elseBranch.outcome Γ ts >>= t.agree
    return t
  | _, ts, lam paramType body => do
    let t ← body.outcome Γ (ts.push paramType)
    return .arrow paramType t
  | _, ts, app function argument => do
    let (param, result) ← function.outcome Γ ts >>= Ty.takeApart
    argument.outcome Γ ts >>= param.agree
    return result
  | _, ts, letRec paramType returnType definition body => do
    let us := ts.push (.arrow paramType returnType)
    definition.outcome Γ (us.push paramType) >>= returnType.agree
    body.outcome Γ us
  | _, _, foreign kind => .error (.unknown ⟨kind⟩)

/-! ### Contexts below binders -/

/-- The context `Δ` is `Γ` below binders of the given types: a name has the type of
    its nearest binder, and a name without a binder is looked up in `Γ`. -/
def Below (Γ : Context) (binders : List String) (ts : BinderTypes binders.length)
    (Δ : Context) : Prop :=
  ∀ x, Δ.get? x =
    match binder? binders x with
    | some i => some (ts i)
    | none => Γ.get? x

theorem Below.nil (Γ : Context) : Below Γ [] Fin.elim0 Γ := fun _ => rfl

/-- Binding a name, whether it is bound already or not, is going below a binder. -/
theorem Below.push {Γ Δ : Context} {binders : List String} {ts : BinderTypes binders.length}
    (h : Below Γ binders ts Δ) (x : String) (t : Ty) :
    Below Γ (x :: binders) (ts.push t) (Δ.insert x t) := by
  intro y
  rw [Context.get?_insert, binder?]
  -- Inserting forgets an older binding of the name, and a nearer binder hides it.
  by_cases hy : y = x
  · rw [if_pos hy, if_pos hy]
    rfl
  · rw [if_neg hy, if_neg hy, h y]
    cases binder? binders y <;> rfl

/-- Inference has the same outcome on an expression and on its nameless form. -/
theorem outcome_nameless {Γ Δ : Context} {binders : List String}
    {ts : BinderTypes binders.length} (h : Below Γ binders ts Δ) (e : Expr) :
    (e.nameless binders).outcome Γ ts = e.outcome Δ := by
  induction e generalizing Δ binders with
  | num value => rfl
  | bool value => rfl
  | foreign kind => rfl
  | var x =>
    rw [Expr.outcome_var, Context.lookup, h x, Expr.nameless]
    cases binder? binders x with
    | some i => rfl
    | none => rfl
  | letIn x value body ihv ihb =>
    rw [Expr.outcome_letIn, Expr.nameless, Nameless.outcome, ihv h]
    apply bind_congr
    intro t
    exact ihb (h.push x t)
  | binary op left right ihl ihr =>
    rw [Expr.outcome_binary, Expr.nameless, Nameless.outcome, ihl h, ihr h]
  | cond condition thenBranch elseBranch ihc iha ihb =>
    rw [Expr.outcome_cond, Expr.nameless, Nameless.outcome, ihc h, iha h, ihb h]
  | lam x paramType body ih =>
    rw [Expr.outcome_lam, Expr.nameless, Nameless.outcome, ih (h.push x paramType)]
  | app function argument ihf iha =>
    rw [Expr.outcome_app, Expr.nameless, Nameless.outcome, ihf h, iha h]
  | letRec name param paramType returnType definition body ihd ihb =>
    have hname := h.push name (.arrow paramType returnType)
    rw [Expr.outcome_letRec, Expr.nameless, Nameless.outcome]
    rw [ihd (hname.push param paramType), ihb hname]

/-- **Inference sees only the nameless form.** Expressions that differ in the names
    of bound variables only have the same type in every context, or fail there with
    the same report. -/
theorem sameOutcome_of_nameless_eq (Γ : Context) (a b : Expr)
    (h : a.nameless [] = b.nameless []) : SameOutcome (a.infer Γ) (b.infer Γ) := by
  rw [Expr.sameOutcome_infer_iff]
  calc a.outcome Γ
      = (a.nameless []).outcome Γ Fin.elim0 := (outcome_nameless (.nil Γ) a).symm
    _ = (b.nameless []).outcome Γ Fin.elim0 := by rw [h]
    _ = b.outcome Γ := outcome_nameless (.nil Γ) b

/-- A recursive function named like its parameter, and the same function with two
    names of which the context binds one. Both are rejected with the same report, at
    arguments that are different expressions. -/
theorem sameOutcome_of_nameless_eq_letRec :
    let Γ : Context := .ofList [("x", .boolean), ("f", .boolean)]
    let a : Expr := .letRec "f" "f" .number .number (.binary .plus (.var "f") (.num (.int 1)))
      (.app (.var "f") (.lam "y" .number (.var "y")))
    let b : Expr := .letRec "g" "x" .number .number (.binary .plus (.var "x") (.num (.int 1)))
      (.app (.var "g") (.lam "x" .number (.var "x")))
    a ≠ b ∧ a.nameless [] = b.nameless [] ∧ SameOutcome (a.infer Γ) (b.infer Γ) := by
  intro Γ a b
  have h : a.nameless [] = b.nameless [] := by decide
  exact ⟨by decide, h, sameOutcome_of_nameless_eq Γ a b h⟩

end SimplyTyped
