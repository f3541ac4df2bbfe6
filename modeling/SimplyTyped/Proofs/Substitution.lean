import SimplyTyped.Proofs.FreeVariables
import SimplyTyped.Proofs.Outcome

/-!
# A bound variable is as good as its value

`Expr.subst` puts an expression in the place of the free occurrences of a variable, and
leaves binders as they are. Where a binder has such an occurrence in its scope, it would
capture a free variable of the expression if it had the same name; `Expr.bindersOver`
lists these binders. Without capture, a binding can be replaced by substitution: the
body with the value substituted has the type of the whole binding, or fails with the
same report. Only the node that a rejection points at may differ, where it is an
occurrence of the variable or contains one.
-/

namespace SimplyTyped

theorem mem_filter_ne_iff {x y : String} {names : List String} :
    x ∈ names.filter (· ≠ y) ↔ x ∈ names ∧ x ≠ y := by
  rw [List.mem_filter, decide_eq_true_eq]

/-! ### Substitution -/

namespace Expr

/-- Replaces every free occurrence of `x` by `a`. -/
def subst (e : Expr) (x : String) (a : Expr) : Expr :=
  match e with
  | num value => num value
  | bool value => bool value
  | var y => if y = x then a else var y
  | letIn y value body =>
    letIn y (value.subst x a) (if y = x then body else body.subst x a)
  | binary op left right => binary op (left.subst x a) (right.subst x a)
  | cond condition thenBranch elseBranch =>
    cond (condition.subst x a) (thenBranch.subst x a) (elseBranch.subst x a)
  | lam y paramType body => lam y paramType (if y = x then body else body.subst x a)
  | app function argument => app (function.subst x a) (argument.subst x a)
  | letRec name param paramType returnType definition body =>
    letRec name param paramType returnType
      (if name = x ∨ param = x then definition else definition.subst x a)
      (if name = x then body else body.subst x a)
  | foreign kind => foreign kind

/-- The names of the binders with a free occurrence of `x` in their scope. An occurrence
    that belongs to a binder of `x` itself is not free. -/
def bindersOver (x : String) : Expr → List String
  | num _ => []
  | bool _ => []
  | var _ => []
  | letIn y value body =>
    value.bindersOver x ++
      if x ∈ body.freeVars.filter (· ≠ y) then y :: body.bindersOver x else []
  | binary _ left right => left.bindersOver x ++ right.bindersOver x
  | cond condition thenBranch elseBranch =>
    condition.bindersOver x ++ thenBranch.bindersOver x ++ elseBranch.bindersOver x
  | lam y _ body => if x ∈ body.freeVars.filter (· ≠ y) then y :: body.bindersOver x else []
  | app function argument => function.bindersOver x ++ argument.bindersOver x
  | letRec name param _ _ definition body =>
    (if x ∈ (definition.freeVars.filter (· ≠ param)).filter (· ≠ name)
      then name :: param :: definition.bindersOver x else []) ++
      if x ∈ body.freeVars.filter (· ≠ name) then name :: body.bindersOver x else []
  | foreign _ => []

variable {x : String} {a e : Expr}

/-- Where a variable does not occur free, there is nothing to replace. -/
theorem subst_eq_self (h : x ∉ e.freeVars) : e.subst x a = e := by
  induction e with
  | num value => rfl
  | bool value => rfl
  | foreign kind => rfl
  | var y =>
    have hyx : y ≠ x := fun hyx => h (hyx ▸ List.mem_singleton_self y)
    rw [subst, if_neg hyx]
  | letIn y value body ihv ihb =>
    simp only [freeVars, List.mem_append, mem_filter_ne_iff, not_or, not_and] at h
    obtain ⟨hvalue, hbody⟩ := h
    rw [subst, ihv hvalue, ite_eq_left_iff.2 fun hyx => ihb fun hx => hbody hx (Ne.symm hyx)]
  | binary op left right ihl ihr =>
    simp only [freeVars, List.mem_append, not_or] at h
    rw [subst, ihl h.1, ihr h.2]
  | cond condition thenBranch elseBranch ihc iha ihb =>
    simp only [freeVars, List.mem_append, not_or] at h
    rw [subst, ihc h.1.1, iha h.1.2, ihb h.2]
  | lam y paramType body ih =>
    simp only [freeVars, mem_filter_ne_iff, not_and] at h
    rw [subst, ite_eq_left_iff.2 fun hyx => ih fun hx => h hx (Ne.symm hyx)]
  | app function argument ihf iha =>
    simp only [freeVars, List.mem_append, not_or] at h
    rw [subst, ihf h.1, iha h.2]
  | letRec name param paramType returnType definition body ihd ihb =>
    simp only [freeVars, List.mem_append, mem_filter_ne_iff, not_or, not_and, and_imp] at h
    obtain ⟨hdefinition, hbody⟩ := h
    have hdef : ¬ (name = x ∨ param = x) → definition.subst x a = definition := by
      intro hne
      obtain ⟨hname, hparam⟩ := not_or.1 hne
      exact ihd fun hx => hdefinition hx (Ne.symm hparam) (Ne.symm hname)
    rw [subst, ite_eq_left_iff.2 hdef,
      ite_eq_left_iff.2 fun hne => ihb fun hx => hbody hx (Ne.symm hne)]

end Expr

/-! ### Contexts on both sides of a substitution -/

namespace Context

/-- As far as the given names go, `Γ` binds `x` to the type that `a` has in `Δ`, and the
    two contexts agree otherwise. -/
structure StandsFor (x : String) (a : Expr) (t : Ty) (names : List String) (Γ Δ : Context) :
    Prop where
  bound : x ∈ names → Γ.get? x = some t
  typed : x ∈ names → a.infer Δ = .ok t
  others : ∀ y ∈ names, y ≠ x → Γ.get? y = Δ.get? y

namespace StandsFor

variable {x y : String} {a : Expr} {t : Ty} {names rest : List String} {Γ Δ : Context}

theorem of_append (h : StandsFor x a t (names ++ rest) Γ Δ) :
    StandsFor x a t names Γ Δ ∧ StandsFor x a t rest Γ Δ := by
  obtain ⟨hnames, hrest⟩ := List.forall_mem_append.1 h.others
  have hbound := h.bound
  have htyped := h.typed
  rw [List.mem_append] at hbound htyped
  exact ⟨⟨fun hx => hbound (.inl hx), fun hx => htyped (.inl hx), hnames⟩,
    ⟨fun hx => hbound (.inr hx), fun hx => htyped (.inr hx), hrest⟩⟩

theorem agreeOn (h : StandsFor x a t names Γ Δ) (hx : x ∉ names) : AgreeOn names Γ Δ := by
  intro y hy
  exact h.others y hy fun hyx => hx (hyx ▸ hy)

/-- Below a binder that captures nothing, the expression still has its type. -/
theorem insert (h : StandsFor x a t (names.filter (· ≠ y)) Γ Δ) (hxy : x ≠ y)
    (hfresh : y ∉ a.freeVars) (s : Ty) : StandsFor x a t names (Γ.insert y s) (Δ.insert y s) where
  bound hx := by
    rw [get?_insert, if_neg hxy]
    exact h.bound (mem_filter_ne_iff.2 ⟨hx, hxy⟩)
  typed hx := by
    rw [Expr.infer_congr (agreeOn_insert_of_not_mem hfresh s)]
    exact h.typed (mem_filter_ne_iff.2 ⟨hx, hxy⟩)
  others z hz hzx := by
    rw [get?_insert, get?_insert]
    by_cases hzy : z = y
    · rw [if_pos hzy, if_pos hzy]
    · rw [if_neg hzy, if_neg hzy]
      exact h.others z (mem_filter_ne_iff.2 ⟨hz, hzy⟩) hzx

end StandsFor

end Context

/-! ### Inference after substitution -/

namespace Expr

open Context (StandsFor)

variable {x : String} {a : Expr} {t : Ty} {Γ Δ : Context}

theorem outcome_congr {e : Expr} (h : Context.AgreeOn e.freeVars Γ Δ) :
    e.outcome Γ = e.outcome Δ := by
  rw [outcome, outcome, infer_congr h]

/-- Substitution in `e` keeps the outcome wherever binding `x` stands for `a`. -/
def Substitutes (x : String) (a : Expr) (t : Ty) (e : Expr) : Prop :=
  ∀ {Γ Δ : Context}, StandsFor x a t e.freeVars Γ Δ →
    (∀ y ∈ e.bindersOver x, y ∉ a.freeVars) → (e.subst x a).outcome Δ = e.outcome Γ

/-- One scope of a binder: either `x` does not occur free in it, be it that the binder
    hides it, and nothing is replaced, or the binder captures nothing. -/
theorem Substitutes.below {body : Expr} (hbody : Substitutes x a t body) {y : String}
    (h : StandsFor x a t (body.freeVars.filter (· ≠ y)) Γ Δ)
    (hfresh : ∀ z ∈ if x ∈ body.freeVars.filter (· ≠ y) then y :: body.bindersOver x else [],
      z ∉ a.freeVars) (s : Ty) :
    (if y = x then body else body.subst x a).outcome (Δ.insert y s) =
      body.outcome (Γ.insert y s) := by
  by_cases hx : x ∈ body.freeVars.filter (· ≠ y)
  · rw [if_pos hx] at hfresh
    obtain ⟨hfresh_y, hfresh_body⟩ := List.forall_mem_cons.1 hfresh
    have hxy : x ≠ y := (mem_filter_ne_iff.1 hx).2
    rw [if_neg (Ne.symm hxy)]
    exact hbody (h.insert hxy hfresh_y s) hfresh_body
  · -- Nothing is replaced, and the contexts agree on what is read.
    have hself : (if y = x then body else body.subst x a) = body :=
      ite_eq_left_iff.2 fun hyx => subst_eq_self fun hmem =>
        hx (mem_filter_ne_iff.2 ⟨hmem, Ne.symm hyx⟩)
    rw [hself]
    exact (outcome_congr ((h.agreeOn hx).insert s)).symm

/-- The scope of a recursive definition has two binders, the parameter inside the name. -/
theorem Substitutes.belowBoth {definition : Expr} (hdef : Substitutes x a t definition)
    {name param : String}
    (h : StandsFor x a t ((definition.freeVars.filter (· ≠ param)).filter (· ≠ name)) Γ Δ)
    (hfresh : ∀ z ∈ if x ∈ (definition.freeVars.filter (· ≠ param)).filter (· ≠ name)
      then name :: param :: definition.bindersOver x else [], z ∉ a.freeVars) (s r : Ty) :
    (if name = x ∨ param = x then definition else definition.subst x a).outcome
        ((Δ.insert name s).insert param r) =
      definition.outcome ((Γ.insert name s).insert param r) := by
  by_cases hx : x ∈ (definition.freeVars.filter (· ≠ param)).filter (· ≠ name)
  · rw [if_pos hx] at hfresh
    obtain ⟨hfresh_name, hfresh⟩ := List.forall_mem_cons.1 hfresh
    obtain ⟨hfresh_param, hfresh_def⟩ := List.forall_mem_cons.1 hfresh
    simp only [mem_filter_ne_iff] at hx
    obtain ⟨⟨_, hparam⟩, hname⟩ := hx
    rw [if_neg (not_or.2 ⟨Ne.symm hname, Ne.symm hparam⟩)]
    exact hdef ((h.insert hname hfresh_name s).insert hparam hfresh_param r) hfresh_def
  · have hself :
        (if name = x ∨ param = x then definition else definition.subst x a) = definition := by
      rw [ite_eq_left_iff, not_or]
      rintro ⟨hname, hparam⟩
      apply subst_eq_self
      intro hmem
      apply hx
      simp only [mem_filter_ne_iff]
      exact ⟨⟨hmem, Ne.symm hparam⟩, Ne.symm hname⟩
    rw [hself]
    exact (outcome_congr (((h.agreeOn hx).insert s).insert r)).symm

/-- **Substitution keeps the outcome** under every binder. -/
theorem substitutes (x : String) (a : Expr) (t : Ty) (e : Expr) : Substitutes x a t e := by
  induction e with
  | num value => exact fun _ _ => rfl
  | bool value => exact fun _ _ => rfl
  | foreign kind => exact fun _ _ => rfl
  | var y =>
    intro Γ Δ h _
    by_cases hyx : y = x
    · subst hyx
      have hy : y ∈ (var y).freeVars := List.mem_singleton_self y
      rw [Expr.subst, if_pos rfl, outcome, h.typed hy, outcome_var, Context.lookup, h.bound hy]
      rfl
    · have hy : Γ.get? y = Δ.get? y := h.others y (List.mem_singleton_self y) hyx
      rw [Expr.subst, if_neg hyx, outcome_var, outcome_var, Context.lookup, Context.lookup, hy]
  | letIn y value body ihv ihb =>
    intro Γ Δ h hfresh
    obtain ⟨hvalue, hbody⟩ := h.of_append
    obtain ⟨hfresh_value, hfresh_body⟩ := List.forall_mem_append.1 hfresh
    rw [Expr.subst, outcome_letIn, outcome_letIn, ihv hvalue hfresh_value]
    apply bind_congr
    intro s
    exact ihb.below hbody hfresh_body s
  | binary op left right ihl ihr =>
    intro Γ Δ h hfresh
    obtain ⟨hleft, hright⟩ := h.of_append
    obtain ⟨hfresh_left, hfresh_right⟩ := List.forall_mem_append.1 hfresh
    rw [Expr.subst, outcome_binary, outcome_binary, ihl hleft hfresh_left, ihr hright hfresh_right]
  | cond condition thenBranch elseBranch ihc iha ihb =>
    intro Γ Δ h hfresh
    obtain ⟨hrest, helse⟩ := h.of_append
    obtain ⟨hcondition, hthen⟩ := hrest.of_append
    obtain ⟨hfresh_rest, hfresh_else⟩ := List.forall_mem_append.1 hfresh
    obtain ⟨hfresh_condition, hfresh_then⟩ := List.forall_mem_append.1 hfresh_rest
    rw [Expr.subst, outcome_cond, outcome_cond, ihc hcondition hfresh_condition,
      iha hthen hfresh_then, ihb helse hfresh_else]
  | lam y paramType body ih =>
    intro Γ Δ h hfresh
    rw [Expr.subst, outcome_lam, outcome_lam, ih.below h hfresh paramType]
  | app function argument ihf iha =>
    intro Γ Δ h hfresh
    obtain ⟨hfunction, hargument⟩ := h.of_append
    obtain ⟨hfresh_function, hfresh_argument⟩ := List.forall_mem_append.1 hfresh
    rw [Expr.subst, outcome_app, outcome_app, ihf hfunction hfresh_function,
      iha hargument hfresh_argument]
  | letRec name param paramType returnType definition body ihd ihb =>
    intro Γ Δ h hfresh
    obtain ⟨hdefinition, hbody⟩ := h.of_append
    obtain ⟨hfresh_definition, hfresh_body⟩ := List.forall_mem_append.1 hfresh
    have hd := ihd.belowBoth hdefinition hfresh_definition (.arrow paramType returnType) paramType
    have hb := ihb.below hbody hfresh_body (.arrow paramType returnType)
    rw [Expr.subst, outcome_letRec, outcome_letRec]
    dsimp only
    rw [hd, hb]

/-- **A bound variable is as good as its value.** Let the value of a binding have a type,
    and let no binder in the body capture a free variable of the value where it stands
    around a free occurrence of the bound name. Then the binding and its body with the
    value substituted have the same type, or fail with the same report. -/
theorem sameOutcome_letIn_subst (Γ : Context) (x : String) (value body : Expr) (t : Ty)
    (hvalue : value.infer Γ = .ok t)
    (hfresh : ∀ y ∈ body.bindersOver x, y ∉ value.freeVars) :
    SameOutcome ((letIn x value body).infer Γ) ((body.subst x value).infer Γ) := by
  have hstands : StandsFor x value t body.freeVars (Γ.insert x t) Γ := by
    refine ⟨?_, fun _ => hvalue, ?_⟩
    · intro _
      rw [Context.get?_insert, if_pos rfl]
    · intro y _ hyx
      rw [Context.get?_insert, if_neg hyx]
  rw [sameOutcome_infer_iff]
  calc (letIn x value body).outcome Γ
      = body.outcome (Γ.insert x t) := by
        rw [outcome_letIn, outcome, hvalue]
        rfl
    _ = (body.subst x value).outcome Γ := (substitutes x value t body hstands hfresh).symm

/-- The variable is read below a recursive function and its parameter, and is bound anew
    by another function. Its value calls a function of the context, which binds the name
    of the variable too. With the value substituted, the same mismatch is found at the
    call instead of the variable. -/
theorem sameOutcome_letIn_subst_letRec :
    let Γ : Context := .ofList [("x", .boolean), ("f", .arrow .number .number)]
    let value : Expr := .app (.var "f") (.num (.int 1))
    let body : Expr := .letRec "g" "y" .number .number (.binary .plus (.var "x") (.var "y"))
      (.cond (.binary .eq (.var "x") (.app (.var "g") (.num (.int 2))))
        (.lam "x" .boolean (.letIn "f" (.var "x") (.var "f"))) (.var "x"))
    body.bindersOver "x" = ["g", "y", "g"] ∧ value.freeVars = ["f"] ∧
      (letIn "x" value body).infer Γ = .error (.rejected
        ⟨.mismatch (.arrow .boolean .boolean) .number, some (.var "x")⟩) ∧
      SameOutcome ((letIn "x" value body).infer Γ) ((body.subst "x" value).infer Γ) ∧
      (body.subst "x" value).infer Γ = .error (.rejected
        ⟨.mismatch (.arrow .boolean .boolean) .number, some value⟩) := by
  intro Γ value body
  have hbinders : body.bindersOver "x" = ["g", "y", "g"] := by decide
  have hfree : value.freeVars = ["f"] := rfl
  refine ⟨hbinders, hfree, rfl, sameOutcome_letIn_subst Γ "x" value body .number rfl ?_, rfl⟩
  rw [hbinders, hfree]
  decide

end Expr

end SimplyTyped
