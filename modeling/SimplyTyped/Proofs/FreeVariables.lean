import SimplyTyped.Proofs.InferenceSteps

/-!
# Inference reads only the free variables

The free variables of an expression are the names that occur outside the scope of
every binder for them. A `let` binds its name in the body only, a function its
parameter in the body, and a recursive definition its name in both parts but its
parameter in the definition only. Inference depends on a context through the free
variables alone: two contexts that agree on them have the same outcome, down to the
node that a rejection points at. So a context may bind other names, in any order,
and may be extended or cut down by names that are not free.
-/

namespace SimplyTyped

/-! ### Free variables -/

namespace Expr

/-- The free variables, in order of occurrence and as often as they occur. -/
def freeVars : Expr → List String
  | num _ => []
  | bool _ => []
  | var x => [x]
  | letIn x value body => value.freeVars ++ body.freeVars.filter (· ≠ x)
  | binary _ left right => left.freeVars ++ right.freeVars
  | cond condition thenBranch elseBranch =>
    condition.freeVars ++ thenBranch.freeVars ++ elseBranch.freeVars
  | lam x _ body => body.freeVars.filter (· ≠ x)
  | app function argument => function.freeVars ++ argument.freeVars
  | letRec name param _ _ definition body =>
    (definition.freeVars.filter (· ≠ param)).filter (· ≠ name)
      ++ body.freeVars.filter (· ≠ name)
  | foreign _ => []

end Expr

/-! ### Contexts that agree on some names -/

namespace Context

/-- Both contexts give each of the names the same type, or none. -/
def AgreeOn (names : List String) (Γ Δ : Context) : Prop := ∀ x ∈ names, Γ.get? x = Δ.get? x

variable {Γ Δ : Context} {names : List String}

/-- Below a binder contexts agree on its name too, whether they did before or not. -/
theorem AgreeOn.insert {x : String} (h : AgreeOn (names.filter (· ≠ x)) Γ Δ) (t : Ty) :
    AgreeOn names (Γ.insert x t) (Δ.insert x t) := by
  intro y hy
  rw [get?_insert, get?_insert]
  by_cases hyx : y = x
  · rw [if_pos hyx, if_pos hyx]
  · rw [if_neg hyx, if_neg hyx]
    apply h y
    simp [hy, hyx]

/-- To bind a name is nothing to the other names. -/
theorem agreeOn_insert_of_not_mem {x : String} (hx : x ∉ names) (t : Ty) :
    AgreeOn names (Γ.insert x t) Γ := by
  intro y hy
  have hyx : y ≠ x := fun hyx => hx (hyx ▸ hy)
  rw [get?_insert, if_neg hyx]

theorem AgreeOn.resolve {x : String} (h : AgreeOn [x] Γ Δ) : Γ.resolve x = Δ.resolve x := by
  have hx : Γ.get? x = Δ.get? x := h x (List.mem_singleton_self x)
  simp only [Context.resolve, lookup, hx]

end Context

/-! ### One outcome -/

namespace Expr

theorem infer_congr {e : Expr} {Γ Δ : Context} (h : Context.AgreeOn e.freeVars Γ Δ) :
    e.infer Γ = e.infer Δ := by
  induction e generalizing Γ Δ with
  | num value => rfl
  | bool value => rfl
  | foreign kind => rfl
  | var x => exact h.resolve
  | letIn x value body ihv ihb =>
    obtain ⟨hvalue, hbody⟩ := List.forall_mem_append.1 h
    rw [infer, infer, ihv hvalue]
    apply bind_congr
    intro t
    exact ihb (Context.AgreeOn.insert hbody t)
  | binary op left right ihl ihr =>
    obtain ⟨hleft, hright⟩ := List.forall_mem_append.1 h
    rw [infer, infer, ihl hleft, ihr hright]
  | cond condition thenBranch elseBranch ihc iha ihb =>
    obtain ⟨hrest, helse⟩ := List.forall_mem_append.1 h
    obtain ⟨hcondition, hthen⟩ := List.forall_mem_append.1 hrest
    rw [infer, infer, ihc hcondition, iha hthen, ihb helse]
  | lam x paramType body ih =>
    have hbody : Context.AgreeOn body.freeVars (Γ.insert x paramType) (Δ.insert x paramType) :=
      Context.AgreeOn.insert h paramType
    rw [infer, infer, ih hbody]
  | app function argument ihf iha =>
    obtain ⟨hfunction, hargument⟩ := List.forall_mem_append.1 h
    rw [infer, infer, ihf hfunction, iha hargument]
  | letRec name param paramType returnType definition body ihd ihb =>
    obtain ⟨hdefinition, hbody⟩ := List.forall_mem_append.1 h
    have hself := Context.AgreeOn.insert hbody (.arrow paramType returnType)
    -- The parameter is bound inside the name, so the name is taken off last.
    have hname := Context.AgreeOn.insert hdefinition (.arrow paramType returnType)
    rw [infer, infer, ihd (hname.insert paramType), ihb hself]

/-- **Inference depends on the free variables only.** Where every free variable of an
    expression is bound to one type by both contexts, or by neither, the expression has
    the same type in both, or fails in both with the same report at the same node. -/
theorem infer_eq_of_agree_on_freeVars (e : Expr) (Γ Δ : Context)
    (h : ∀ x ∈ e.freeVars, (∃ t, Γ.get? x = some t ∧ Δ.get? x = some t) ∨
      Γ.contains x = false ∧ Δ.contains x = false) :
    e.infer Γ = e.infer Δ := by
  apply infer_congr
  intro x hx
  rcases h x hx with ⟨t, hΓ, hΔ⟩ | ⟨hΓ, hΔ⟩
  · rw [hΓ, hΔ]
  · simp only [Context.contains, Option.isSome_eq_false_iff, Option.isNone_iff_eq_none] at hΓ hΔ
    rw [hΓ, hΔ]

/-- Two contexts that share the binding of `y` only, listed at different places, and
    that disagree on the names that the expression binds. The recursive function is
    well-typed in both, and its use is rejected in both at the same argument. -/
theorem infer_eq_of_agree_on_freeVars_letRec :
    let e : Expr := .letRec "f" "x" .number .number
      (.letIn "z" (.var "y") (.binary .plus (.var "x") (.var "z")))
      (.app (.var "f") (.lam "x" .boolean (.var "x")))
    let Γ : Context := .ofList [("x", .boolean), ("y", .number), ("f", .boolean)]
    let Δ : Context := .ofList [("y", .number), ("z", .boolean), ("x", .number)]
    e.freeVars = ["y"] ∧ Γ.get? "f" ≠ Δ.get? "f" ∧ Γ.get? "x" ≠ Δ.get? "x" ∧
      e.infer Γ = e.infer Δ ∧
      e.infer Δ = .error (.rejected ⟨.mismatch .number (.arrow .boolean .boolean),
        some (.lam "x" .boolean (.var "x"))⟩) := by
  intro e Γ Δ
  have hfree : e.freeVars = ["y"] := by decide
  refine ⟨hfree, by decide, by decide, infer_eq_of_agree_on_freeVars e Γ Δ ?_, rfl⟩
  rw [hfree]
  intro x hx
  cases List.mem_singleton.1 hx
  exact .inl ⟨.number, by decide, by decide⟩

end Expr

end SimplyTyped
