import SimplyTyped.Proofs.FreeVariables

/-!
# Which names are reported as unbound

Scope is a matter of the text: a name is free where no binder around it captures it.
Inference knows nothing of this. It extends a context on the way down and looks names up
in what it has at hand. The two agree. An expression with a type has all its free
variables bound by the context, and a variable that is reported as unbound is a free one
that the context does not bind, namely the first in order of occurrence.

Both halves are one statement about a run: it resolves the free variables in their order,
and a name that it does not find ends it.
-/

namespace SimplyTyped

/-! ### The first unbound name -/

namespace Context

variable {Γ : Context} {names : List String}

theorem contains_insert (Γ : Context) (x : String) (t : Ty) (y : String) :
    (Γ.insert x t).contains y = (decide (y = x) || Γ.contains y) := by
  rw [contains, get?_insert]
  by_cases h : y = x <;> simp [h, contains]

/-- The first of the names that the context does not bind. -/
def firstUnbound? (Γ : Context) (names : List String) : Option String :=
  names.find? fun x => !Γ.contains x

theorem firstUnbound?_append (Γ : Context) (xs ys : List String) :
    Γ.firstUnbound? (xs ++ ys) = (Γ.firstUnbound? xs).or (Γ.firstUnbound? ys) :=
  List.find?_append

/-- A binder takes its own name off the names that have to be bound around it. -/
theorem firstUnbound?_insert (Γ : Context) (x : String) (t : Ty) (names : List String) :
    (Γ.insert x t).firstUnbound? names = Γ.firstUnbound? (names.filter (· ≠ x)) := by
  rw [firstUnbound?, firstUnbound?, List.find?_filter]
  congr 1
  funext y
  rw [contains_insert, Bool.not_or]
  by_cases h : y = x <;> simp [h]

theorem firstUnbound?_eq_none_iff :
    Γ.firstUnbound? names = none ↔ ∀ x ∈ names, Γ.contains x = true := by
  simp [firstUnbound?]

theorem firstUnbound?_eq_some {x : String} (h : Γ.firstUnbound? names = some x) :
    x ∈ names ∧ Γ.contains x = false := by
  have hx := List.find?_some h
  exact ⟨List.mem_of_find?_eq_some h, by simpa using hx⟩

end Context

namespace Expr

/-! ### Runs that resolve names -/

section Runs

variable {α β : Type} {Γ : Context} {xs ys : List String} {run : Except Failure α}
  {next : α → Except Failure β}

/-- A run resolves the given names in their order: it comes to its end only if all of them are
    bound, and an unbound variable that it reports is the first one, found at the variable
    itself. A failure of another kind may end it before. -/
structure Resolves (Γ : Context) (names : List String) (run : Except Failure α) : Prop where
  ok : ∀ a, run = .ok a → Γ.firstUnbound? names = none
  unbound : ∀ x node, run = .error (.rejected ⟨.unbound x, node⟩) →
    Γ.firstUnbound? names = some x ∧ node = some (.var x)

theorem Resolves.bind (h : Resolves Γ xs run) (hnext : ∀ a, Resolves Γ ys (next a)) :
    Resolves Γ (xs ++ ys) (run >>= next) := by
  constructor
  · intro b hb
    obtain ⟨a, ha, hb⟩ := bind_eq_ok_iff.1 hb
    rw [Context.firstUnbound?_append, h.ok a ha, (hnext a).ok b hb, Option.none_or]
  · intro x node hx
    rw [Context.firstUnbound?_append]
    rcases bind_eq_error_iff.1 hx with hrun | ⟨a, ha, hnextx⟩
    · obtain ⟨hfirst, hnode⟩ := h.unbound x node hrun
      rw [hfirst, Option.some_or]
      exact ⟨rfl, hnode⟩
    · rw [h.ok a ha, Option.none_or]
      exact (hnext a).unbound x node hnextx

theorem resolves_nothing (h : ∀ x node, run ≠ .error (.rejected ⟨.unbound x, node⟩)) :
    Resolves Γ [] run := by
  constructor
  · intro a _
    rfl
  · intro x node hx
    exact absurd hx (h x node)

/-- A step that resolves no name can follow. -/
theorem Resolves.step (h : Resolves Γ xs run) (hnext : ∀ a, Resolves Γ [] (next a)) :
    Resolves Γ xs (run >>= next) := by
  have hbind := h.bind hnext
  rwa [List.append_nil] at hbind

/-- What is resolved below a binder is resolved outside it too, except for the name that it
    binds. -/
theorem Resolves.below {x : String} {t : Ty} (h : Resolves (Γ.insert x t) xs run) :
    Resolves Γ (xs.filter (· ≠ x)) run := by
  constructor
  · intro a ha
    rw [← Context.firstUnbound?_insert Γ x t]
    exact h.ok a ha
  · intro y node hy
    rw [← Context.firstUnbound?_insert Γ x t]
    exact h.unbound y node hy

theorem resolves_pure (a : α) : Resolves Γ [] (pure a) := resolves_nothing fun _ _ => pure_ne_error

theorem resolves_demand (e : Expr) (s t : Ty) : Resolves Γ [] (e.demand s t) := by
  apply resolves_nothing
  intro x node hx
  cases (demand_eq_error_iff.1 hx).2

theorem resolves_demandArrow (e : Expr) (t : Ty) : Resolves Γ [] (e.demandArrow t) := by
  apply resolves_nothing
  intro x node hx
  cases (demandArrow_eq_error_iff.1 hx).2

theorem resolves_var (Γ : Context) (x : String) : Resolves Γ [x] (Γ.resolve x) := by
  constructor
  · intro t ht
    have hx : Γ.get? x = some t := Context.resolve_eq_ok_iff.1 ht
    rw [Context.firstUnbound?_eq_none_iff]
    simp [Context.contains, hx]
  · intro y node hy
    obtain ⟨hx, hfailure⟩ := Context.resolve_eq_error_iff.1 hy
    cases hfailure
    exact ⟨by simp [Context.firstUnbound?, Context.contains, hx], rfl⟩

end Runs

/-! ### Inference resolves the free variables -/

/-- **Inference resolves the free variables**, in order of occurrence. -/
theorem resolves_infer (Γ : Context) (e : Expr) : Resolves Γ e.freeVars (e.infer Γ) := by
  induction e generalizing Γ with
  | num value => exact resolves_pure Ty.number
  | bool value => exact resolves_pure Ty.boolean
  | foreign kind => exact resolves_nothing nofun
  | var x => exact resolves_var Γ x
  | letIn x value body ihv ihb => exact (ihv Γ).bind fun t => (ihb (Γ.insert x t)).below
  | binary op left right ihl ihr =>
    refine (ihl Γ).bind fun t => (resolves_demand left _ t).bind fun _ => ?_
    have hright := (ihr Γ).step fun s => resolves_demand right (op.operandType?.getD t) s
    exact hright.step fun _ => resolves_pure op.resultType
  | cond condition thenBranch elseBranch ihc iha ihb =>
    rw [freeVars, List.append_assoc]
    have hcondition := (ihc Γ).step fun t => resolves_demand condition .boolean t
    refine hcondition.bind fun _ => (iha Γ).bind fun t => ?_
    have helse := (ihb Γ).step fun s => resolves_demand elseBranch t s
    exact helse.step fun _ => resolves_pure t
  | lam x paramType body ih =>
    exact (ih (Γ.insert x paramType)).below.step fun t => resolves_pure (Ty.arrow paramType t)
  | app function argument ihf iha =>
    have hfunction := (ihf Γ).step fun t => resolves_demandArrow function t
    refine hfunction.bind fun arrow => ?_
    have hargument := (iha Γ).step fun s => resolves_demand argument arrow.1 s
    exact hargument.step fun _ => resolves_pure arrow.2
  | letRec name param paramType returnType definition body ihd ihb =>
    have hdefinition := (ihd ((Γ.insert name (.arrow paramType returnType)).insert param
      paramType)).step fun t => resolves_demand definition returnType t
    -- The parameter is bound inside the name, and the body sees the name only.
    exact hdefinition.below.below.bind fun _ => (ihb _).below

/-- **Unbound variables are reported for free names only, and for no bound one.** If an
    expression has a type, the context binds all its free variables, so that an expression
    with a type in the empty context is closed. A name that is reported as unbound is a free
    variable that the context does not bind, and the report points at the variable. So where
    all free variables are bound, there is no such report. -/
theorem unbound_reports_are_free (Γ : Context) (e : Expr) :
    (∀ t, e.infer Γ = .ok t → ∀ x ∈ e.freeVars, Γ.contains x = true) ∧
    (∀ t, e.infer .empty = .ok t → e.freeVars = []) ∧
    (∀ x node, e.infer Γ = .error (.rejected ⟨.unbound x, node⟩) →
      x ∈ e.freeVars ∧ Γ.contains x = false ∧ node = some (.var x)) ∧
    ((∀ x ∈ e.freeVars, Γ.contains x = true) →
      ∀ x node, e.infer Γ ≠ .error (.rejected ⟨.unbound x, node⟩)) := by
  have hbound : ∀ Δ t, e.infer Δ = .ok t → ∀ x ∈ e.freeVars, Δ.contains x = true :=
    fun Δ t ht => Context.firstUnbound?_eq_none_iff.1 ((resolves_infer Δ e).ok t ht)
  have hreport : ∀ x node, e.infer Γ = .error (.rejected ⟨.unbound x, node⟩) →
      x ∈ e.freeVars ∧ Γ.contains x = false ∧ node = some (.var x) := by
    intro x node hx
    obtain ⟨hfirst, hnode⟩ := (resolves_infer Γ e).unbound x node hx
    obtain ⟨hmem, hunbound⟩ := Context.firstUnbound?_eq_some hfirst
    exact ⟨hmem, hunbound, hnode⟩
  refine ⟨hbound Γ, ?_, hreport, ?_⟩
  · intro t ht
    apply List.eq_nil_iff_forall_not_mem.2
    intro x hx
    cases hbound .empty t ht x hx
  · intro hall x node hx
    obtain ⟨hmem, hunbound, _⟩ := hreport x node hx
    rw [hall x hmem] at hunbound
    cases hunbound

/-- A recursive function whose definition reads its own name, its parameter and an outer name.
    A use of the function has a type, and only the outer name has to be bound for it. A body
    that reads the parameter is rejected at that variable, because the parameter is bound in
    the definition only; where the context binds it too, the report is gone. The function
    without its outer name is closed. -/
theorem unbound_reports_are_free_letRec :
    let Γ : Context := .ofList [("y", .number)]
    let step : Expr := .app (.var "f") (.binary .plus (.var "x") (.var "y"))
    let inBody : Expr → Expr := .letRec "f" "x" .number .number step
    let use : Expr := .app (.var "f") (.num (.int 1))
    let closed : Expr := .letIn "y" (.num (.int 2)) (inBody use)
    ((inBody use).infer Γ = .ok .number ∧ (inBody use).freeVars = ["y"] ∧
      Γ.contains "y" = true) ∧
    (closed.infer .empty = .ok .number ∧ closed.freeVars = []) ∧
    ((inBody (.var "x")).infer Γ = .error (.rejected ⟨.unbound "x", some (.var "x")⟩) ∧
      "x" ∈ (inBody (.var "x")).freeVars ∧ Γ.contains "x" = false) ∧
    ∀ z node, (inBody (.var "x")).infer (Γ.insert "x" .boolean) ≠
      .error (.rejected ⟨.unbound z, node⟩) := by
  intro Γ step inBody use closed
  have hfree : (inBody use).freeVars = ["y"] := by decide
  have huse : (inBody use).infer Γ = .ok .number := rfl
  have hclosed : closed.infer .empty = .ok .number := rfl
  have hparam : (inBody (.var "x")).infer Γ =
      .error (.rejected ⟨.unbound "x", some (.var "x")⟩) := rfl
  refine ⟨⟨huse, hfree, ?_⟩, ⟨hclosed, ?_⟩, ⟨hparam, ?_⟩, ?_⟩
  · exact (unbound_reports_are_free Γ (inBody use)).1 .number huse "y" (by rw [hfree]; simp)
  · exact (unbound_reports_are_free Γ closed).2.1 .number hclosed
  · obtain ⟨hmem, hunbound, _⟩ :=
      (unbound_reports_are_free Γ (inBody (.var "x"))).2.2.1 "x" _ hparam
    exact ⟨hmem, hunbound⟩
  · apply (unbound_reports_are_free (Γ.insert "x" .boolean) (inBody (.var "x"))).2.2.2
    decide

end Expr

end SimplyTyped
