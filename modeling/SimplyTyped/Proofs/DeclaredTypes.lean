import SimplyTyped.Proofs.FreeVariables

/-!
# No type is invented

There is no unification, so a type of a parameter is never guessed: it was written down
somewhere. Functions declare the types of their parameters, recursive functions also what
they return, and a context declares the types of free variables. Whatever function type
occurs in an inferred type, at any depth, its parameter occurs in one of these.

A binding puts an inferred type into the context, which nothing declares as a whole. So
the induction is not about declared types but about types whose parameters are known:
inference makes such types only, from a context of such types.
-/

namespace SimplyTyped

/-! ### The types in a type -/

namespace Ty

/-- The types that occur in a type, the type itself included. -/
def subterms : Ty → List Ty
  | number => [number]
  | boolean => [boolean]
  | arrow param result => arrow param result :: (param.subterms ++ result.subterms)

@[simp] theorem mem_subterms_self (t : Ty) : t ∈ t.subterms := by
  cases t <;> simp [subterms]

@[simp] theorem mem_subterms_arrow_iff {s param result : Ty} :
    s ∈ (arrow param result).subterms ↔
      s = arrow param result ∨ s ∈ param.subterms ∨ s ∈ result.subterms := by
  simp [subterms]

/-- With a function type, its parameter occurs too. -/
theorem param_mem_subterms {param result t : Ty} (h : arrow param result ∈ t.subterms) :
    param ∈ t.subterms := by
  induction t with
  | number => simp [subterms] at h
  | boolean => simp [subterms] at h
  | arrow p r ihp ihr =>
    rw [mem_subterms_arrow_iff] at h ⊢
    rcases h with heq | hp | hr
    · cases heq
      exact .inr (.inl (mem_subterms_self param))
    · exact .inr (.inl (ihp hp))
    · exact .inr (.inr (ihr hr))

/-! ### Types with known parameters -/

variable {known : Ty → Prop} {s t : Ty}

/-- Every type that occurs in `t` is known. -/
def Known (known : Ty → Prop) (t : Ty) : Prop := ∀ s ∈ t.subterms, known s

/-- The parameter of every function type that occurs in `t` is known. -/
def ParamsKnown (known : Ty → Prop) (t : Ty) : Prop :=
  ∀ param result, arrow param result ∈ t.subterms → known param

theorem Known.paramsKnown (h : t.Known known) : t.ParamsKnown known := by
  intro param result hmem
  exact h param (param_mem_subterms hmem)

theorem paramsKnown_of_not_isArrow (ht : t.isArrow = false) : t.ParamsKnown known := by
  intro param result hmem
  cases t with
  | number => simp [subterms] at hmem
  | boolean => simp [subterms] at hmem
  | arrow _ _ => cases ht

/-- What a function type adds to its two sides is its own parameter. -/
theorem paramsKnown_arrow (hs : s.Known known) (ht : t.ParamsKnown known) :
    (arrow s t).ParamsKnown known := by
  intro param result hmem
  rcases mem_subterms_arrow_iff.1 hmem with heq | hparam | hresult
  · cases heq
    exact hs s (mem_subterms_self s)
  · exact hs.paramsKnown param result hparam
  · exact ht param result hresult

theorem ParamsKnown.result (h : (arrow s t).ParamsKnown known) : t.ParamsKnown known := by
  intro param result hmem
  exact h param result (mem_subterms_arrow_iff.2 (.inr (.inr hmem)))

end Ty

namespace Context

/-- As far as the given names are bound, the parameters in their types are known. -/
def ParamsKnown (known : Ty → Prop) (names : List String) (Γ : Context) : Prop :=
  ∀ x ∈ names, ∀ t, Γ.get? x = some t → t.ParamsKnown known

theorem ParamsKnown.insert {known : Ty → Prop} {names : List String} {Γ : Context} {x : String}
    {t : Ty} (h : ParamsKnown known (names.filter (· ≠ x)) Γ) (ht : t.ParamsKnown known) :
    ParamsKnown known names (Γ.insert x t) := by
  intro y hy s hs
  rw [get?_insert] at hs
  by_cases hyx : y = x
  · rw [if_pos hyx] at hs
    cases hs
    exact ht
  · rw [if_neg hyx] at hs
    exact h y (by simp [hy, hyx]) s hs

end Context

/-! ### Inference invents no parameter -/

namespace Expr

/-- The types that an expression declares: of the parameters of its functions, and of the
    results of its recursive functions. -/
def annotations : Expr → List Ty
  | num _ => []
  | bool _ => []
  | var _ => []
  | letIn _ value body => value.annotations ++ body.annotations
  | binary _ left right => left.annotations ++ right.annotations
  | cond condition thenBranch elseBranch =>
    condition.annotations ++ thenBranch.annotations ++ elseBranch.annotations
  | lam _ paramType body => paramType :: body.annotations
  | app function argument => function.annotations ++ argument.annotations
  | letRec _ _ paramType returnType definition body =>
    paramType :: returnType :: (definition.annotations ++ body.annotations)
  | foreign _ => []

/-- The types that are written down for an expression: in its own annotations, or in the
    context for one of its free variables. -/
inductive Declared (Γ : Context) (e : Expr) : Ty → Prop where
  | inExpr {s t : Ty} : t ∈ e.annotations → s ∈ t.subterms → Declared Γ e s
  | inContext {x : String} {s t : Ty} :
      x ∈ e.freeVars → Γ.get? x = some t → s ∈ t.subterms → Declared Γ e s

/-- Where all that is declared is known, and the parameters in the types of the free
    variables are, those in an inferred type are. -/
theorem paramsKnown_of_infer {known : Ty → Prop} {e : Expr} {Γ : Context} {t : Ty}
    (hdeclared : ∀ s ∈ e.annotations, s.Known known) (hΓ : Γ.ParamsKnown known e.freeVars)
    (h : e.infer Γ = .ok t) : t.ParamsKnown known := by
  induction e generalizing Γ t with
  | num value =>
    cases h
    exact Ty.paramsKnown_of_not_isArrow rfl
  | bool value =>
    cases h
    exact Ty.paramsKnown_of_not_isArrow rfl
  | var x => exact hΓ x (List.mem_singleton_self x) t (Context.resolve_eq_ok_iff.1 h)
  | letIn x value body ihv ihb =>
    obtain ⟨hvalue, hbody⟩ := List.forall_mem_append.1 hdeclared
    obtain ⟨hΓvalue, hΓbody⟩ := List.forall_mem_append.1 hΓ
    obtain ⟨s, hs, ht⟩ := infer_letIn_eq_ok_iff.1 h
    -- The type of the value is declared nowhere, but its parameters are known.
    have hparams : s.ParamsKnown known := ihv hvalue hΓvalue hs
    exact ihb hbody (Context.ParamsKnown.insert hΓbody hparams) ht
  | binary op left right _ _ =>
    obtain ⟨_, _, _, _, rfl⟩ := infer_binary_eq_ok_iff.1 h
    apply Ty.paramsKnown_of_not_isArrow
    cases op <;> rfl
  | cond condition thenBranch elseBranch _ iha _ =>
    obtain ⟨hrest, _⟩ := List.forall_mem_append.1 hdeclared
    obtain ⟨hΓrest, _⟩ := List.forall_mem_append.1 hΓ
    obtain ⟨_, hthen, _⟩ := infer_cond_eq_ok_iff.1 h
    exact iha (List.forall_mem_append.1 hrest).2 (List.forall_mem_append.1 hΓrest).2 hthen
  | lam x paramType body ih =>
    obtain ⟨hparam, hbody⟩ := List.forall_mem_cons.1 hdeclared
    obtain ⟨s, hs, rfl⟩ := infer_lam_eq_ok_iff.1 h
    have hΓbody := Context.ParamsKnown.insert hΓ hparam.paramsKnown
    exact Ty.paramsKnown_arrow hparam (ih hbody hΓbody hs)
  | app function argument ihf _ =>
    obtain ⟨s, hfunction, _⟩ := infer_app_eq_ok_iff.1 h
    have hparams := ihf (List.forall_mem_append.1 hdeclared).1 (List.forall_mem_append.1 hΓ).1
      hfunction
    exact hparams.result
  | letRec name param paramType returnType definition body _ ihb =>
    obtain ⟨hparam, hrest⟩ := List.forall_mem_cons.1 hdeclared
    obtain ⟨hreturn, hrest⟩ := List.forall_mem_cons.1 hrest
    obtain ⟨_, hbody⟩ := infer_letRec_eq_ok_iff.1 h
    have hself := Ty.paramsKnown_arrow hparam hreturn.paramsKnown
    exact ihb (List.forall_mem_append.1 hrest).2
      (Context.ParamsKnown.insert (List.forall_mem_append.1 hΓ).2 hself) hbody
  | foreign kind => cases h

/-- **No type is invented.** The parameter of every function type that occurs in an
    inferred type occurs in a declared type of the expression, or in the type that the
    context gives to one of its free variables. -/
theorem inferred_params_are_declared (Γ : Context) (e : Expr) (t : Ty) (h : e.infer Γ = .ok t) :
    ∀ param result, .arrow param result ∈ t.subterms → Declared Γ e param := by
  have hΓ : Γ.ParamsKnown (Declared Γ e) e.freeVars := by
    intro x hx s hs param result hmem
    exact .inContext hx hs (Ty.param_mem_subterms hmem)
  exact paramsKnown_of_infer (fun s hs p hp => .inExpr hs hp) hΓ h

/-- A binding of a function whose type is declared nowhere, and a call that takes this type
    apart. In the type of the call are the parameter that the inner function declares, the
    parameter inside that one, and the two in the type of the free variable. -/
theorem inferred_params_are_declared_letIn :
    let Γ : Context := .ofList [("g", .arrow (.arrow .number .number) .boolean), ("h", .number)]
    let e : Expr := .letIn "h"
      (.lam "x" .number (.lam "k" (.arrow .boolean .number) (.var "g")))
      (.app (.var "h") (.num (.int 1)))
    let t : Ty := .arrow (.arrow .boolean .number) (.arrow (.arrow .number .number) .boolean)
    e.infer Γ = .ok t ∧ e.annotations = [.number, .arrow .boolean .number] ∧
      e.freeVars = ["g"] ∧
      (∀ param result, .arrow param result ∈ t.subterms → Declared Γ e param) ∧
      Declared Γ e (.arrow .boolean .number) ∧ Declared Γ e .boolean ∧
      Declared Γ e (.arrow .number .number) ∧ Declared Γ e .number := by
  intro Γ e t
  have hparams := inferred_params_are_declared Γ e t rfl
  refine ⟨rfl, rfl, by decide, hparams, ?_, ?_, ?_, ?_⟩
  · exact hparams _ (.arrow (.arrow .number .number) .boolean) (by decide)
  · exact hparams _ .number (by decide)
  · exact hparams _ .boolean (by decide)
  · exact hparams _ .number (by decide)

end Expr

end SimplyTyped
