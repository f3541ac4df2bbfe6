import SimplyTyped.Proofs.FreeVariables

/-!
# The binding forms agree

A binding can be written in other words. Binding a name to a value does what calling a
function of that name with the value does, if the function declares the type that the
value has. A recursive definition that does not mention its own name binds the name to
a plain function, if the definition has the declared type; and here the recursive form
says more, because it is the only one that compares the two. Where the forms agree they
agree in everything: in the type, or in the failure down to the node it points at.
-/

namespace SimplyTyped.Expr

variable {Γ : Context} {value body : Expr} {t : Ty}

/-! ### A binding and a call -/

/-- Once the value has a type, all that is left of a binding is its body. -/
theorem infer_letIn_of_value {x : String} (hvalue : value.infer Γ = .ok t) :
    (letIn x value body).infer Γ = body.infer (Γ.insert x t) := by
  rw [infer, hvalue]
  rfl

/-- A function that is called where it stands leaves its body too. It fails before its
    argument is looked at, but then the argument has nothing to add. -/
theorem infer_app_lam_of_argument {x : String} (hvalue : value.infer Γ = .ok t) :
    (app (lam x t body) value).infer Γ = body.infer (Γ.insert x t) := by
  rcases ok_or_error (body.infer (Γ.insert x t)) with ⟨s, hbody⟩ | ⟨f, hbody⟩
  · have hlam : (lam x t body).infer Γ = .ok (.arrow t s) :=
      infer_lam_eq_ok_iff.2 ⟨s, hbody, rfl⟩
    rw [hbody]
    exact infer_app_eq_ok_iff.2 ⟨t, hlam, hvalue⟩
  · have hlam : (lam x t body).infer Γ = .error f := infer_lam_eq_error_iff.2 hbody
    rw [hbody]
    exact infer_app_eq_error_iff.2 (.inl (.inl hlam))

/-! ### A recursive definition and a binding of a function -/

section Definition

variable {name param : String} {paramType returnType : Ty} {definition : Expr}

/-- A definition that does not mention its own name has the same outcome with and without
    it. Where the parameter has the same name, the parameter hides it. -/
theorem infer_definition_of_not_free (hname : name ∉ (lam param paramType definition).freeVars)
    (Γ : Context) (s : Ty) :
    definition.infer ((Γ.insert name s).insert param paramType) =
      definition.infer (Γ.insert param paramType) := by
  have hagree : Context.AgreeOn (definition.freeVars.filter (· ≠ param)) (Γ.insert name s) Γ :=
    Context.agreeOn_insert_of_not_mem hname s
  exact infer_congr (hagree.insert paramType)

theorem infer_letRec_of_definition
    (hdefinition : definition.infer ((Γ.insert name (.arrow paramType returnType)).insert
      param paramType) = .ok returnType) :
    (letRec name param paramType returnType definition body).infer Γ =
      body.infer (Γ.insert name (.arrow paramType returnType)) := by
  rcases ok_or_error (body.infer (Γ.insert name (.arrow paramType returnType)))
    with ⟨s, hbody⟩ | ⟨f, hbody⟩
  · rw [hbody]
    exact infer_letRec_eq_ok_iff.2 ⟨hdefinition, hbody⟩
  · rw [hbody]
    exact infer_letRec_eq_error_iff.2 (.inr ⟨hdefinition, hbody⟩)

theorem infer_letRec_of_mismatch
    (hdefinition : definition.infer ((Γ.insert name (.arrow paramType returnType)).insert
      param paramType) = .ok t) (ht : t ≠ returnType) :
    (letRec name param paramType returnType definition body).infer Γ =
      .error (.rejected ⟨.mismatch returnType t, some definition⟩) := by
  have hcheck := check_eq_error_iff.2
    (.inr ⟨t, hdefinition, demand_eq_error_iff.2 ⟨Ne.symm ht, rfl⟩⟩)
  exact infer_letRec_eq_error_iff.2 (.inl hcheck)

/-- Unless the definition turns out to have another type than the declared one, the
    recursive form is a binding of a function. -/
theorem infer_letRec_eq_letIn (hname : name ∉ (lam param paramType definition).freeVars)
    (hdeclared : ∀ t, definition.infer (Γ.insert param paramType) = .ok t → t = returnType) :
    (letRec name param paramType returnType definition body).infer Γ =
      (letIn name (lam param paramType definition) body).infer Γ := by
  have hself := infer_definition_of_not_free hname Γ (.arrow paramType returnType)
  rcases ok_or_error (definition.infer (Γ.insert param paramType)) with ⟨t, hok⟩ | ⟨f, herror⟩
  · cases hdeclared t hok
    have hlam : (lam param paramType definition).infer Γ = .ok (.arrow paramType returnType) :=
      infer_lam_eq_ok_iff.2 ⟨returnType, hok, rfl⟩
    rw [infer_letRec_of_definition (hself.trans hok), infer_letIn_of_value hlam]
  · have hlam : (lam param paramType definition).infer Γ = .error f :=
      infer_lam_eq_error_iff.2 herror
    rw [infer_letIn_eq_error_iff.2 (.inl hlam)]
    exact infer_letRec_eq_error_iff.2 (.inl (check_eq_error_iff.2 (.inl (hself.trans herror))))

end Definition

/-- **The binding forms agree.** A binding of a value that has a type has the outcome of a
    call of the function that declares this type. A recursive definition in which its name
    is not free has the outcome of a binding of the function, except that it rejects a
    definition whose type is not the declared one. -/
theorem binding_forms_agree (Γ : Context) :
    (∀ (x : String) (value body : Expr) (t : Ty), value.infer Γ = .ok t →
      (letIn x value body).infer Γ = (app (lam x t body) value).infer Γ) ∧
    ∀ (name param : String) (paramType returnType : Ty) (definition body : Expr),
      name ∉ (lam param paramType definition).freeVars →
      (∀ t, definition.infer (Γ.insert param paramType) = .ok t → t ≠ returnType →
        (letRec name param paramType returnType definition body).infer Γ =
          .error (.rejected ⟨.mismatch returnType t, some definition⟩)) ∧
      ((¬ ∃ t, definition.infer (Γ.insert param paramType) = .ok t ∧ t ≠ returnType) →
        (letRec name param paramType returnType definition body).infer Γ =
          (letIn name (lam param paramType definition) body).infer Γ) := by
  constructor
  · intro x value body t hvalue
    rw [infer_letIn_of_value hvalue, infer_app_lam_of_argument hvalue]
  · intro name param paramType returnType definition body hname
    constructor
    · intro t hdefinition ht
      have hself := infer_definition_of_not_free hname Γ (.arrow paramType returnType)
      exact infer_letRec_of_mismatch (hself.trans hdefinition) ht
    · intro hagrees
      simp only [not_exists, not_and, ne_eq, Decidable.not_not] at hagrees
      exact infer_letRec_eq_letIn hname hagrees

/-- A body that reads an outer name at the wrong type is rejected at the same variable as
    a binding and as a call. A recursive function named like its parameter is a plain one.
    A function that does not return what it declares is rejected, though its binding as a
    plain function is fine. -/
theorem binding_forms_agree_shadowing :
    let Γ : Context := .ofList [("f", .boolean)]
    let sum : Expr := .binary .plus (.var "x") (.var "f")
    let next : Expr := .binary .plus (.var "x") (.num (.int 1))
    let use : Expr := .app (.var "x") (.num (.int 2))
    ((letIn "x" (.num (.int 1)) sum).infer Γ =
        (app (lam "x" .number sum) (.num (.int 1))).infer Γ ∧
      (letIn "x" (.num (.int 1)) sum).infer Γ =
        .error (.rejected ⟨.mismatch .number .boolean, some (.var "f")⟩)) ∧
    ("x" ∈ next.freeVars ∧
      (letRec "x" "x" .number .number next use).infer Γ =
        (letIn "x" (lam "x" .number next) use).infer Γ ∧
      (letRec "x" "x" .number .number next use).infer Γ = .ok .number) ∧
    (letRec "f" "y" .number .boolean (.var "y") (.bool true)).infer Γ =
        .error (.rejected ⟨.mismatch .boolean .number, some (.var "y")⟩) ∧
      (letIn "f" (lam "y" .number (.var "y")) (.bool true)).infer Γ = .ok .boolean := by
  intro Γ sum next use
  obtain ⟨hcall, hfunction⟩ := binding_forms_agree Γ
  refine ⟨⟨hcall "x" (.num (.int 1)) sum .number rfl, rfl⟩, ⟨by decide, ?_, rfl⟩, ?_, rfl⟩
  · apply (hfunction "x" "x" .number .number next use (by decide)).2
    rintro ⟨t, ht, hne⟩
    cases ht
    exact hne rfl
  · exact (hfunction "f" "y" .number .boolean (.var "y") (.bool true) (by decide)).1 .number rfl
      (by decide)

end SimplyTyped.Expr
