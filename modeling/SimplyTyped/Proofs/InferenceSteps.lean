import SimplyTyped.Inference

/-!
# The steps of inference

Inference is a chain of steps that may fail: parts are inferred, and their types
are compared with demanded ones. This module says once when each step succeeds
and what it fails with, and then, for every kind of node, what has to hold for
the node to have a type. Later modules reason with these equivalences and do not
unfold inference again.
-/

namespace SimplyTyped

/-! ### Chains that may fail -/

section Chains

variable {ε α β : Type} {x : Except ε α} {f : α → Except ε β}

theorem bind_eq_ok_iff {b : β} : x >>= f = .ok b ↔ ∃ a, x = .ok a ∧ f a = .ok b := by
  cases x with
  | ok a =>
    constructor
    · intro h
      exact ⟨a, rfl, h⟩
    · intro h
      rcases h with ⟨_, hx, hf⟩
      cases hx
      exact hf
  | error e =>
    constructor
    · intro h
      cases h
    · intro h
      rcases h with ⟨_, hx, _⟩
      cases hx

/-- A chain fails with its first step, or with the second one after the first has
    succeeded. -/
theorem bind_eq_error_iff {e : ε} :
    x >>= f = .error e ↔ x = .error e ∨ ∃ a, x = .ok a ∧ f a = .error e := by
  cases x with
  | ok a =>
    constructor
    · intro h
      exact .inr ⟨a, rfl, h⟩
    · intro h
      rcases h with hx | ⟨_, hx, hf⟩
      · cases hx
      · cases hx
        exact hf
  | error e' =>
    constructor
    · intro h
      cases h
      exact .inl rfl
    · intro h
      rcases h with hx | ⟨_, hx, _⟩
      · cases hx
        rfl
      · cases hx

theorem mapError_ok {ε' : Type} (g : ε → ε') (a : α) :
    (Except.ok a : Except ε α).mapError g = .ok a := rfl

theorem mapError_error {ε' : Type} (g : ε → ε') (e : ε) :
    (Except.error e : Except ε α).mapError g = .error (g e) := rfl

theorem pure_eq_ok_iff {a b : α} : (pure a : Except ε α) = .ok b ↔ a = b :=
  ⟨Except.ok.inj, congrArg _⟩

theorem pure_ne_error {a : α} {e : ε} : (pure a : Except ε α) ≠ .error e := nofun

theorem ok_or_error (x : Except ε α) : (∃ a, x = .ok a) ∨ ∃ e, x = .error e := by
  cases x with
  | ok a => exact .inl ⟨a, rfl⟩
  | error e => exact .inr ⟨e, rfl⟩

end Chains

/-! ### Single steps -/

theorem Context.resolve_eq_ok_iff {Γ : Context} {x : String} {t : Ty} :
    Γ.resolve x = .ok t ↔ Γ.get? x = some t := by
  simp only [resolve, lookup]
  cases Γ.get? x <;> simp [mapError_ok, mapError_error]

theorem Context.resolve_eq_error_iff {Γ : Context} {x : String} {f : Failure} :
    Γ.resolve x = .error f ↔
      Γ.get? x = none ∧ f = .rejected ⟨.unbound x, some (.var x)⟩ := by
  simp only [resolve, lookup]
  cases Γ.get? x <;> simp [mapError_ok, mapError_error, Rejection.locatedAt, eq_comm]

namespace Expr

variable {Γ : Context} {e : Expr} {s t : Ty} {f : Failure}

theorem demand_eq_ok_iff {u : Unit} : e.demand s t = .ok u ↔ s = t := by
  rw [demand, ← Ty.same_iff]
  split
  next h => simp [h]
  next h => simp [h]

theorem demand_eq_error_iff :
    e.demand s t = .error f ↔ s ≠ t ∧ f = .rejected ⟨.mismatch s t, some e⟩ := by
  rw [demand, Ne, ← Ty.same_iff]
  split
  next h => simp [h]
  next h => simp [h, eq_comm]

theorem demandArrow_eq_ok_iff {arrow : Ty × Ty} :
    e.demandArrow t = .ok arrow ↔ t = .arrow arrow.1 arrow.2 := by
  cases t <;> simp [demandArrow, Prod.ext_iff]

theorem demandArrow_eq_error_iff :
    e.demandArrow t = .error f ↔
      t.isArrow = false ∧ f = .rejected ⟨.notFunction t, some e⟩ := by
  cases t <;> simp [demandArrow, Ty.isArrow, eq_comm]

/-- An expression passes a check against exactly the type that is inferred for it. -/
theorem check_eq_ok_iff {u : Unit} : e.check Γ t = .ok u ↔ e.infer Γ = .ok t := by
  simp [check, bind_eq_ok_iff, demand_eq_ok_iff]

/-! ### The chain of each node

A type that is demanded of a part is a check of that part. The left operand is the
exception: equality infers it first, to know what it demands of the right one. -/

section Nodes

variable (Γ)

theorem infer_letIn (x : String) (value body : Expr) :
    (letIn x value body).infer Γ = (do
      let valueType ← value.infer Γ
      body.infer (Γ.insert x valueType)) := rfl

theorem infer_binary (op : BinOp) (left right : Expr) :
    (binary op left right).infer Γ = (do
      let leftType ← left.infer Γ
      left.demand (op.operandType?.getD leftType) leftType
      right.check Γ (op.operandType?.getD leftType)
      return op.resultType) := rfl

theorem infer_cond (condition thenBranch elseBranch : Expr) :
    (cond condition thenBranch elseBranch).infer Γ = (do
      condition.check Γ .boolean
      let type ← thenBranch.infer Γ
      elseBranch.check Γ type
      return type) := rfl

theorem infer_lam (x : String) (paramType : Ty) (body : Expr) :
    (lam x paramType body).infer Γ = (do
      let bodyType ← body.infer (Γ.insert x paramType)
      return .arrow paramType bodyType) := rfl

theorem infer_app (function argument : Expr) :
    (app function argument).infer Γ = (do
      let arrow ← function.infer Γ >>= function.demandArrow
      argument.check Γ arrow.1
      return arrow.2) := rfl

theorem infer_letRec (name param : String) (paramType returnType : Ty) (definition body : Expr) :
    (letRec name param paramType returnType definition body).infer Γ = (do
      definition.check ((Γ.insert name (.arrow paramType returnType)).insert param paramType)
        returnType
      body.infer (Γ.insert name (.arrow paramType returnType))) := rfl

end Nodes

/-! ### When a node has a type -/

theorem infer_letIn_eq_ok_iff {x : String} {value body : Expr} :
    (letIn x value body).infer Γ = .ok t ↔
      ∃ s, value.infer Γ = .ok s ∧ body.infer (Γ.insert x s) = .ok t := by
  rw [infer_letIn, bind_eq_ok_iff]

/-- The operands have a common type, which is the one that the operator names if
    it names one. -/
theorem infer_binary_eq_ok_iff {op : BinOp} {left right : Expr} :
    (binary op left right).infer Γ = .ok t ↔
      ∃ s, left.infer Γ = .ok s ∧ right.infer Γ = .ok s ∧
        op.operandType?.getD s = s ∧ t = op.resultType := by
  simp only [infer_binary, bind_eq_ok_iff, demand_eq_ok_iff, check_eq_ok_iff, pure_eq_ok_iff]
  constructor
  · intro h
    rcases h with ⟨s, hl, _, hs, _, hr, ht⟩
    rw [hs] at hr
    exact ⟨s, hl, hr, hs, ht.symm⟩
  · intro h
    rcases h with ⟨s, hl, hr, hs, ht⟩
    exact ⟨s, hl, (), hs, (), by rwa [hs], ht.symm⟩

theorem infer_cond_eq_ok_iff {condition thenBranch elseBranch : Expr} :
    (cond condition thenBranch elseBranch).infer Γ = .ok t ↔
      condition.infer Γ = .ok .boolean ∧ thenBranch.infer Γ = .ok t ∧
        elseBranch.infer Γ = .ok t := by
  simp only [infer_cond, bind_eq_ok_iff, check_eq_ok_iff, pure_eq_ok_iff]
  constructor
  · intro h
    rcases h with ⟨_, hc, s, ha, _, hb, rfl⟩
    exact ⟨hc, ha, hb⟩
  · intro h
    rcases h with ⟨hc, ha, hb⟩
    exact ⟨(), hc, t, ha, (), hb, rfl⟩

theorem infer_lam_eq_ok_iff {x : String} {paramType : Ty} {body : Expr} :
    (lam x paramType body).infer Γ = .ok t ↔
      ∃ s, body.infer (Γ.insert x paramType) = .ok s ∧ t = .arrow paramType s := by
  simp only [infer_lam, bind_eq_ok_iff, pure_eq_ok_iff, eq_comm (a := t)]

theorem infer_app_eq_ok_iff {function argument : Expr} :
    (app function argument).infer Γ = .ok t ↔
      ∃ s, function.infer Γ = .ok (.arrow s t) ∧ argument.infer Γ = .ok s := by
  simp only [infer_app, bind_eq_ok_iff, demandArrow_eq_ok_iff, check_eq_ok_iff, pure_eq_ok_iff]
  constructor
  · intro h
    rcases h with ⟨⟨s, _⟩, ⟨_, hf, rfl⟩, _, ha, rfl⟩
    exact ⟨s, hf, ha⟩
  · intro h
    rcases h with ⟨s, hf, ha⟩
    exact ⟨(s, t), ⟨_, hf, rfl⟩, (), ha, rfl⟩

theorem infer_letRec_eq_ok_iff {name param : String} {paramType returnType : Ty}
    {definition body : Expr} :
    (letRec name param paramType returnType definition body).infer Γ = .ok t ↔
      definition.infer ((Γ.insert name (.arrow paramType returnType)).insert param paramType)
          = .ok returnType ∧
        body.infer (Γ.insert name (.arrow paramType returnType)) = .ok t := by
  simp only [infer_letRec, bind_eq_ok_iff, check_eq_ok_iff, exists_const]

/-! ### Why a node has no type -/

theorem check_eq_error_iff :
    e.check Γ s = .error f ↔
      e.infer Γ = .error f ∨ ∃ t, e.infer Γ = .ok t ∧ e.demand s t = .error f :=
  bind_eq_error_iff

theorem infer_letIn_eq_error_iff {x : String} {value body : Expr} :
    (letIn x value body).infer Γ = .error f ↔
      value.infer Γ = .error f ∨
        ∃ s, value.infer Γ = .ok s ∧ body.infer (Γ.insert x s) = .error f := by
  rw [infer_letIn, bind_eq_error_iff]

theorem infer_binary_of_operandType {op : BinOp} (hop : op.operandType? = some s)
    (left right : Expr) :
    (binary op left right).infer Γ = (do
      left.check Γ s
      right.check Γ s
      return op.resultType) := by
  simp only [infer_binary, check, hop, Option.getD_some, bind_assoc]

theorem infer_binary_eq_error_iff {op : BinOp} (hop : op.operandType? = some s)
    {left right : Expr} :
    (binary op left right).infer Γ = .error f ↔
      left.check Γ s = .error f ∨ left.infer Γ = .ok s ∧ right.check Γ s = .error f := by
  rw [infer_binary_of_operandType hop]
  simp only [bind_eq_error_iff, check_eq_ok_iff, pure_ne_error, and_false, exists_false, or_false,
    exists_const]

theorem infer_eq_operator (left right : Expr) :
    (binary .eq left right).infer Γ = (do
      let leftType ← left.infer Γ
      right.check Γ leftType
      return .boolean) := by
  have hself : ∀ t, left.demand t t = .ok () := fun t => demand_eq_ok_iff.2 rfl
  simp only [infer_binary, BinOp.operandType?, Option.getD_none, hself]
  rfl

theorem infer_eq_operator_eq_error_iff {left right : Expr} :
    (binary .eq left right).infer Γ = .error f ↔
      left.infer Γ = .error f ∨ ∃ t, left.infer Γ = .ok t ∧ right.check Γ t = .error f := by
  rw [infer_eq_operator]
  simp only [bind_eq_error_iff, pure_ne_error, and_false, exists_false, or_false]

theorem infer_cond_eq_error_iff {condition thenBranch elseBranch : Expr} :
    (cond condition thenBranch elseBranch).infer Γ = .error f ↔
      condition.check Γ .boolean = .error f ∨
        condition.infer Γ = .ok .boolean ∧
          (thenBranch.infer Γ = .error f ∨
            ∃ t, thenBranch.infer Γ = .ok t ∧ elseBranch.check Γ t = .error f) := by
  simp only [infer_cond, bind_eq_error_iff, check_eq_ok_iff, pure_ne_error, and_false,
    exists_false, or_false, exists_const]

theorem infer_lam_eq_error_iff {x : String} {paramType : Ty} {body : Expr} :
    (lam x paramType body).infer Γ = .error f ↔
      body.infer (Γ.insert x paramType) = .error f := by
  simp only [infer_lam, bind_eq_error_iff, pure_ne_error, and_false, exists_false, or_false]

theorem infer_app_eq_error_iff {function argument : Expr} :
    (app function argument).infer Γ = .error f ↔
      (function.infer Γ = .error f ∨
        ∃ t, function.infer Γ = .ok t ∧ function.demandArrow t = .error f) ∨
      ∃ s t, function.infer Γ = .ok (.arrow s t) ∧ argument.check Γ s = .error f := by
  simp only [infer_app, bind_eq_error_iff, bind_eq_ok_iff, demandArrow_eq_ok_iff, pure_ne_error,
    and_false, exists_false, or_false, Prod.exists, exists_eq_right]

theorem infer_letRec_eq_error_iff {name param : String} {paramType returnType : Ty}
    {definition body : Expr} :
    (letRec name param paramType returnType definition body).infer Γ = .error f ↔
      definition.check ((Γ.insert name (.arrow paramType returnType)).insert param paramType)
          returnType = .error f ∨
        definition.infer ((Γ.insert name (.arrow paramType returnType)).insert param paramType)
            = .ok returnType ∧
          body.infer (Γ.insert name (.arrow paramType returnType)) = .error f := by
  simp only [infer_letRec, bind_eq_error_iff, check_eq_ok_iff, exists_const]

end Expr

end SimplyTyped
