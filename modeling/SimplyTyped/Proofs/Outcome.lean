import SimplyTyped.Proofs.InferenceSteps

/-!
# Outcomes of inference up to the place

Two runs of inference on different expressions can agree in everything but the
node that a rejection points at. `SameOutcome` is this agreement: one type, or
failures of one kind with one message and one payload. To compare runs, the place
is dropped from every failure, and what is left (`Expr.outcome`) satisfies the
equations of inference with demands that do not mention a node.
-/

namespace SimplyTyped

/-! ### Agreement up to the place -/

/-- Two failures of one kind, with one message and one payload. The nodes that they
    point at may differ. -/
def Failure.SameReport : Failure → Failure → Prop
  | .rejected r, .rejected r' => r.fault = r'.fault ∧ r.message = r'.message
  | .unknown u, .unknown u' => u = u' ∧ u.message = u'.message
  | _, _ => False

/-- Both give the same type, or both fail with the same report. -/
def SameOutcome (x y : Except Failure Ty) : Prop :=
  (∃ t, x = .ok t ∧ y = .ok t) ∨ ∃ f g, x = .error f ∧ y = .error g ∧ f.SameReport g

def Failure.unplaced : Failure → Failure
  | .rejected r => .rejected ⟨r.fault, none⟩
  | .unknown u => .unknown u

theorem Failure.sameReport_iff {f g : Failure} : f.SameReport g ↔ f.unplaced = g.unplaced := by
  cases f with
  | rejected r =>
    cases g with
    | rejected r' =>
      simp only [SameReport, unplaced, Rejection.message, Failure.rejected.injEq,
        Rejection.mk.injEq, and_true]
      exact ⟨And.left, fun h => ⟨h, congrArg _ h⟩⟩
    | unknown u' => simp [SameReport, unplaced]
  | unknown u =>
    cases g with
    | rejected r' => simp [SameReport, unplaced]
    | unknown u' =>
      simp only [SameReport, unplaced, Failure.unknown.injEq]
      exact ⟨And.left, fun h => ⟨h, congrArg _ h⟩⟩

/-- To agree up to the place is to be equal once places are dropped. -/
theorem sameOutcome_iff {x y : Except Failure Ty} :
    SameOutcome x y ↔ x.mapError Failure.unplaced = y.mapError Failure.unplaced := by
  cases x with
  | ok t =>
    cases y with
    | ok t' => simp [SameOutcome, mapError_ok, eq_comm]
    | error g => simp [SameOutcome, mapError_ok, mapError_error]
  | error f =>
    cases y with
    | ok t' => simp [SameOutcome, mapError_ok, mapError_error]
    | error g => simp [SameOutcome, mapError_error, Failure.sameReport_iff]

/-! ### Demands without a node -/

def Ty.agree (expected actual : Ty) : Except Failure Unit :=
  if expected.same actual then .ok () else .error (.rejected ⟨.mismatch expected actual, none⟩)

def Ty.takeApart : Ty → Except Failure (Ty × Ty)
  | .arrow param result => .ok (param, result)
  | actual => .error (.rejected ⟨.notFunction actual, none⟩)

theorem mapError_bind {ε ε' α β : Type} (g : ε → ε') (x : Except ε α) (f : α → Except ε β) :
    (x >>= f).mapError g = x.mapError g >>= fun a => (f a).mapError g := by
  cases x <;> rfl

theorem mapError_pure {ε ε' α : Type} (g : ε → ε') (a : α) :
    (pure a : Except ε α).mapError g = pure a := rfl

namespace Expr

theorem demand_mapError (e : Expr) (s t : Ty) :
    (e.demand s t).mapError Failure.unplaced = s.agree t := by
  unfold demand Ty.agree
  split <;> rfl

theorem demandArrow_mapError (e : Expr) (t : Ty) :
    (e.demandArrow t).mapError Failure.unplaced = t.takeApart := by
  cases t <;> rfl

/-! ### The equations of outcomes -/

def outcome (Γ : Context) (e : Expr) : Except Failure Ty := (e.infer Γ).mapError Failure.unplaced

theorem sameOutcome_infer_iff {Γ Δ : Context} {a b : Expr} :
    SameOutcome (a.infer Γ) (b.infer Δ) ↔ a.outcome Γ = b.outcome Δ :=
  sameOutcome_iff

variable (Γ : Context)

theorem outcome_var (x : String) :
    (var x).outcome Γ = (Γ.lookup x).mapError Failure.rejected := by
  simp only [outcome, infer, Context.resolve, Context.lookup]
  cases Γ.get? x <;> rfl

theorem outcome_letIn (x : String) (value body : Expr) :
    (letIn x value body).outcome Γ = (do
      let t ← value.outcome Γ
      body.outcome (Γ.insert x t)) := by
  simp only [outcome, infer, mapError_bind]

theorem outcome_binary (op : BinOp) (left right : Expr) :
    (binary op left right).outcome Γ = (do
      let leftType ← left.outcome Γ
      (op.operandType?.getD leftType).agree leftType
      right.outcome Γ >>= (op.operandType?.getD leftType).agree
      return op.resultType) := by
  simp only [outcome, infer, mapError_bind, demand_mapError, mapError_pure]

theorem outcome_cond (condition thenBranch elseBranch : Expr) :
    (cond condition thenBranch elseBranch).outcome Γ = (do
      condition.outcome Γ >>= Ty.boolean.agree
      let t ← thenBranch.outcome Γ
      elseBranch.outcome Γ >>= t.agree
      return t) := by
  simp only [outcome, infer, mapError_bind, demand_mapError, mapError_pure]

theorem outcome_lam (x : String) (paramType : Ty) (body : Expr) :
    (lam x paramType body).outcome Γ = (do
      let t ← body.outcome (Γ.insert x paramType)
      return .arrow paramType t) := by
  simp only [outcome, infer, mapError_bind, mapError_pure]

theorem outcome_app (function argument : Expr) :
    (app function argument).outcome Γ = (do
      let (param, result) ← function.outcome Γ >>= Ty.takeApart
      argument.outcome Γ >>= param.agree
      return result) := by
  simp only [outcome, infer, mapError_bind, demand_mapError, demandArrow_mapError, mapError_pure]

theorem outcome_letRec (name param : String) (paramType returnType : Ty)
    (definition body : Expr) :
    (letRec name param paramType returnType definition body).outcome Γ = (do
      let Δ := Γ.insert name (.arrow paramType returnType)
      definition.outcome (Δ.insert param paramType) >>= returnType.agree
      body.outcome Δ) := by
  simp only [outcome, infer, mapError_bind, demand_mapError]

end Expr

end SimplyTyped
