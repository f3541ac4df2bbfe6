import SimplyTyped.Proofs.Outcome
import SimplyTyped.Proofs.Sites

/-!
# Replacing a part by another of its type

A part of an expression can be replaced wherever a path of part numbers leads to it. The
context of the part is the one that the outline hands down, and it is the only thing
that inference knows about the surroundings of the part. So inference is compositional:
if the new part has the type of the old one in that context, the whole has the same
outcome as before. This holds for every position, also where the part decides about the
context of its neighbours or about the demand on them, and where inference never gets
to, such as the body of a binding without a type.
-/

namespace SimplyTyped

/-! ### Replacement at a path -/

namespace Expr

/-- Changes the part with the given number and keeps the node and its other parts. -/
def modifyPart (e : Expr) (i : Nat) (f : Expr → Expr) : Expr :=
  match e, i with
  | letIn x value body, 0 => letIn x (f value) body
  | letIn x value body, 1 => letIn x value (f body)
  | binary op left right, 0 => binary op (f left) right
  | binary op left right, 1 => binary op left (f right)
  | cond condition thenBranch elseBranch, 0 => cond (f condition) thenBranch elseBranch
  | cond condition thenBranch elseBranch, 1 => cond condition (f thenBranch) elseBranch
  | cond condition thenBranch elseBranch, 2 => cond condition thenBranch (f elseBranch)
  | lam x paramType body, 0 => lam x paramType (f body)
  | app function argument, 0 => app (f function) argument
  | app function argument, 1 => app function (f argument)
  | letRec name param paramType returnType definition body, 0 =>
    letRec name param paramType returnType (f definition) body
  | letRec name param paramType returnType definition body, 1 =>
    letRec name param paramType returnType definition (f body)
  | e, _ => e

/-- Puts `new` in the place of the part that a path leads to. -/
def replaceAt (e : Expr) (path : List Nat) (new : Expr) : Expr :=
  match path with
  | [] => new
  | i :: path => e.modifyPart i fun part => part.replaceAt path new

/-! ### One step up -/

/-- The context of the body of a binding, by the outcome of the value. -/
def scopeAfter (Γ : Context) (x : String) : Except Failure Ty → Except UnknownNode Context
  | .ok t => .ok (Γ.insert x t)
  | .error (.rejected _) => .ok Γ
  | .error (.unknown u) => .error u

theorem bodyScope_eq_scopeAfter (Γ : Context) (x : String) (value : Expr) :
    bodyScope Γ x value = scopeAfter Γ x (value.outcome Γ) := by
  unfold bodyScope judge outcome
  cases value.infer Γ with
  | ok t => rfl
  | error failure => cases failure <;> rfl

/-- Where the value has a type, inference reads the body in the context that is handed
    down, and where it has none, inference does not read the body. -/
theorem outcome_letIn_congr_body {Γ Δ : Context} {x : String} {value body body' : Expr}
    (hscope : bodyScope Γ x value = .ok Δ) (hbody : body'.outcome Δ = body.outcome Δ) :
    (letIn x value body').outcome Γ = (letIn x value body).outcome Γ := by
  rw [bodyScope_eq_scopeAfter] at hscope
  rw [outcome_letIn, outcome_letIn]
  cases hvalue : value.outcome Γ with
  | error failure => rfl
  | ok t =>
    rw [hvalue] at hscope
    cases hscope
    exact hbody

end Expr

namespace Site

variable {Γ : Context} {e : Expr} {i : Nat} {part : Site} {f : Expr → Expr}

theorem parts_letIn_of_bodyScope {Δ : Context} {x : String} {value body : Expr}
    (h : Expr.bodyScope Γ x value = .ok Δ) :
    parts ⟨Γ, .letIn x value body⟩ = [⟨Γ, value⟩, ⟨Δ, body⟩] := by
  simp only [parts, Expr.children, h]
  rfl

/-- A binding with parts has a context for its body. -/
theorem exists_bodyScope {x : String} {value body : Expr}
    (h : (parts ⟨Γ, .letIn x value body⟩)[i]? = some part) :
    ∃ Δ, Expr.bodyScope Γ x value = .ok Δ := by
  cases hscope : Expr.bodyScope Γ x value with
  | ok Δ => exact ⟨Δ, rfl⟩
  | error u =>
    have hparts : parts ⟨Γ, .letIn x value body⟩ = [] := by
      simp only [parts, Expr.children, hscope]
      rfl
    rw [hparts] at h
    cases h

/-- A new part with the outcome of the old one does not change what is handed down to
    the other parts. -/
theorem parts_modifyPart (hpart : (parts ⟨Γ, e⟩)[i]? = some part)
    (hf : (f part.node).outcome part.scope = part.node.outcome part.scope) :
    parts ⟨Γ, e.modifyPart i f⟩ = (parts ⟨Γ, e⟩).set i ⟨part.scope, f part.node⟩ := by
  cases e with
  | num value => cases hpart
  | bool value => cases hpart
  | var x => cases hpart
  | foreign kind => cases hpart
  | letIn x value body =>
    obtain ⟨Δ, hscope⟩ := exists_bodyScope hpart
    rw [parts_letIn_of_bodyScope hscope] at hpart ⊢
    rcases i with _ | _ | i
    · cases hpart
      -- The value decides about the context of the body, by its outcome alone.
      apply parts_letIn_of_bodyScope
      rw [Expr.bodyScope_eq_scopeAfter, hf, ← Expr.bodyScope_eq_scopeAfter, hscope]
    · cases hpart
      exact parts_letIn_of_bodyScope hscope
    · cases hpart
  | binary op left right =>
    rcases i with _ | _ | i <;> cases hpart <;> rfl
  | cond condition thenBranch elseBranch =>
    rcases i with _ | _ | _ | i <;> cases hpart <;> rfl
  | lam x paramType body =>
    rcases i with _ | i <;> cases hpart
    rfl
  | app function argument =>
    rcases i with _ | _ | i <;> cases hpart <;> rfl
  | letRec name param paramType returnType definition body =>
    rcases i with _ | _ | i <;> cases hpart <;> rfl

/-- **One step up.** A new part with the outcome of the old one gives the whole node the
    outcome that it had. -/
theorem outcome_modifyPart (hpart : (parts ⟨Γ, e⟩)[i]? = some part)
    (hf : (f part.node).outcome part.scope = part.node.outcome part.scope) :
    (e.modifyPart i f).outcome Γ = e.outcome Γ := by
  cases e with
  | num value => cases hpart
  | bool value => cases hpart
  | var x => cases hpart
  | foreign kind => cases hpart
  | letIn x value body =>
    obtain ⟨Δ, hscope⟩ := exists_bodyScope hpart
    rw [parts_letIn_of_bodyScope hscope] at hpart
    rcases i with _ | _ | i
    · cases hpart
      rw [Expr.modifyPart, Expr.outcome_letIn, Expr.outcome_letIn, hf]
    · cases hpart
      exact Expr.outcome_letIn_congr_body hscope hf
    · cases hpart
  | binary op left right =>
    rcases i with _ | _ | i <;> cases hpart <;>
      rw [Expr.modifyPart, Expr.outcome_binary, Expr.outcome_binary, hf]
  | cond condition thenBranch elseBranch =>
    rcases i with _ | _ | _ | i <;> cases hpart <;>
      rw [Expr.modifyPart, Expr.outcome_cond, Expr.outcome_cond, hf]
  | lam x paramType body =>
    rcases i with _ | i <;> cases hpart
    rw [Expr.modifyPart, Expr.outcome_lam, Expr.outcome_lam, hf]
  | app function argument =>
    rcases i with _ | _ | i <;> cases hpart <;>
      rw [Expr.modifyPart, Expr.outcome_app, Expr.outcome_app, hf]
  | letRec name param paramType returnType definition body =>
    rcases i with _ | _ | i <;> cases hpart <;>
      rw [Expr.modifyPart, Expr.outcome_letRec, Expr.outcome_letRec] <;>
      dsimp only at hf ⊢ <;> rw [hf]

end Site

/-! ### All the way up -/

namespace Expr

variable {Γ : Context} {e new : Expr} {path : List Nat} {s : Site}

/-- **Every path up.** A new part with the outcome of the old one gives the whole its old
    outcome, and stands in the context of the old one. -/
theorem outcome_replaceAt (hs : (Site.mk Γ e).follow? path = some s)
    (hnew : new.outcome s.scope = s.node.outcome s.scope) :
    (e.replaceAt path new).outcome Γ = e.outcome Γ ∧
      (Site.mk Γ (e.replaceAt path new)).follow? path = some ⟨s.scope, new⟩ := by
  induction path generalizing Γ e with
  | nil =>
    cases hs
    exact ⟨hnew, rfl⟩
  | cons i path ih =>
    obtain ⟨part, hpart, hrest⟩ := Option.bind_eq_some_iff.1 hs
    obtain ⟨houtcome, hfollow⟩ := ih hrest
    refine ⟨Site.outcome_modifyPart hpart houtcome, ?_⟩
    have hbound : i < (Site.parts ⟨Γ, e⟩).length := (List.getElem?_eq_some_iff.1 hpart).1
    rw [Site.follow?, replaceAt, Site.parts_modifyPart hpart houtcome,
      List.getElem?_set_self hbound]
    exact hfollow

/-- **Inference is compositional.** Let a path lead to a part of an expression, and let
    another expression have the type of the part in the context there. Then the whole
    with that expression in the place of the part, in the same context, has the same type
    as before, or fails with the same report. -/
theorem sameOutcome_replaceAt (Γ : Context) (e new : Expr) (path : List Nat) (s : Site) (t : Ty)
    (hs : (Site.mk Γ e).follow? path = some s) (hold : s.node.infer s.scope = .ok t)
    (hnew : new.infer s.scope = .ok t) :
    SameOutcome (e.infer Γ) ((e.replaceAt path new).infer Γ) ∧
      (Site.mk Γ (e.replaceAt path new)).follow? path = some ⟨s.scope, new⟩ := by
  have houtcome : new.outcome s.scope = s.node.outcome s.scope := by
    rw [outcome, outcome, hold, hnew]
  obtain ⟨hwhole, hsite⟩ := outcome_replaceAt hs houtcome
  exact ⟨sameOutcome_infer_iff.2 hwhole.symm, hsite⟩

/-- A function is bound and then called in the body of a binding that breaks a rule,
    where a foreign node follows. The function is replaced where it is bound, which gives
    the rest its context, and where it is called, which inference does not get to. Both
    times the sum is still to blame, for the same mismatch. -/
theorem sameOutcome_replaceAt_letIn :
    let Γ : Context := .ofList [("x", .number)]
    let e : Expr := .letIn "f" (.lam "y" .number (.var "y"))
      (.letIn "z" (.binary .plus (.app (.var "f") (.var "x")) (.bool true))
        (.binary .eq (.var "z") (.app (.var "f") (.foreign "Hole"))))
    let new : Expr := .lam "n" .number (.binary .plus (.var "n") (.var "x"))
    e.infer Γ = .error (.rejected ⟨.mismatch .number .boolean, some (.bool true)⟩) ∧
      SameOutcome (e.infer Γ) ((e.replaceAt [0] new).infer Γ) ∧
      SameOutcome (e.infer Γ) ((e.replaceAt [1, 1, 1, 0] new).infer Γ) := by
  intro Γ e new
  have hvalue := sameOutcome_replaceAt Γ e new [0] _ (.arrow .number .number) rfl rfl rfl
  have hcallee :=
    sameOutcome_replaceAt Γ e new [1, 1, 1, 0] _ (.arrow .number .number) rfl rfl rfl
  exact ⟨rfl, hvalue.1, hcallee.1⟩

end Expr

end SimplyTyped
