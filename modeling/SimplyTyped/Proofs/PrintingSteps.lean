import SimplyTyped.Outline.Tree
import SimplyTyped.Proofs.InferenceSteps

/-!
# The steps of printing

A printing run has lines and an outcome. The outcome of a composed run is composed of
outcomes, as if nothing were printed, and its lines are those of the parts in their
order. This module says so for the ways in which outlines are put together, and gives
the outline of an expression, and the full one in particular (all nodes, all verdicts),
in terms of the outlines of its parts.
-/

namespace SimplyTyped

/-! ### Outcomes and lines of composed runs -/

namespace Printed

variable {α β : Type}

theorem outcome_bind (run : Printed α) (next : α → Printed β) :
    (run >>= next).outcome = run.outcome >>= fun a => (next a).outcome := by
  obtain ⟨lines, outcome⟩ := run
  cases outcome with
  | ok value => rfl
  | error node => rfl

theorem outcome_forM (xs : List α) (body : α → Printed Unit) :
    (xs.forM body).outcome = xs.forM fun x => (body x).outcome := by
  induction xs with
  | nil => rfl
  | cons x xs ih =>
    calc (List.forM (x :: xs) body).outcome
        = (body x >>= fun _ => xs.forM body).outcome := rfl
      _ = ((body x).outcome >>= fun _ => xs.forM fun x => (body x).outcome) := by
        rw [outcome_bind, ih]

theorem lines_bind_of_ok {run : Printed α} {a : α} (h : run.outcome = .ok a)
    (next : α → Printed β) : (run >>= next).lines = run.lines ++ (next a).lines := by
  obtain ⟨lines, outcome⟩ := run
  cases h
  rfl

theorem forM_eq_ok_iff {xs : List α} {body : α → Except UnknownNode Unit} :
    xs.forM body = .ok () ↔ ∀ x ∈ xs, body x = .ok () := by
  induction xs with
  | nil => exact ⟨fun _ => nofun, fun _ => rfl⟩
  | cons x xs ih =>
    rw [List.forall_mem_cons, ← ih]
    show (body x >>= fun _ => xs.forM body) = .ok () ↔ _
    rw [bind_eq_ok_iff]
    exact ⟨fun ⟨_, hx, hxs⟩ => ⟨hx, hxs⟩, fun ⟨hx, hxs⟩ => ⟨(), hx, hxs⟩⟩

theorem forM_congr {xs : List α} {body body' : α → Printed Unit}
    (h : ∀ x ∈ xs, body x = body' x) : xs.forM body = xs.forM body' := by
  induction xs with
  | nil => rfl
  | cons x xs ih =>
    obtain ⟨hx, hxs⟩ := List.forall_mem_cons.1 h
    show (body x >>= fun _ => xs.forM body) = (body' x >>= fun _ => xs.forM body')
    rw [hx, ih hxs]

/-- A loop in which nothing stops writes the lines of all its rounds. -/
theorem lines_forM_of_ok {xs : List α} {body : α → Printed Unit}
    (h : ∀ x ∈ xs, (body x).outcome = .ok ()) :
    (xs.forM body).lines = xs.flatMap fun x => (body x).lines := by
  induction xs with
  | nil => rfl
  | cons x xs ih =>
    have hx : (body x).outcome = .ok () := h x List.mem_cons_self
    have hxs : ∀ y ∈ xs, (body y).outcome = .ok () := fun y hy => h y (List.mem_cons_of_mem x hy)
    calc (List.forM (x :: xs) body).lines
        = (body x >>= fun _ => xs.forM body).lines := rfl
      _ = (body x).lines ++ (xs.forM body).lines := lines_bind_of_ok hx _
      _ = (x :: xs).flatMap fun x => (body x).lines := by rw [ih hxs, List.flatMap_cons]

end Printed

/-! ### Outlines -/

namespace Expr

variable {options : OutlineOptions} {Γ : Context} {depth : Nat} {e : Expr}

theorem outlineFrom_of_cut (h : options.cutsAt depth = true) :
    e.outlineFrom options Γ depth = Printed.write (.cut depth) := by
  rw [outlineFrom, if_pos h]

theorem outlineFrom_of_not_cut (h : options.cutsAt depth = false) :
    e.outlineFrom options Γ depth = (do
      let verdict ← .ofOutcome (e.shownVerdict options.showTypes Γ)
      Printed.write (.node depth e.head verdict)
      let children ← .ofOutcome (e.children Γ)
      children.forM fun child => do
        Printed.write (.branch depth child.label)
        child.node.outlineFrom options child.scope (depth + 1)) := by
  rw [outlineFrom, h, if_neg Bool.false_ne_true]

/-- Whether the outline of an expression comes to its end is decided by the verdict on
    it, by the scopes of its parts and by the outlines of the parts, in this order. -/
theorem outcome_outlineFrom_of_not_cut (h : options.cutsAt depth = false) :
    (e.outlineFrom options Γ depth).outcome = (do
      let _ ← e.shownVerdict options.showTypes Γ
      let children ← e.children Γ
      children.forM fun child =>
        (child.node.outlineFrom options child.scope (depth + 1)).outcome) := by
  rw [outlineFrom_of_not_cut h, Printed.outcome_bind]
  apply bind_congr
  intro verdict
  rw [Printed.outcome_write_bind, Printed.outcome_bind]
  apply bind_congr
  intro children
  rw [Printed.outcome_forM]
  rfl

theorem outcome_outlineFrom_eq_ok_iff (h : options.cutsAt depth = false) :
    (e.outlineFrom options Γ depth).outcome = .ok () ↔
      ∃ verdict children, e.shownVerdict options.showTypes Γ = .ok verdict ∧
        e.children Γ = .ok children ∧ ∀ child ∈ children,
          (child.node.outlineFrom options child.scope (depth + 1)).outcome = .ok () := by
  rw [outcome_outlineFrom_of_not_cut h]
  simp only [bind_eq_ok_iff, Printed.forM_eq_ok_iff, exists_and_left]

/-- The lines of an outline that comes to its end: the node, then its parts, each under
    its label. -/
theorem lines_outlineFrom (h : options.cutsAt depth = false) {verdict : Option Verdict}
    (hverdict : e.shownVerdict options.showTypes Γ = .ok verdict) {children : List (Child e)}
    (hchildren : e.children Γ = .ok children)
    (hparts : ∀ child ∈ children,
      (child.node.outlineFrom options child.scope (depth + 1)).outcome = .ok ()) :
    (e.outlineFrom options Γ depth).lines =
      .node depth e.head verdict :: children.flatMap fun child =>
        .branch depth child.label ::
          (child.node.outlineFrom options child.scope (depth + 1)).lines := by
  rw [outlineFrom_of_not_cut h, hverdict, hchildren]
  simp only [Printed.ofOutcome_ok, pure_bind, Printed.lines_write_bind]
  rw [Printed.lines_forM_of_ok]
  · rfl
  · exact hparts

end Expr

/-! ### Full outlines -/

/-- All nodes with their verdicts. -/
def OutlineOptions.full : OutlineOptions := { showTypes := true, maxDepth := none }

namespace Expr

/-- What holds of an expression whenever it holds of its parts holds of every
    expression. -/
theorem induction_on_children {P : Expr → Prop}
    (step : ∀ e : Expr, (∀ child : Child e, P child.node) → P e) (e : Expr) : P e :=
  step e fun child => induction_on_children step child.node
termination_by sizeOf e
decreasing_by exact child.smaller

theorem outlineFrom_full (Γ : Context) (depth : Nat) (e : Expr) :
    e.outlineFrom .full Γ depth = (do
      let verdict ← .ofOutcome (e.verdict Γ)
      Printed.write (.node depth e.head (some verdict))
      let children ← .ofOutcome (e.children Γ)
      children.forM fun child => do
        Printed.write (.branch depth child.label)
        child.node.outlineFrom .full child.scope (depth + 1)) := by
  have hshown : e.shownVerdict OutlineOptions.full.showTypes Γ = (e.verdict Γ).map some := rfl
  rw [outlineFrom_of_not_cut rfl, hshown]
  cases e.verdict Γ with
  | ok verdict => rfl
  | error node => rfl

theorem outcome_outlineFrom_full (Γ : Context) (depth : Nat) (e : Expr) :
    (e.outlineFrom .full Γ depth).outcome = (do
      let _ ← e.verdict Γ
      let children ← e.children Γ
      children.forM fun child =>
        (child.node.outlineFrom .full child.scope (depth + 1)).outcome) := by
  have hshown : e.shownVerdict OutlineOptions.full.showTypes Γ = (e.verdict Γ).map some := rfl
  rw [outcome_outlineFrom_of_not_cut rfl, hshown]
  cases e.verdict Γ with
  | ok verdict => rfl
  | error node => rfl

end Expr

end SimplyTyped
