import Mathlib.Data.List.Forall2
import SimplyTyped.Proofs.PrintingSteps

/-!
# Verdicts are added to a skeleton

The skeleton of an expression is the plan of its outline, made from the expression and the
depth limit alone, with no context and no inference. It says how each line is written, in
texts of its own: the indentation, the kind of node and what stands in brackets after it,
the names of the branches.

The outline infers types while it prints, for its verdicts and for the contexts that it
hands down, and inference may meet an unknown node, at which the outline stops. All the
same it prints the lines of the skeleton: all of them, if it comes to its end, and
otherwise some first ones, but never all. A line of a node gets exactly one more piece, at
its end, where verdicts are shown, and every other line is printed as it is planned.
-/

namespace SimplyTyped

/-! ### Skeletons -/

/-- A line of the plan. -/
inductive SkeletonLine where
  /-- An expression at some depth, by the node at its root. -/
  | node (depth : Nat) (e : Expr)
  /-- The name of a branch of a node at some depth. -/
  | label (depth : Nat) (text : String)
  /-- A node at some depth that is left out. -/
  | cut (depth : Nat)
  deriving DecidableEq, Repr

namespace SkeletonLine

/-- How a node is announced: its kind, in the style of that kind, and its detail. -/
structure Title where
  style : Display.Style
  kind : String
  detail : String
  deriving DecidableEq, Repr

def title : Expr → Title
  | .num value => ⟨.cyan, "Num", "(" ++ value.text ++ ")"⟩
  | .bool true => ⟨.cyan, "Bool", "(true)"⟩
  | .bool false => ⟨.cyan, "Bool", "(false)"⟩
  | .var name => ⟨.green, "Var", "(" ++ name ++ ")"⟩
  | .letIn name _ _ => ⟨.magenta, "Let", "(" ++ name ++ ")"⟩
  | .binary .plus _ _ => ⟨.yellow, "Plus", ""⟩
  | .binary .or _ _ => ⟨.yellow, "Or", ""⟩
  | .binary .eq _ _ => ⟨.yellow, "Eq", ""⟩
  | .cond _ _ _ => ⟨.magenta, "If", ""⟩
  | .lam param paramType _ =>
    ⟨.brightBlue, "Fun", "(" ++ param ++ " : " ++ paramType.text ++ ")"⟩
  | .app _ _ => ⟨.brightBlue, "Call", ""⟩
  | .letRec name param paramType returnType _ _ =>
    ⟨.brightBlue, "LetFun",
      "(" ++ name ++ "(" ++ param ++ " : " ++ paramType.text ++ "): " ++ returnType.text ++ ")"⟩
  | .foreign kind => ⟨.white, kind, ""⟩

/-- Four spaces for each level of depth. -/
def indentation (depth : Nat) : String := String.ofList (List.replicate (4 * depth) ' ')

/-- The planned text of a line. A branch is named two columns to the right of its node. -/
def pieces : SkeletonLine → List Display.Piece
  | node depth e =>
    [⟨.dim, indentation depth⟩, ⟨(title e).style, (title e).kind⟩,
      ⟨.brightWhite, (title e).detail⟩]
  | label depth text => [⟨.dim, indentation depth ++ "  " ++ text ++ ":"⟩]
  | cut depth => [⟨.dim, indentation depth ++ "..."⟩]

end SkeletonLine

/-- What may be printed for a planned line. Where types are shown, a node has one piece more
    than planned, with a type or with the mark of an error. Everything else is printed as
    it is planned. -/
inductive PrintedAs : Bool → SkeletonLine → List Display.Piece → Prop where
  | bare (depth : Nat) (e : Expr) :
    PrintedAs false (.node depth e) (SkeletonLine.node depth e).pieces
  | typed (depth : Nat) (e : Expr) (t : Ty) :
    PrintedAs true (.node depth e)
      ((SkeletonLine.node depth e).pieces ++ [⟨.dimRed, " :: " ++ t.text⟩])
  | illTyped (depth : Nat) (e : Expr) :
    PrintedAs true (.node depth e)
      ((SkeletonLine.node depth e).pieces ++ [⟨.dimRed, " :: <error>"⟩])
  | label (shown : Bool) (depth : Nat) (text : String) :
    PrintedAs shown (.label depth text) (SkeletonLine.label depth text).pieces
  | cut (shown : Bool) (depth : Nat) :
    PrintedAs shown (.cut depth) (SkeletonLine.cut depth).pieces

namespace Expr

/-- The skeleton of an expression that stands at the given depth. -/
def skeletonFrom (limit : Option Int) (depth : Nat) (e : Expr) : List SkeletonLine :=
  if limit.any (· ≤ (depth : Int)) then [.cut depth]
  else .node depth e :: match e with
    | letIn _ value body =>
      .label depth "value" :: value.skeletonFrom limit (depth + 1)
        ++ .label depth "body" :: body.skeletonFrom limit (depth + 1)
    | binary _ left right =>
      .label depth "left" :: left.skeletonFrom limit (depth + 1)
        ++ .label depth "right" :: right.skeletonFrom limit (depth + 1)
    | cond condition thenBranch elseBranch =>
      .label depth "condition" :: condition.skeletonFrom limit (depth + 1)
        ++ .label depth "then" :: thenBranch.skeletonFrom limit (depth + 1)
        ++ .label depth "else" :: elseBranch.skeletonFrom limit (depth + 1)
    | lam _ _ body => .label depth "body" :: body.skeletonFrom limit (depth + 1)
    | app function argument =>
      .label depth "function" :: function.skeletonFrom limit (depth + 1)
        ++ .label depth "argument" :: argument.skeletonFrom limit (depth + 1)
    | letRec _ _ _ _ definition body =>
      .label depth "function_body" :: definition.skeletonFrom limit (depth + 1)
        ++ .label depth "body" :: body.skeletonFrom limit (depth + 1)
    | num _ => []
    | bool _ => []
    | var _ => []
    | foreign _ => []

/-- The tree of an expression, cut at the limit if there is one. -/
def skeleton (limit : Option Int) (e : Expr) : List SkeletonLine := e.skeletonFrom limit 0

variable {options : OutlineOptions} {Γ : Context} {depth : Nat} {e : Expr}

theorem cutsAt_eq_any (options : OutlineOptions) (depth : Nat) :
    options.cutsAt depth = options.maxDepth.any (· ≤ (depth : Int)) := by
  unfold OutlineOptions.cutsAt
  cases options.maxDepth <;> rfl

theorem skeletonFrom_of_cut (h : options.cutsAt depth = true) :
    e.skeletonFrom options.maxDepth depth = [.cut depth] := by
  rw [cutsAt_eq_any] at h
  cases e <;> rw [skeletonFrom, if_pos h]

/-- The skeleton has the branches that the outline lists, whatever the context is. -/
theorem skeletonFrom_of_children (h : options.cutsAt depth = false) {children : List (Child e)}
    (hchildren : e.children Γ = .ok children) :
    e.skeletonFrom options.maxDepth depth =
      .node depth e :: children.flatMap fun child =>
        .label depth child.label :: child.node.skeletonFrom options.maxDepth (depth + 1) := by
  rw [cutsAt_eq_any] at h
  cases e with
  | letIn x value body =>
    obtain ⟨Δ, _, hΔ⟩ := bind_eq_ok_iff.1 hchildren
    cases hΔ
    rw [skeletonFrom, h]
    simp
  | _ =>
    cases hchildren
    rw [skeletonFrom, h]
    simp

/-- Only a binding can be left without its parts, and its skeleton goes on with them. -/
theorem skeletonFrom_of_children_error (h : options.cutsAt depth = false) {u : UnknownNode}
    (hchildren : e.children Γ = .error u) :
    ∃ line rest, e.skeletonFrom options.maxDepth depth = .node depth e :: line :: rest := by
  rw [cutsAt_eq_any] at h
  cases e with
  | letIn x value body =>
    rw [skeletonFrom, h]
    exact ⟨_, _, rfl⟩
  | _ => cases hchildren

end Expr

/-! ### Printed lines and planned lines -/

/-- The outline announces a node as the plan does. -/
theorem SkeletonLine.title_eq (e : Expr) : title e = ⟨e.role.style, e.kind, e.detail⟩ := by
  cases e with
  | bool value => cases value <;> rfl
  | binary op left right => cases op <;> rfl
  | lam param paramType body =>
    simp [title, Expr.role, Role.style, Expr.kind, Expr.detail, Expr.parameterText,
      String.append_assoc]
  | letRec name param paramType returnType definition body =>
    simp [title, Expr.role, Role.style, Expr.kind, Expr.detail, Expr.signatureText,
      Expr.parameterText, String.append_assoc]
  | _ => rfl

/-- The line of a node is the planned one, and a verdict is one more piece. -/
theorem Line.pieces_node (depth : Nat) (e : Expr) (verdict : Option Verdict) :
    (Line.node depth e.head verdict).pieces =
      (SkeletonLine.node depth e).pieces ++ (verdict.map fun v => ⟨.dimRed, v.text⟩).toList := by
  rw [SkeletonLine.pieces, SkeletonLine.title_eq]
  rfl

namespace PrintedAs

theorem of_shownVerdict {shown : Bool} {Γ : Context} {e : Expr} {verdict : Option Verdict}
    (h : e.shownVerdict shown Γ = .ok verdict) (depth : Nat) :
    PrintedAs shown (.node depth e) (Line.node depth e.head verdict).pieces := by
  rw [Line.pieces_node]
  cases shown with
  | false =>
    cases h
    exact .bare depth e
  | true =>
    cases hverdict : e.verdict Γ with
    | error u => simp [Expr.shownVerdict, hverdict, Except.map] at h
    | ok v =>
      obtain rfl : some v = verdict := by
        simpa [Expr.shownVerdict, hverdict, Except.map] using h
      cases v with
      | typed t => exact .typed depth e t
      | illTyped => exact .illTyped depth e

theorem branch (shown : Bool) (depth : Nat) (text : String) :
    PrintedAs shown (.label depth text) (Line.branch depth text).pieces := .label shown depth text

/-- Where no types are shown the printed lines are the planned ones. -/
theorem eq_map_pieces {plan : List SkeletonLine} {printed : List (List Display.Piece)}
    (h : List.Forall₂ (PrintedAs false) plan printed) :
    printed = plan.map SkeletonLine.pieces := by
  induction h with
  | nil => rfl
  | cons hline _ ih =>
    rw [List.map_cons, ← ih]
    cases hline <;> rfl

end PrintedAs

/-! ### Runs that follow a plan -/

/-- What a run prints follows a plan: all of it if the run comes to its end, and if the run
    stops, a first part with something missing. -/
def Follows {α : Type} (shown : Bool) (plan : List SkeletonLine) (run : Printed α) : Prop :=
  match run.outcome with
  | .ok _ => List.Forall₂ (PrintedAs shown) plan (run.lines.map Line.pieces)
  | .error _ => ∃ first rest, plan = first ++ rest ∧ rest ≠ [] ∧
      List.Forall₂ (PrintedAs shown) first (run.lines.map Line.pieces)

namespace Follows

variable {α β : Type} {shown : Bool} {plan plan' : List SkeletonLine}

theorem all_of_ok {run : Printed α} (h : Follows shown plan run) {a : α}
    (hrun : run.outcome = .ok a) :
    List.Forall₂ (PrintedAs shown) plan (run.lines.map Line.pieces) := by
  unfold Follows at h
  rw [hrun] at h
  exact h

theorem part_of_error {run : Printed α} (h : Follows shown plan run) {u : UnknownNode}
    (hrun : run.outcome = .error u) :
    ∃ first rest, plan = first ++ rest ∧ rest ≠ [] ∧
      List.Forall₂ (PrintedAs shown) first (run.lines.map Line.pieces) := by
  unfold Follows at h
  rw [hrun] at h
  exact h

theorem write {line : Line} {planned : SkeletonLine} (h : PrintedAs shown planned line.pieces) :
    Follows shown [planned] (Printed.write line) := .cons h .nil

theorem bind {run : Printed α} {next : α → Printed β} (h : Follows shown plan run)
    (hnext : ∀ a, Follows shown plan' (next a)) :
    Follows shown (plan ++ plan') (run >>= next) := by
  obtain ⟨lines, outcome⟩ := run
  cases outcome with
  | error u =>
    obtain ⟨first, rest, hplan, hrest, hfirst⟩ := h
    refine ⟨first, rest ++ plan', ?_, by simp [hrest], hfirst⟩
    rw [hplan, List.append_assoc]
  | ok a =>
    have hlines := h.all_of_ok rfl
    unfold Follows
    rw [Printed.bind_ok]
    dsimp only
    rw [List.map_append]
    cases houtcome : (next a).outcome with
    | error u =>
      obtain ⟨first, rest, hplan', hrest, hfirst⟩ := (hnext a).part_of_error houtcome
      refine ⟨plan ++ first, rest, ?_, hrest, List.rel_append hlines hfirst⟩
      rw [hplan', List.append_assoc]
    | ok b => exact List.rel_append hlines ((hnext a).all_of_ok houtcome)

/-- A question without an answer leaves all of the plan undone. -/
theorem ofOutcome_bind {x : Except UnknownNode α} {next : α → Printed β}
    (herror : ∀ u, x = .error u → plan ≠ [])
    (hok : ∀ a, x = .ok a → Follows shown plan (next a)) :
    Follows shown plan (Printed.ofOutcome x >>= next) := by
  cases x with
  | error u => exact ⟨[], plan, rfl, herror u rfl, .nil⟩
  | ok a => exact hok a rfl

theorem forM {xs : List α} {plan : α → List SkeletonLine} {body : α → Printed Unit}
    (h : ∀ x ∈ xs, Follows shown (plan x) (body x)) :
    Follows shown (xs.flatMap plan) (xs.forM body) := by
  induction xs with
  | nil => exact .nil
  | cons x xs ih =>
    obtain ⟨hx, hxs⟩ := List.forall_mem_cons.1 h
    rw [List.flatMap_cons]
    exact hx.bind fun _ => ih hxs

end Follows

/-! ### Outlines follow the skeleton -/

namespace Expr

/-- **The outline of a part follows the skeleton of the part.** -/
theorem follows_outlineFrom (options : OutlineOptions) (Γ : Context) (depth : Nat) (e : Expr) :
    Follows options.showTypes (e.skeletonFrom options.maxDepth depth)
      (e.outlineFrom options Γ depth) := by
  induction e using induction_on_children generalizing Γ depth with
  | step e ih =>
    cases hdepth : options.cutsAt depth with
    | true =>
      rw [outlineFrom_of_cut hdepth, skeletonFrom_of_cut hdepth]
      exact .write (.cut options.showTypes depth)
    | false =>
      rw [outlineFrom_of_not_cut hdepth]
      cases hchildren : e.children Γ with
      | error u =>
        -- The line of the binding is written, and the outline stops before its parts.
        obtain ⟨line, rest, hplan⟩ := skeletonFrom_of_children_error hdepth hchildren
        rw [hplan]
        apply Follows.ofOutcome_bind
        · exact fun _ _ => List.cons_ne_nil _ _
        · intro verdict hverdict
          exact ⟨[.node depth e], line :: rest, rfl, List.cons_ne_nil _ _,
            .cons (.of_shownVerdict hverdict depth) .nil⟩
      | ok children =>
        rw [skeletonFrom_of_children hdepth hchildren]
        apply Follows.ofOutcome_bind
        · exact fun _ _ => List.cons_ne_nil _ _
        · intro verdict hverdict
          apply (Follows.write (.of_shownVerdict hverdict depth)).bind
          intro _
          apply Follows.forM
          intro child _
          apply (Follows.write (.branch options.showTypes depth child.label)).bind
          intro _
          exact ih child child.scope (depth + 1)

/-- **Verdicts are only added.** If an outline comes to its end, it prints the lines of the
    skeleton one by one, with exactly one piece added to each node where verdicts are
    shown and nothing where they are not. If it stops, it has printed a first part of the
    skeleton in the same way, and not the whole. So an outline without verdicts that comes to
    its end is the text of the skeleton, in whatever context it was printed. -/
theorem outline_adds_verdicts_only (options : OutlineOptions) (Γ : Context) (e : Expr) :
    let run := e.outline options Γ
    let printed := run.lines.map Line.pieces
    let skeleton := e.skeleton options.maxDepth
    (run.outcome = .ok () → List.Forall₂ (PrintedAs options.showTypes) skeleton printed) ∧
    (∀ u, run.outcome = .error u →
      ∃ first rest, skeleton = first ++ rest ∧ rest ≠ [] ∧
        List.Forall₂ (PrintedAs options.showTypes) first printed) ∧
    (options.showTypes = false → run.outcome = .ok () →
      printed = skeleton.map SkeletonLine.pieces ∧
        ∀ Δ, (e.outline options Δ).outcome = .ok () →
          (e.outline options Δ).lines.map Line.pieces = printed) := by
  intro run printed skeleton
  have hfollows := follows_outlineFrom options Γ 0 e
  refine ⟨fun hdone => hfollows.all_of_ok hdone, fun u hstop => hfollows.part_of_error hstop, ?_⟩
  intro hhidden hdone
  have hplain : ∀ Δ, (e.outline options Δ).outcome = .ok () →
      (e.outline options Δ).lines.map Line.pieces = skeleton.map SkeletonLine.pieces := by
    intro Δ hdone
    have hall := (follows_outlineFrom options Δ 0 e).all_of_ok hdone
    rw [hhidden] at hall
    exact PrintedAs.eq_map_pieces hall
  refine ⟨hplain Γ hdone, fun Δ hdone' => ?_⟩
  rw [hplain Δ hdone', ← hplain Γ hdone]

/-- A binding whose value has an unknown node. Where inference does not come to that node,
    the outline comes to its end, with the verdict on the binding or without verdicts. Where
    inference does, the outline stops before the parts of the binding. -/
theorem outline_adds_verdicts_only_letIn :
    let e : Expr := .letIn "x" (.binary .plus (.var "y") (.foreign "Hole")) (.var "x")
    let Γ : Context := .ofList [("y", .boolean)]
    let Δ : Context := .ofList [("y", .number)]
    ((e.outline ⟨true, some 1⟩ Γ).outcome = .ok () ∧
      List.Forall₂ (PrintedAs true) (e.skeleton (some 1))
        ((e.outline ⟨true, some 1⟩ Γ).lines.map Line.pieces)) ∧
    ((e.outline ⟨false, none⟩ Δ).outcome = .error ⟨"Hole"⟩ ∧
      ∃ first rest, e.skeleton none = first ++ rest ∧ rest ≠ [] ∧
        List.Forall₂ (PrintedAs false) first
          ((e.outline ⟨false, none⟩ Δ).lines.map Line.pieces)) ∧
    ((e.outline ⟨false, none⟩ Γ).outcome = .ok () ∧
      (e.outline ⟨false, none⟩ .empty).outcome = .ok () ∧
      (e.outline ⟨false, none⟩ Γ).lines.map Line.pieces =
        (e.skeleton none).map SkeletonLine.pieces ∧
      (e.outline ⟨false, none⟩ .empty).lines.map Line.pieces =
        (e.outline ⟨false, none⟩ Γ).lines.map Line.pieces) := by
  intro e Γ Δ
  have hlimited : (e.outline ⟨true, some 1⟩ Γ).outcome = .ok () := by with_unfolding_all rfl
  have hstop : (e.outline ⟨false, none⟩ Δ).outcome = .error ⟨"Hole"⟩ := by with_unfolding_all rfl
  have hdone : (e.outline ⟨false, none⟩ Γ).outcome = .ok () := by with_unfolding_all rfl
  have hdone' : (e.outline ⟨false, none⟩ .empty).outcome = .ok () := by with_unfolding_all rfl
  obtain ⟨hall, _, _⟩ := outline_adds_verdicts_only ⟨true, some 1⟩ Γ e
  obtain ⟨_, hpart, _⟩ := outline_adds_verdicts_only ⟨false, none⟩ Δ e
  obtain ⟨_, _, hsame⟩ := outline_adds_verdicts_only ⟨false, none⟩ Γ e
  obtain ⟨hplain, hsame⟩ := hsame rfl hdone
  exact ⟨⟨hlimited, hall hlimited⟩, ⟨hstop, hpart _ hstop⟩,
    hdone, hdone', hplain, hsame .empty hdone'⟩

end Expr

end SimplyTyped
