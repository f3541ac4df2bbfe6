import SimplyTyped.Proofs.Sites

/-!
# What a depth limit leaves out

The lines of an outline fall into blocks. The block of a node is its own line and the
lines that follow up to the next one that is not deeper: the labels of its branches and
the blocks of its parts. `cutBlocks` replaces each block of a node at some depth by one
line, and keeps all other lines.

A depth limit does just that. Where the outline without a limit comes to its end, so does
the one with a limit, whatever the limit is, and its lines are those of the outline
without a limit with the blocks at the limit cut. Nothing above the limit changes: the
contexts that are handed down, and so the verdicts, are the same.
-/

namespace SimplyTyped

/-! ### Blocks of lines -/

namespace Line

def isNode (depth : Nat) : Line → Bool
  | node d _ _ => d == depth
  | _ => false

/-- Whether a line belongs to the block of a node at some depth, after the line of the
    node itself. -/
def isBelow (depth : Nat) : Line → Bool
  | node d _ _ => depth < d
  | branch d _ => depth ≤ d
  | cut d => depth < d
  | notice _ => false

/-- Whether a line is about a node at a smaller depth: the line of the node or the label
    of one of its branches. -/
def isAbove (depth : Nat) : Line → Bool
  | node d _ _ => d < depth
  | branch d _ => d < depth
  | _ => false

variable {depth : Nat} {line : Line}

theorem isAbove_of_isNode (h : line.isNode depth = true) : line.isAbove depth = false := by
  cases line with
  | node d head verdict =>
    cases eq_of_beq h
    exact decide_eq_false (Nat.lt_irrefl _)
  | _ => cases h

theorem isAbove_of_isBelow (h : line.isBelow depth = true) : line.isAbove depth = false := by
  cases line with
  | node d head verdict => exact decide_eq_false (Nat.lt_asymm (of_decide_eq_true h))
  | branch d label => exact decide_eq_false (Nat.not_lt_of_le (of_decide_eq_true h))
  | cut d => rfl
  | notice text => rfl

end Line

/-- Replaces the block of every node at the given depth by a cut. -/
def cutBlocks (depth : Nat) : List Line → List Line
  | [] => []
  | line :: rest =>
    if line.isNode depth then .cut depth :: cutBlocks depth (rest.dropWhile (Line.isBelow depth))
    else line :: cutBlocks depth rest
termination_by lines => lines.length
decreasing_by
  · exact Nat.lt_succ_of_le (List.dropWhile_sublist _).length_le
  · exact Nat.lt_succ_self _

/-- No block of a node at the given depth goes on with these lines. -/
def Ends (depth : Nat) (rest : List Line) : Prop :=
  ∀ line ∈ rest.head?, line.isBelow depth = false

section Blocks

variable {depth : Nat} {line : Line} {inner rest : List Line}

theorem Ends.nil (depth : Nat) : Ends depth [] := nofun

theorem Ends.dropWhile_isBelow (h : Ends depth rest) :
    rest.dropWhile (Line.isBelow depth) = rest := by
  cases rest with
  | nil => rfl
  | cons line rest =>
    have hline : line.isBelow depth = false := h line rfl
    exact List.dropWhile_cons_of_neg (by rw [hline]; exact Bool.false_ne_true)

theorem Ends.append {lines : List Line} (h : Ends depth lines) (hrest : Ends depth rest) :
    Ends depth (lines ++ rest) := by
  cases lines with
  | nil => exact hrest
  | cons line lines => exact h

/-- A label above the given depth ends the blocks before it. -/
theorem Ends.flatMap {α : Type} {k : Nat} (hk : k < depth) (xs : List α) (label : α → String)
    (block : α → List Line) : Ends depth (xs.flatMap fun x => .branch k (label x) :: block x) := by
  cases xs with
  | nil => exact .nil depth
  | cons x xs =>
    intro line hline
    cases hline
    exact decide_eq_false (Nat.not_le_of_lt hk)

theorem cutBlocks_cons_of_not_isNode (h : line.isNode depth = false) (rest : List Line) :
    cutBlocks depth (line :: rest) = line :: cutBlocks depth rest := by
  rw [cutBlocks, h, if_neg Bool.false_ne_true]

/-- The block of a node at the given depth, whole, becomes one line. -/
theorem cutBlocks_block (head : Head) (verdict : Option Verdict)
    (hinner : ∀ line ∈ inner, line.isBelow depth = true) (hrest : Ends depth rest) :
    cutBlocks depth (.node depth head verdict :: inner ++ rest) =
      .cut depth :: cutBlocks depth rest := by
  have hnode : (Line.node depth head verdict).isNode depth = true := beq_self_eq_true depth
  rw [List.cons_append, cutBlocks, if_pos hnode, List.dropWhile_append_of_pos hinner,
    hrest.dropWhile_isBelow]

theorem cutBlocks_append (lines : List Line) (hrest : Ends depth rest) :
    cutBlocks depth (lines ++ rest) = cutBlocks depth lines ++ cutBlocks depth rest := by
  fun_induction cutBlocks depth lines with
  | case1 => rfl
  | case2 line lines hline ih =>
    rw [List.cons_append, cutBlocks, if_pos hline, List.cons_append, ← ih, List.dropWhile_append]
    -- The block may go on to the end of the first list, and ends there.
    by_cases hempty : (lines.dropWhile (Line.isBelow depth)).isEmpty
    · rw [if_pos hempty, hrest.dropWhile_isBelow, List.isEmpty_iff.1 hempty, List.nil_append]
    · rw [if_neg hempty]
  | case3 line lines hline ih =>
    rw [List.cons_append, cutBlocks_cons_of_not_isNode (Bool.eq_false_iff.2 hline), ih,
      List.cons_append]

/-- The branches of a node above the given depth are cut one by one. -/
theorem cutBlocks_flatMap {α : Type} {k : Nat} (hk : k < depth) (xs : List α) (label : α → String)
    (block : α → List Line) :
    cutBlocks depth (xs.flatMap fun x => .branch k (label x) :: block x) =
      xs.flatMap fun x => .branch k (label x) :: cutBlocks depth (block x) := by
  induction xs with
  | nil => rw [List.flatMap_nil, List.flatMap_nil, cutBlocks]
  | cons x xs ih =>
    rw [List.flatMap_cons, List.flatMap_cons, List.cons_append, cutBlocks_cons_of_not_isNode rfl,
      cutBlocks_append _ (.flatMap hk xs label block), ih, List.cons_append]

/-- Cutting blocks takes nothing away that is about a node above them. -/
theorem filter_isAbove_cutBlocks (depth : Nat) (lines : List Line) :
    (cutBlocks depth lines).filter (Line.isAbove depth) = lines.filter (Line.isAbove depth) := by
  fun_induction cutBlocks depth lines with
  | case1 => rfl
  | case2 line lines hline ih =>
    have htaken : (lines.takeWhile (Line.isBelow depth)).filter (Line.isAbove depth) = [] := by
      rw [List.filter_eq_nil_iff]
      intro l hl
      have hbelow := List.all_eq_true.1 List.all_takeWhile l hl
      rw [Line.isAbove_of_isBelow hbelow]
      exact Bool.false_ne_true
    calc (.cut depth :: cutBlocks depth (lines.dropWhile (Line.isBelow depth))).filter
          (Line.isAbove depth)
        = (lines.dropWhile (Line.isBelow depth)).filter (Line.isAbove depth) := ih
      _ = (lines.takeWhile (Line.isBelow depth) ++ lines.dropWhile (Line.isBelow depth)).filter
          (Line.isAbove depth) := by rw [List.filter_append, htaken, List.nil_append]
      _ = lines.filter (Line.isAbove depth) := by rw [List.takeWhile_append_dropWhile]
      _ = (line :: lines).filter (Line.isAbove depth) := by
        rw [List.filter_cons_of_neg]
        rw [Line.isAbove_of_isNode hline]
        exact Bool.false_ne_true
  | case3 line lines hline ih => rw [List.filter_cons, List.filter_cons, ih]

end Blocks

/-! ### Outlines with a limit -/

namespace Expr

variable {shown : Bool} {limit : Int} {Γ : Context} {depth : Nat} {e : Expr}

theorem isBelow_of_mem_lines (hdone : (e.outlineFrom ⟨shown, none⟩ Γ depth).outcome = .ok ())
    {k : Nat} (hk : k < depth) {line : Line}
    (hline : line ∈ (e.outlineFrom ⟨shown, none⟩ Γ depth).lines) : line.isBelow k = true := by
  induction e using induction_on_children generalizing Γ depth with
  | step e ih =>
    obtain ⟨verdict, children, hverdict, hchildren, hparts⟩ :=
      (outcome_outlineFrom_eq_ok_iff rfl).1 hdone
    rw [lines_outlineFrom rfl hverdict hchildren hparts, List.mem_cons] at hline
    rcases hline with rfl | hline
    · exact decide_eq_true hk
    · obtain ⟨child, hmem, hline⟩ := List.mem_flatMap.1 hline
      rcases List.mem_cons.1 hline with rfl | hline
      · exact decide_eq_true (Nat.le_of_lt hk)
      · exact ih child (hparts child hmem) (Nat.lt_succ_of_lt hk) hline

/-- What is printed for a node and for all below it is one block. -/
theorem lines_eq_block (hdone : (e.outlineFrom ⟨shown, none⟩ Γ depth).outcome = .ok ()) :
    ∃ verdict inner,
      (e.outlineFrom ⟨shown, none⟩ Γ depth).lines = .node depth e.head verdict :: inner ∧
        ∀ line ∈ inner, line.isBelow depth = true := by
  obtain ⟨verdict, children, hverdict, hchildren, hparts⟩ :=
    (outcome_outlineFrom_eq_ok_iff rfl).1 hdone
  refine ⟨verdict, _, lines_outlineFrom rfl hverdict hchildren hparts, ?_⟩
  intro line hline
  obtain ⟨child, hmem, hline⟩ := List.mem_flatMap.1 hline
  rcases List.mem_cons.1 hline with rfl | hline
  · exact decide_eq_true (Nat.le_refl depth)
  · exact isBelow_of_mem_lines (hparts child hmem) (Nat.lt_succ_self depth) hline

/-- Above the limit no node is left out, and at the limit every node. -/
theorem cutsAt_eq (shown : Bool) (h : depth ≤ limit.toNat) :
    OutlineOptions.cutsAt ⟨shown, some limit⟩ depth = decide (depth = limit.toNat) := by
  have hiff : limit ≤ depth ↔ depth = limit.toNat := by omega
  exact decide_eq_decide.2 hiff

/-- **One node after the other.** A node at the limit has its block cut, and a node above
    it keeps its line and the labels of its branches, in which the cuts go on. -/
theorem outlineFrom_limit (hdone : (e.outlineFrom ⟨shown, none⟩ Γ depth).outcome = .ok ())
    (hdepth : depth ≤ limit.toNat) :
    (e.outlineFrom ⟨shown, some limit⟩ Γ depth).outcome = .ok () ∧
      (e.outlineFrom ⟨shown, some limit⟩ Γ depth).lines =
        cutBlocks limit.toNat (e.outlineFrom ⟨shown, none⟩ Γ depth).lines := by
  induction e using induction_on_children generalizing Γ depth with
  | step e ih =>
    have hcut := cutsAt_eq shown hdepth
    rcases Nat.eq_or_lt_of_le hdepth with heq | hlt
    · -- All that is printed is the block of this one node.
      rw [decide_eq_true heq] at hcut
      obtain ⟨verdict, inner, hlines, hinner⟩ := lines_eq_block hdone
      have hblock := cutBlocks_block e.head verdict hinner (.nil depth)
      rw [List.append_nil, cutBlocks] at hblock
      rw [outlineFrom_of_cut hcut, hlines, ← heq]
      exact ⟨rfl, hblock.symm⟩
    · obtain ⟨verdict, children, hverdict, hchildren, hparts⟩ :=
        (outcome_outlineFrom_eq_ok_iff rfl).1 hdone
      have hne : depth ≠ limit.toNat := Nat.ne_of_lt hlt
      rw [decide_eq_false hne] at hcut
      have hlimited := fun child hmem => ih child (hparts child hmem) hlt
      have hdone' := fun child hmem => (hlimited child hmem).1
      have hkeep : (Line.node depth e.head verdict).isNode limit.toNat = false :=
        beq_eq_false_iff_ne.2 hne
      refine ⟨(outcome_outlineFrom_eq_ok_iff hcut).2
        ⟨verdict, children, hverdict, hchildren, hdone'⟩, ?_⟩
      rw [lines_outlineFrom rfl hverdict hchildren hparts,
        lines_outlineFrom hcut hverdict hchildren hdone', cutBlocks_cons_of_not_isNode hkeep,
        cutBlocks_flatMap hlt, List.flatMap_def, List.flatMap_def]
      congr 2
      apply List.map_congr_left
      intro child hmem
      rw [(hlimited child hmem).2]

/-! ### Limits beyond all nodes -/

/-- The depth of the deepest node, where the root has depth zero. -/
def height : Expr → Nat
  | letIn _ value body => max value.height body.height + 1
  | binary _ left right => max left.height right.height + 1
  | cond condition thenBranch elseBranch =>
    max condition.height (max thenBranch.height elseBranch.height) + 1
  | lam _ _ body => body.height + 1
  | app function argument => max function.height argument.height + 1
  | letRec _ _ _ _ definition body => max definition.height body.height + 1
  | num _ => 0
  | bool _ => 0
  | var _ => 0
  | foreign _ => 0

theorem height_lt_of_mem_children {children : List (Child e)}
    (hchildren : e.children Γ = .ok children) {child : Child e} (hmem : child ∈ children) :
    child.node.height < e.height := by
  cases e with
  | num _ | bool _ | var _ | foreign _ =>
    cases hchildren
    cases hmem
  | letIn x value body =>
    obtain ⟨Δ, _, hΔ⟩ := bind_eq_ok_iff.1 hchildren
    cases hΔ
    simp only [List.mem_cons, List.not_mem_nil, or_false] at hmem
    rcases hmem with rfl | rfl <;> simp only [height] <;> omega
  | binary _ _ _ | app _ _ | letRec _ _ _ _ _ _ =>
    cases hchildren
    simp only [List.mem_cons, List.not_mem_nil, or_false] at hmem
    rcases hmem with rfl | rfl <;> simp only [height] <;> omega
  | cond condition thenBranch elseBranch =>
    cases hchildren
    simp only [List.mem_cons, List.not_mem_nil, or_false] at hmem
    rcases hmem with rfl | rfl | rfl <;> simp only [height] <;> omega
  | lam x paramType body =>
    cases hchildren
    cases List.mem_singleton.1 hmem
    exact Nat.lt_succ_self _

/-- A limit beyond all nodes is no limit, whether the outline comes to its end or not. -/
theorem outlineFrom_of_height_lt (h : (depth + e.height : Nat) < limit) :
    e.outlineFrom ⟨shown, some limit⟩ Γ depth = e.outlineFrom ⟨shown, none⟩ Γ depth := by
  induction e using induction_on_children generalizing Γ depth with
  | step e ih =>
    have hcut : OutlineOptions.cutsAt ⟨shown, some limit⟩ depth = false :=
      decide_eq_false (by omega)
    rw [outlineFrom_of_not_cut hcut, outlineFrom_of_not_cut rfl]
    apply bind_congr
    intro verdict
    apply bind_congr
    intro _
    cases hchildren : e.children Γ with
    | error u => rfl
    | ok children =>
      apply Printed.forM_congr
      intro child hmem
      have hheight := height_lt_of_mem_children hchildren hmem
      rw [ih child (by omega)]

/-! ### The block of every node at the limit -/

/-- The outline shows the block of every site in one piece. -/
theorem exists_block (hdone : (e.outlineFrom ⟨shown, none⟩ Γ depth).outcome = .ok ())
    {path : List Nat} {s : Site} (hs : (Site.mk Γ e).follow? path = some s) :
    (s.node.outlineFrom ⟨shown, none⟩ s.scope (depth + path.length)).outcome = .ok () ∧
      ∃ before after,
        (e.outlineFrom ⟨shown, none⟩ Γ depth).lines =
          before ++ (s.node.outlineFrom ⟨shown, none⟩ s.scope (depth + path.length)).lines
            ++ after ∧
        Ends (depth + path.length) after := by
  induction path generalizing Γ e depth with
  | nil =>
    cases hs
    exact ⟨hdone, [], [], by simp, .nil depth⟩
  | cons i path ih =>
    obtain ⟨verdict, children, hverdict, hchildren, hparts⟩ :=
      (outcome_outlineFrom_eq_ok_iff rfl).1 hdone
    obtain ⟨part, hpart, hrest⟩ := Option.bind_eq_some_iff.1 hs
    rw [Site.parts_eq_of_children hchildren, List.getElem?_map] at hpart
    obtain ⟨child, hchild, rfl⟩ := Option.map_eq_some_iff.1 hpart
    have hmem : child ∈ children := List.mem_of_getElem? hchild
    have hlength : depth + (i :: path).length = depth + 1 + path.length := by
      rw [List.length_cons]
      omega
    obtain ⟨hblock, before, after, hlines, hafter⟩ := ih (hparts child hmem) hrest
    obtain ⟨left, right, hsplit⟩ := List.append_of_mem hmem
    rw [hlength]
    let branches : List (Child e) → List Line := fun children => children.flatMap fun child =>
      .branch depth child.label ::
        (child.node.outlineFrom ⟨shown, none⟩ child.scope (depth + 1)).lines
    refine ⟨hblock,
      .node depth e.head verdict :: branches left ++ .branch depth child.label :: before,
      after ++ branches right, ?_, hafter.append (.flatMap (by omega) _ _ _)⟩
    rw [lines_outlineFrom rfl hverdict hchildren hparts, hsplit, List.flatMap_append,
      List.flatMap_cons, hlines]
    simp [branches]

/-- At the limit, the block of a site is replaced by a cut where it stands. -/
theorem exists_cut (hdone : (e.outline ⟨shown, none⟩ Γ).outcome = .ok ()) {path : List Nat}
    {s : Site} (hs : (Site.mk Γ e).follow? path = some s) :
    ∃ before after, (e.outline ⟨shown, none⟩ Γ).lines =
        before ++ (s.node.outlineFrom ⟨shown, none⟩ s.scope path.length).lines ++ after ∧
      cutBlocks path.length (e.outline ⟨shown, none⟩ Γ).lines =
        cutBlocks path.length before ++ .cut path.length :: cutBlocks path.length after := by
  obtain ⟨hblock, before, after, hlines, hafter⟩ := exists_block hdone hs
  rw [Nat.zero_add] at hblock hlines hafter
  obtain ⟨verdict, inner, hblock_lines, hinner⟩ := lines_eq_block hblock
  have hends : Ends path.length (.node path.length s.node.head verdict :: inner ++ after) := by
    intro line hline
    cases hline
    exact decide_eq_false (Nat.lt_irrefl _)
  refine ⟨before, after, hlines, ?_⟩
  rw [outline, hlines, hblock_lines, List.append_assoc, cutBlocks_append before hends,
    cutBlocks_block _ _ hinner hafter]

/-- **A depth limit only cuts.** Where the outline without a limit comes to its end, so
    does the outline with a limit of any sign and size. Its lines are those without the
    limit, with the block of every node at the limit (of the root, if the limit is not
    positive) replaced by one line, which is indented like the node. Lines about nodes
    above the limit stay as they are, and a limit beyond all nodes changes nothing. -/
theorem outline_limit (shown : Bool) (limit : Int) (Γ : Context) (e : Expr)
    (hdone : (e.outline ⟨shown, none⟩ Γ).outcome = .ok ()) :
    let full := e.outline ⟨shown, none⟩ Γ
    let limited := e.outline ⟨shown, some limit⟩ Γ
    let depth := limit.toNat
    limited.outcome = .ok () ∧
    limited.lines = cutBlocks depth full.lines ∧
    (∀ path s, path.length = depth → (Site.mk Γ e).follow? path = some s →
      ∃ before after,
        full.lines = before ++ (s.node.outlineFrom ⟨shown, none⟩ s.scope depth).lines ++ after ∧
        limited.lines = cutBlocks depth before ++ .cut depth :: cutBlocks depth after) ∧
    (Line.cut depth).pieces =
      [⟨.dim, String.ofList (List.replicate (4 * depth) ' ') ++ "..."⟩] ∧
    limited.lines.filter (Line.isAbove depth) = full.lines.filter (Line.isAbove depth) ∧
    (e.height < limit → limited.lines = full.lines) := by
  intro full limited depth
  obtain ⟨houtcome, hlines⟩ := outlineFrom_limit hdone (Nat.zero_le depth)
  refine ⟨houtcome, hlines, ?_, rfl, ?_, ?_⟩
  · intro path s hlength hs
    obtain ⟨before, after, hfull, hcut⟩ := exists_cut hdone hs
    rw [hlength] at hfull hcut
    exact ⟨before, after, hfull, hlines.trans hcut⟩
  · show (e.outlineFrom ⟨shown, some limit⟩ Γ 0).lines.filter (Line.isAbove depth) = _
    rw [hlines]
    exact filter_isAbove_cutBlocks depth full.lines
  · intro hheight
    have hsame : limited = full := outlineFrom_of_height_lt (by omega)
    rw [hsame]

/-- A binding whose body is a call, with a limit at its parts, with a negative limit, and
    with one beyond the parts of the call. -/
theorem outline_limit_letIn :
    let Γ : Context := .ofList [("f", .arrow .number .boolean)]
    let e : Expr := .letIn "x" (.num (.int 1)) (.app (.var "f") (.var "x"))
    (e.outline ⟨true, none⟩ Γ).outcome = .ok () ∧
      (e.outline ⟨true, some 1⟩ Γ).lines =
        [.node 0 ⟨"Let", "(x)", .control⟩ (some (.typed .boolean)), .branch 0 "value", .cut 1,
          .branch 0 "body", .cut 1] ∧
      (e.outline ⟨true, some (-3)⟩ Γ).lines = [.cut 0] ∧
      (e.outline ⟨true, some 3⟩ Γ).lines = (e.outline ⟨true, none⟩ Γ).lines := by
  intro Γ e
  have hdone : (e.outline ⟨true, none⟩ Γ).outcome = .ok () := by with_unfolding_all rfl
  obtain ⟨_, hone, _⟩ := outline_limit true 1 Γ e hdone
  obtain ⟨_, hnegative, _⟩ := outline_limit true (-3) Γ e hdone
  obtain ⟨_, _, _, _, _, hbeyond⟩ := outline_limit true 3 Γ e hdone
  refine ⟨hdone, hone.trans ?_, hnegative.trans ?_, hbeyond (by decide)⟩
  · decide +kernel
  · decide +kernel

end Expr

end SimplyTyped
