import SimplyTyped.Proofs.Sites
import SimplyTyped.Proofs.TypeNotation
import SimplyTyped.Report

/-!
# What an outline says about types

The lines of a full outline are a tree: the lines of a node at some depth are its own
line and, under a label of that depth for each branch, the lines of its parts. So a
path of part numbers can be followed in the printed lines alone (`nodeAt?`), and what
is found there is the line of the site at that path. Its annotation is a type or an
error, and the text tells which one.

The main result says that annotations follow the typing rules: the annotation of a node
is what the rule of the node makes of the annotations of its parts. So an error goes
up to the root, and an expression passes the check exactly when its outline is free of
errors.
-/

namespace SimplyTyped

/-! ### The text of a verdict -/

namespace Verdict

/-- A node with a type is annotated with it, any other as ill-typed. -/
def ofType? : Option Ty → Verdict
  | some t => typed t
  | none => illTyped

theorem text_typed_inj {s t : Ty} (h : (typed s).text = (typed t).text) : s = t := by
  have htoList := congrArg String.toList h
  simp only [text, String.toList_append] at htoList
  exact Ty.text_injective (String.toList_inj.1 (List.append_cancel_left htoList))

theorem text_typed_ne_illTyped (t : Ty) : (typed t).text ≠ illTyped.text := by
  intro h
  have htoList : " :: ".toList ++ t.chars = " :: ".toList ++ "<error>".toList := by
    have hlists := congrArg String.toList h
    rwa [text, String.toList_append] at hlists
  have hchars : t.chars = "<error>".toList := List.append_cancel_left htoList
  -- A type begins with the name of a ground type, after its parentheses.
  have hlead := Ty.leadingWord_chars t [] trivial
  rw [List.append_nil, hchars] at hlead
  exact absurd hlead (by decide)

theorem text_ofType?_eq_typed_iff {type? : Option Ty} {t : Ty} :
    (ofType? type?).text = " :: " ++ t.text ↔ type? = some t := by
  cases type? with
  | none => exact ⟨fun h => absurd h.symm (text_typed_ne_illTyped t), nofun⟩
  | some s =>
    rw [Option.some.injEq]
    exact ⟨text_typed_inj, fun h => h ▸ rfl⟩

theorem text_ofType?_eq_error_iff {type? : Option Ty} :
    (ofType? type?).text = " :: <error>" ↔ type? = none := by
  cases type? with
  | none => exact ⟨fun _ => rfl, fun _ => rfl⟩
  | some s => exact ⟨fun h => absurd h (text_typed_ne_illTyped s), nofun⟩

end Verdict

/-! ### Reading a tree off its lines -/

namespace Line

def isBranch (depth : Nat) : Line → Bool
  | branch d _ => d == depth
  | _ => false

/-- The text about the type of a node, which is the fourth piece of its line. -/
def annotation? (line : Line) : Option String := line.pieces[3]?.map Display.Piece.text

end Line

/-- The line of the node at a path, read off the lines of a node that stands at the
    given depth. The lines of its parts are set apart by the labels of that depth. -/
def nodeAt? (depth : Nat) (lines : List Line) : List Nat → Option Line
  | [] => lines.head?
  | i :: path =>
    (lines.splitOnP (Line.isBranch depth))[i + 1]?.bind fun block =>
      nodeAt? (depth + 1) block path

/-- The annotation of the node at a path of an outline. -/
def annotationAt? (lines : List Line) (path : List Nat) : Option String :=
  (nodeAt? 0 lines path).bind Line.annotation?

/-- Blocks that begin with a separator, after a first block without one, are what
    splitting at the separators gives back. -/
theorem splitOnP_blocks {α β : Type} {p : β → Bool} {first : List β} {xs : List α}
    {label : α → β} {block : α → List β} (hfirst : ∀ b ∈ first, p b = false)
    (hlabel : ∀ x ∈ xs, p (label x) = true) (hblock : ∀ x ∈ xs, ∀ b ∈ block x, p b = false) :
    (first ++ xs.flatMap fun x => label x :: block x).splitOnP p = first :: xs.map block := by
  induction xs generalizing first with
  | nil =>
    rw [List.flatMap_nil, List.append_nil, List.map_nil]
    exact List.splitOnP_eq_singleton hfirst
  | cons x xs ih =>
    rw [List.flatMap_cons, List.cons_append,
      List.splitOnP_append_cons_of_forall_mem hfirst _ (hlabel x List.mem_cons_self)]
    rw [ih (hblock x List.mem_cons_self) (fun y hy => hlabel y (List.mem_cons_of_mem x hy))
      (fun y hy => hblock y (List.mem_cons_of_mem x hy)), List.map_cons]

/-! ### The lines of a full outline -/

namespace Expr

variable {Γ : Context} {e : Expr}

theorem verdict_of_foreignFree (h : e.ForeignFree) :
    e.verdict Γ = .ok (.ofType? (Site.type? ⟨Γ, e⟩)) := by
  unfold verdict Site.type? Place.type?
  rcases judge_of_foreignFree h with ⟨t, hinfer, hjudge⟩ | ⟨r, hinfer, hjudge⟩
  · rw [hinfer, hjudge]
    rfl
  · rw [hinfer, hjudge]
    rfl

theorem verdictText_of_foreignFree (h : e.ForeignFree) :
    e.verdictText true Γ = .ok (Verdict.ofType? (Site.type? ⟨Γ, e⟩)).text := by
  simp only [verdictText, shownVerdict, verdict_of_foreignFree h]
  rfl

theorem outcome_of_foreignFree (h : e.ForeignFree) (Γ : Context) (depth : Nat) :
    (e.outlineFrom .full Γ depth).outcome = .ok () := by
  rcases ok_or_error (e.outlineFrom .full Γ depth).outcome with ⟨_, hok⟩ | ⟨u, hu⟩
  · exact hok
  · have hnone : foreignIn? e.nodes = none := foreignFree_iff.1 h
    cases hnone.symm.trans ((stopsIn_outlineFrom Γ depth e u).1 hu)

/-- The lines of a full outline: the node, then its parts, each under its label. -/
theorem lines_outlineFrom_full (h : e.ForeignFree) (depth : Nat) {children : List (Child e)}
    (hchildren : e.children Γ = .ok children) :
    (e.outlineFrom .full Γ depth).lines =
      [.node depth e.head (some (.ofType? (Site.type? ⟨Γ, e⟩)))] ++
        children.flatMap fun child =>
          .branch depth child.label ::
            (child.node.outlineFrom .full child.scope (depth + 1)).lines := by
  rw [outlineFrom_full, verdict_of_foreignFree h, hchildren]
  simp only [Printed.ofOutcome_ok, pure_bind, Printed.lines_write_bind]
  rw [Printed.lines_forM_of_ok]
  · rfl
  · intro child hmem
    exact outcome_of_foreignFree (h.child hchildren hmem) child.scope (depth + 1)

/-- Labels of a depth stand outside the parts, which are deeper. -/
theorem isBranch_of_mem_lines (h : e.ForeignFree) {depth k : Nat} (hk : k < depth) {line : Line}
    (hline : line ∈ (e.outlineFrom .full Γ depth).lines) : line.isBranch k = false := by
  induction e using induction_on_children generalizing Γ depth with
  | step e ih =>
    obtain ⟨children, hchildren⟩ := exists_children_of_foreignFree h Γ
    rw [lines_outlineFrom_full h depth hchildren, List.mem_append, List.mem_singleton] at hline
    rcases hline with rfl | hline
    · rfl
    · obtain ⟨child, hmem, hline⟩ := List.mem_flatMap.1 hline
      rcases List.mem_cons.1 hline with rfl | hline
      · exact beq_eq_false_iff_ne.2 (Nat.ne_of_gt hk)
      · exact ih child (h.child hchildren hmem) (Nat.lt_succ_of_lt hk) hline

theorem splitOnP_lines (h : e.ForeignFree) (depth : Nat) {children : List (Child e)}
    (hchildren : e.children Γ = .ok children) :
    (e.outlineFrom .full Γ depth).lines.splitOnP (Line.isBranch depth) =
      [.node depth e.head (some (.ofType? (Site.type? ⟨Γ, e⟩)))] ::
        children.map fun child =>
          (child.node.outlineFrom .full child.scope (depth + 1)).lines := by
  rw [lines_outlineFrom_full h depth hchildren]
  apply splitOnP_blocks
  · intro line hline
    cases List.mem_singleton.1 hline
    rfl
  · intro child _
    exact beq_self_eq_true depth
  · intro child hmem line hline
    exact isBranch_of_mem_lines (h.child hchildren hmem) (Nat.lt_succ_self depth) hline

/-- **The printed tree is the tree of sites**: at every path the lines show the node of
    the site there, with its verdict. -/
theorem nodeAt?_outlineFrom (h : e.ForeignFree) (Γ : Context) (depth : Nat) (path : List Nat) :
    nodeAt? depth (e.outlineFrom .full Γ depth).lines path =
      ((Site.mk Γ e).follow? path).map fun s =>
        .node (depth + path.length) s.node.head (some (.ofType? s.type?)) := by
  induction path generalizing e Γ depth with
  | nil =>
    obtain ⟨children, hchildren⟩ := exists_children_of_foreignFree h Γ
    rw [nodeAt?, lines_outlineFrom_full h depth hchildren]
    rfl
  | cons i path ih =>
    obtain ⟨children, hchildren⟩ := exists_children_of_foreignFree h Γ
    rw [nodeAt?, splitOnP_lines h depth hchildren, Site.follow?,
      Site.parts_eq_of_children hchildren, List.getElem?_cons_succ, List.getElem?_map,
      List.getElem?_map]
    cases hchild : children[i]? with
    | none => rfl
    | some child =>
      have hfree := h.child hchildren (List.mem_of_getElem? hchild)
      have hdepth : depth + 1 + path.length = depth + (i :: path).length := by
        rw [List.length_cons]
        omega
      rw [← hdepth]
      exact ih hfree child.scope (depth + 1)

theorem annotationAt?_outline (h : e.ForeignFree) (Γ : Context) (path : List Nat) :
    annotationAt? (e.outline .full Γ).lines path =
      ((Site.mk Γ e).follow? path).map fun s => (Verdict.ofType? s.type?).text := by
  rw [annotationAt?, outline, nodeAt?_outlineFrom h, Option.bind_map]
  cases (Site.mk Γ e).follow? path <;> rfl

/-! ### Errors and the check -/

/-- Below a node with a type no node is annotated as an error. -/
theorem annotation?_ne_error (h : e.ForeignFree) (htyped : (Site.type? ⟨Γ, e⟩).isSome)
    {depth : Nat} {line : Line} (hline : line ∈ (e.outlineFrom .full Γ depth).lines) :
    line.annotation? ≠ some " :: <error>" := by
  induction e using induction_on_children generalizing Γ depth with
  | step e ih =>
    obtain ⟨children, hchildren⟩ := exists_children_of_foreignFree h Γ
    rw [lines_outlineFrom_full h depth hchildren, List.mem_append, List.mem_singleton] at hline
    rcases hline with rfl | hline
    · obtain ⟨t, ht⟩ := Option.isSome_iff_exists.1 htyped
      rw [ht]
      exact fun herror => Verdict.text_typed_ne_illTyped t (Option.some.inj herror)
    · obtain ⟨child, hmem, hline⟩ := List.mem_flatMap.1 hline
      rcases List.mem_cons.1 hline with rfl | hline
      · exact nofun
      · have hpart : (⟨child.scope, child.node⟩ : Site) ∈ Site.parts ⟨Γ, e⟩ := by
          rw [Site.parts_eq_of_children hchildren]
          exact List.mem_map_of_mem hmem
        exact ih child (h.child hchildren hmem)
          (Site.isSome_type?_of_mem_parts h htyped hpart) hline

theorem report_eq_true_iff (h : e.ForeignFree) :
    (e.report Γ).outcome = .ok true ↔ (Site.type? ⟨Γ, e⟩).isSome := by
  unfold report Site.type? Place.type?
  rcases judge_of_foreignFree h with ⟨t, hinfer, hjudge⟩ | ⟨r, hinfer, hjudge⟩
  · rw [hinfer, hjudge]
    exact ⟨fun _ => rfl, fun _ => rfl⟩
  · rw [hinfer, hjudge]
    exact ⟨nofun, nofun⟩

theorem report_eq_true_iff_lines (h : e.ForeignFree) :
    (e.report Γ).outcome = .ok true ↔
      ∀ line ∈ (e.outline .full Γ).lines, line.annotation? ≠ some " :: <error>" := by
  rw [report_eq_true_iff h]
  constructor
  · intro htyped line hline
    exact annotation?_ne_error h htyped hline
  · intro hlines
    obtain ⟨children, hchildren⟩ := exists_children_of_foreignFree h Γ
    have hroot := hlines (.node 0 e.head (some (.ofType? (Site.type? ⟨Γ, e⟩)))) (by
      rw [outline, lines_outlineFrom_full h 0 hchildren]
      exact List.mem_append_left _ (List.mem_singleton_self _))
    rw [Option.isSome_iff_ne_none]
    intro hnone
    exact hroot (congrArg some (Verdict.text_ofType?_eq_error_iff.2 hnone))

/-! ### Annotations follow the typing rules -/

/-- The parts of the node at a path are annotated with the given types, from left to
    right, and there are no further parts. -/
def PartsAnnotated (lines : List Line) (path : List Nat) (ts : List Ty) : Prop :=
  ∀ i, annotationAt? lines (path ++ [i]) = ts[i]?.map fun t => " :: " ++ t.text

variable {path : List Nat} {s : Site}

theorem annotationAt?_part (h : e.ForeignFree) (hs : (Site.mk Γ e).follow? path = some s)
    (i : Nat) :
    annotationAt? (e.outline .full Γ).lines (path ++ [i]) =
      s.parts[i]?.map fun part => (Verdict.ofType? part.type?).text := by
  rw [annotationAt?_outline h, Site.follow?_append, hs, Option.bind_some, Site.follow?]
  cases s.parts[i]? <;> rfl

theorem partsAnnotated_iff (h : e.ForeignFree) (hs : (Site.mk Γ e).follow? path = some s)
    {ts : List Ty} : PartsAnnotated (e.outline .full Γ).lines path ts ↔ s.Carries ts := by
  simp only [PartsAnnotated, annotationAt?_part h hs, Site.Carries, List.ext_getElem?_iff,
    List.getElem?_map]
  apply forall_congr'
  intro i
  cases s.parts[i]? with
  | none => cases ts[i]? <;> simp
  | some part =>
    cases ts[i]? with
    | none => simp
    | some t =>
      simp only [Option.map_some, Option.some.injEq]
      exact Verdict.text_ofType?_eq_typed_iff

theorem exists_error_part_iff (h : e.ForeignFree) (hs : (Site.mk Γ e).follow? path = some s) :
    (∃ i, annotationAt? (e.outline .full Γ).lines (path ++ [i]) = some " :: <error>") ↔
      ∃ part ∈ s.parts, part.type? = none := by
  simp only [annotationAt?_part h hs, Option.map_eq_some_iff, Verdict.text_ofType?_eq_error_iff,
    List.mem_iff_getElem?]
  constructor
  · rintro ⟨i, part, hpart, hnone⟩
    exact ⟨part, ⟨i, hpart⟩, hnone⟩
  · rintro ⟨part, ⟨i, hpart⟩, hnone⟩
    exact ⟨i, part, hpart, hnone⟩

theorem annotationAt?_eq_verdictText (h : e.ForeignFree) (Γ : Context) (path : List Nat) :
    annotationAt? (e.outline .full Γ).lines path =
      ((Site.mk Γ e).follow? path).bind fun s => (s.node.verdictText true s.scope).toOption := by
  rw [annotationAt?_outline h]
  cases hs : (Site.mk Γ e).follow? path with
  | none => rfl
  | some s =>
    have hfree : s.node.ForeignFree := Site.foreignFree_of_follow? h hs
    rw [Option.bind_some, verdictText_of_foreignFree hfree]
    rfl

theorem annotationAt?_eq_typed_iff (h : e.ForeignFree)
    (hs : (Site.mk Γ e).follow? path = some s) (t : Ty) :
    annotationAt? (e.outline .full Γ).lines path = some (" :: " ++ t.text) ↔
      ∃ ts, PartsAnnotated (e.outline .full Γ).lines path ts ∧ Rule s.scope s.node ts t := by
  simp only [partsAnnotated_iff h hs]
  rw [annotationAt?_outline h, hs, Option.map_some, Option.some.injEq,
    Verdict.text_ofType?_eq_typed_iff]
  exact Site.type?_eq_some_iff_rule (Site.foreignFree_of_follow? h hs)

theorem annotationAt?_eq_error_iff (h : e.ForeignFree)
    (hs : (Site.mk Γ e).follow? path = some s) :
    annotationAt? (e.outline .full Γ).lines path = some " :: <error>" ↔
      (∃ i, annotationAt? (e.outline .full Γ).lines (path ++ [i]) = some " :: <error>") ∨
      (∃ ts, PartsAnnotated (e.outline .full Γ).lines path ts ∧
        ∀ t, ¬ Rule s.scope s.node ts t) ∨
      ∃ x, s.node = .var x ∧ s.scope.contains x = false := by
  simp only [partsAnnotated_iff h hs, exists_error_part_iff h hs]
  rw [annotationAt?_outline h, hs, Option.map_some, Option.some.injEq,
    Verdict.text_ofType?_eq_error_iff, Site.type?_eq_none_iff (Site.foreignFree_of_follow? h hs)]
  apply or_congr_right
  constructor
  · exact .inl
  · rintro (hbroken | ⟨x, hvar, hx⟩)
    · exact hbroken
    · exact Site.broken_of_unbound hvar hx

theorem annotationAt?_error_of_below (h : e.ForeignFree) {rest : List Nat}
    (herror : annotationAt? (e.outline .full Γ).lines (path ++ rest) = some " :: <error>") :
    annotationAt? (e.outline .full Γ).lines path = some " :: <error>" := by
  rw [annotationAt?_outline h, Site.follow?_append] at herror
  obtain ⟨r, hr, htext⟩ := Option.map_eq_some_iff.1 herror
  obtain ⟨s, hs, hrest⟩ := Option.bind_eq_some_iff.1 hr
  rw [annotationAt?_outline h, hs, Option.map_some, Option.some.injEq]
  rw [Verdict.text_ofType?_eq_error_iff] at htext ⊢
  rw [← Option.not_isSome_iff_eq_none]
  intro hsome
  have hbelow := Site.isSome_type?_of_follow? (Site.foreignFree_of_follow? h hs) hsome hrest
  rw [htext] at hbelow
  cases hbelow

/-- **Annotations follow the typing rules.** The full outline of an expression without
    foreign nodes comes to its end, and annotates every node with the verdict on it in
    the context handed down. A node is annotated with a type exactly when its parts are
    annotated with types that give this one by the rule of the node; it is annotated as
    an error exactly when a part is, or the types of the parts break the rule, or it is
    a variable that is not bound. So errors reach the root, and the check succeeds
    exactly when there are none. -/
theorem annotations_follow_rules (Γ : Context) (e : Expr) (h : e.ForeignFree) :
    let printed := e.outline .full Γ
    printed.outcome = .ok () ∧
    (∀ path, annotationAt? printed.lines path =
      ((Site.mk Γ e).follow? path).bind fun s => (s.node.verdictText true s.scope).toOption) ∧
    (∀ path s, (Site.mk Γ e).follow? path = some s →
      (∃ text, s.node.verdictText true s.scope = .ok text) ∧
      (∀ t, annotationAt? printed.lines path = some (" :: " ++ t.text) ↔
        ∃ ts, PartsAnnotated printed.lines path ts ∧ Rule s.scope s.node ts t) ∧
      (annotationAt? printed.lines path = some " :: <error>" ↔
        (∃ i, annotationAt? printed.lines (path ++ [i]) = some " :: <error>") ∨
        (∃ ts, PartsAnnotated printed.lines path ts ∧ ∀ t, ¬ Rule s.scope s.node ts t) ∨
        ∃ x, s.node = .var x ∧ s.scope.contains x = false)) ∧
    (∀ path rest, annotationAt? printed.lines (path ++ rest) = some " :: <error>" →
      annotationAt? printed.lines path = some " :: <error>") ∧
    ((e.report Γ).outcome = .ok true ↔
      ∀ line ∈ printed.lines, line.annotation? ≠ some " :: <error>") := by
  intro printed
  refine ⟨outcome_of_foreignFree h Γ 0, annotationAt?_eq_verdictText h Γ, ?_, ?_, ?_⟩
  · intro path s hs
    have hfree : s.node.ForeignFree := Site.foreignFree_of_follow? h hs
    exact ⟨⟨_, verdictText_of_foreignFree hfree⟩, annotationAt?_eq_typed_iff h hs,
      annotationAt?_eq_error_iff h hs⟩
  · intro path rest
    exact annotationAt?_error_of_below h
  · exact report_eq_true_iff_lines h

/-- The value of the binding breaks a rule, so the root is annotated as an error too,
    while the body is annotated with the type that the rule of calls gives. -/
theorem annotations_follow_rules_letIn :
    let Γ : Context := .ofList [("x", .number)]
    let e : Expr := .letIn "y" (.binary .plus (.var "x") (.bool true))
      (.app (.lam "z" .number (.bool false)) (.var "x"))
    let lines := (e.outline .full Γ).lines
    e.ForeignFree ∧ annotationAt? lines [0] = some " :: <error>" ∧
      annotationAt? lines [] = some " :: <error>" ∧
      annotationAt? lines [1] = some " :: Boolean" ∧ (e.report Γ).outcome ≠ .ok true := by
  intro Γ e lines
  have hfree : e.ForeignFree := foreignFree_iff.2 rfl
  obtain ⟨_, hverdicts, hrules, hup, hcheck⟩ := annotations_follow_rules Γ e hfree
  have hvalue : annotationAt? lines [0] = some " :: <error>" := (hverdicts [0]).trans rfl
  have hbody : annotationAt? lines [1] = some (" :: " ++ Ty.boolean.text) := by
    refine ((hrules [1] _ rfl).2.1 .boolean).2 ⟨[.arrow .number .boolean, .number], ?_, .app⟩
    intro i
    rcases i with _ | _ | i
    · exact (hverdicts [1, 0]).trans rfl
    · exact (hverdicts [1, 1]).trans rfl
    · exact (hverdicts [1, i + 2]).trans rfl
  have hroot : annotationAt? lines [] = some " :: <error>" := hup [] [0] hvalue
  refine ⟨hfree, hvalue, hroot, hbody, ?_⟩
  intro htrue
  obtain ⟨line, hline, herror⟩ := Option.bind_eq_some_iff.1 hroot
  exact hcheck.1 htrue line (List.mem_of_mem_head? hline) herror

end Expr

end SimplyTyped
