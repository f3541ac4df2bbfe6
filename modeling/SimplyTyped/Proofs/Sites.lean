import SimplyTyped.Proofs.Blame
import SimplyTyped.Proofs.ForeignNodes

/-!
# Sites

A site is a node of an outline: an expression together with the context that is handed
down to it. The parts of a site are the children that the outline lists, each in its
own scope, and a path of part numbers leads from the root to a site. The scopes agree
with those of inference where inference gets there, and go on where it stops: below a
binding whose value has no type, the body is read in the outer context.

The main result ties the two traversals together. Without foreign nodes, a site has a
type exactly when its parts have types, and these satisfy the typing rule of the node
(`Rule`), which looks at the head of the node only.
-/

namespace SimplyTyped

structure Site where
  scope : Context
  node : Expr

namespace Site

/-- The parts of a site from left to right. -/
def parts (s : Site) : List Site :=
  match s.node.children s.scope with
  | .ok children => children.map fun child => ⟨child.scope, child.node⟩
  | .error _ => []

def follow? (s : Site) : List Nat → Option Site
  | [] => some s
  | i :: path => s.parts[i]?.bind fun part => part.follow? path

/-- The type of a site, if it has one. -/
def type? (s : Site) : Option Ty := Place.type? s.scope s.node

theorem type?_eq_some_iff {Γ : Context} {e : Expr} {t : Ty} :
    type? ⟨Γ, e⟩ = some t ↔ e.infer Γ = .ok t := Place.type?_eq_some_iff

theorem follow?_append (s : Site) (path rest : List Nat) :
    s.follow? (path ++ rest) = (s.follow? path).bind fun r => r.follow? rest := by
  induction path generalizing s with
  | nil => rfl
  | cons i path ih =>
    rw [List.cons_append, follow?, follow?, Option.bind_assoc]
    congr 1
    funext part
    exact ih part

end Site

/-! ### Parts of sites without foreign nodes -/

/-- Binds a name to a type if there is one. -/
def Context.insert? (Γ : Context) (name : String) : Option Ty → Context
  | some type => Γ.insert name type
  | none => Γ

namespace Expr

variable {Γ : Context} {e : Expr}

/-- Without foreign nodes, an expression has a type or is rejected. -/
theorem judge_of_foreignFree (h : e.ForeignFree) :
    (∃ t, e.infer Γ = .ok t ∧ e.judge Γ = .ok (.ok t)) ∨
      ∃ r, e.infer Γ = .error (.rejected r) ∧ e.judge Γ = .ok (.error r) := by
  have haccounts := accounts_infer Γ e
  unfold judge
  cases hinfer : e.infer Γ with
  | ok t => exact .inl ⟨t, rfl, rfl⟩
  | error failure =>
    cases failure with
    | rejected r => exact .inr ⟨r, rfl, rfl⟩
    | unknown u =>
      rw [hinfer] at haccounts
      have hnone : foreignIn? e.nodes = none := foreignFree_iff.1 h
      cases hnone.symm.trans haccounts

theorem bodyScope_of_foreignFree {value : Expr} (h : value.ForeignFree) (x : String) :
    bodyScope Γ x value = .ok (Γ.insert? x (Site.type? ⟨Γ, value⟩)) := by
  unfold bodyScope Site.type? Place.type?
  rcases judge_of_foreignFree h with ⟨t, hinfer, hjudge⟩ | ⟨r, hinfer, hjudge⟩
  · rw [hinfer, hjudge]
    rfl
  · rw [hinfer, hjudge]
    rfl

theorem exists_children_of_foreignFree (h : e.ForeignFree) (Γ : Context) :
    ∃ children, e.children Γ = .ok children := by
  rcases ok_or_error (e.children Γ) with hok | ⟨u, hu⟩
  · exact hok
  · have hnone : foreignIn? e.nodes = none := foreignFree_iff.1 h
    cases hnone.symm.trans (foreignIn?_of_children hu)

theorem ForeignFree.child {children : List (Child e)} (h : e.ForeignFree)
    (hchildren : e.children Γ = .ok children) {child : Child e} (hmem : child ∈ children) :
    child.node.ForeignFree := by
  intro kind hkind
  apply h kind
  rw [nodes_eq_of_children hchildren]
  exact List.mem_cons_of_mem e (List.mem_flatMap.2 ⟨child, hmem, hkind⟩)

end Expr

namespace Site

theorem parts_eq_of_children {Γ : Context} {e : Expr} {children : List (Expr.Child e)}
    (h : e.children Γ = .ok children) :
    parts ⟨Γ, e⟩ = children.map fun child => ⟨child.scope, child.node⟩ := by
  simp only [parts, h]

theorem foreignFree_of_mem_parts {s part : Site} (h : s.node.ForeignFree)
    (hpart : part ∈ s.parts) : part.node.ForeignFree := by
  obtain ⟨children, hchildren⟩ := Expr.exists_children_of_foreignFree h s.scope
  rw [parts_eq_of_children hchildren] at hpart
  obtain ⟨child, hmem, rfl⟩ := List.mem_map.1 hpart
  exact h.child hchildren hmem

theorem foreignFree_of_follow? {s r : Site} {path : List Nat} (h : s.node.ForeignFree)
    (hr : s.follow? path = some r) : r.node.ForeignFree := by
  induction path generalizing s with
  | nil =>
    cases hr
    exact h
  | cons i path ih =>
    obtain ⟨part, hpart, hrest⟩ := Option.bind_eq_some_iff.1 hr
    exact ih (foreignFree_of_mem_parts h (List.mem_of_getElem? hpart)) hrest

/-- The body of a binding is read in the context with the type of the value, if it has
    one. -/
theorem parts_letIn {Γ : Context} {x : String} {value body : Expr} (h : value.ForeignFree) :
    parts ⟨Γ, .letIn x value body⟩ =
      [⟨Γ, value⟩, ⟨Γ.insert? x (type? ⟨Γ, value⟩), body⟩] := by
  have hscope := Expr.bodyScope_of_foreignFree (Γ := Γ) h x
  simp only [parts, Expr.children, hscope]
  rfl

end Site

/-! ### Typing rules on the types of parts -/

/-- The typing rule of a node, read on the types of its parts from left to right. What
    the parts are does not matter, and the context matters for a variable only. -/
inductive Rule (Γ : Context) : Expr → List Ty → Ty → Prop where
  | num {n} : Rule Γ (.num n) [] .number
  | bool {b} : Rule Γ (.bool b) [] .boolean
  | var {x t} : Γ.get? x = some t → Rule Γ (.var x) [] t
  | letIn {x value body s t} : Rule Γ (.letIn x value body) [s, t] t
  | plus {left right} : Rule Γ (.binary .plus left right) [.number, .number] .number
  | or {left right} : Rule Γ (.binary .or left right) [.boolean, .boolean] .boolean
  | eq {left right s} : Rule Γ (.binary .eq left right) [s, s] .boolean
  | cond {condition thenBranch elseBranch t} :
      Rule Γ (.cond condition thenBranch elseBranch) [.boolean, t, t] t
  | lam {x s body t} : Rule Γ (.lam x s body) [t] (.arrow s t)
  | app {function argument s t} : Rule Γ (.app function argument) [.arrow s t, s] t
  | letRec {name param s r definition body t} :
      Rule Γ (.letRec name param s r definition body) [r, t] t

theorem Rule.binary {Γ : Context} {op : BinOp} {left right : Expr} {s : Ty}
    (hop : op.operandType?.getD s = s) : Rule Γ (.binary op left right) [s, s] op.resultType := by
  cases op with
  | plus =>
    have hs : Ty.number = s := hop
    subst hs
    exact .plus
  | or =>
    have hs : Ty.boolean = s := hop
    subst hs
    exact .or
  | eq => exact .eq

namespace Site

/-- The parts of a site have the given types, from left to right. -/
def Carries (s : Site) (ts : List Ty) : Prop := s.parts.map type? = ts.map some

section Carried

variable {P : List Ty → Prop}

theorem exists_types_nil : (∃ ts, ([] : List Site).map type? = ts.map some ∧ P ts) ↔ P [] := by
  constructor
  · rintro ⟨ts, hts, hP⟩
    cases ts with
    | nil => exact hP
    | cons t ts => cases hts
  · intro hP
    exact ⟨[], rfl, hP⟩

theorem exists_types_cons {s : Site} {rest : List Site} :
    (∃ ts, (s :: rest).map type? = ts.map some ∧ P ts) ↔
      ∃ t, s.type? = some t ∧ ∃ ts, rest.map type? = ts.map some ∧ P (t :: ts) := by
  constructor
  · rintro ⟨ts, hts, hP⟩
    cases ts with
    | nil => cases hts
    | cons t ts =>
      rw [List.map_cons, List.map_cons, List.cons.injEq] at hts
      exact ⟨t, hts.1, ts, hts.2, hP⟩
  · rintro ⟨t, ht, ts, hts, hP⟩
    exact ⟨t :: ts, by rw [List.map_cons, List.map_cons, ht, hts], hP⟩

theorem exists_carries_leaf {s : Site} (h : s.parts = []) : (∃ ts, s.Carries ts ∧ P ts) ↔ P [] := by
  simp only [Carries, h, exists_types_nil]

theorem exists_carries_single {s a : Site} (h : s.parts = [a]) :
    (∃ ts, s.Carries ts ∧ P ts) ↔ ∃ t, a.type? = some t ∧ P [t] := by
  simp only [Carries, h, exists_types_cons, exists_types_nil]

theorem exists_carries_pair {s a b : Site} (h : s.parts = [a, b]) :
    (∃ ts, s.Carries ts ∧ P ts) ↔
      ∃ t, a.type? = some t ∧ ∃ u, b.type? = some u ∧ P [t, u] := by
  simp only [Carries, h, exists_types_cons, exists_types_nil]

theorem exists_carries_triple {s a b c : Site} (h : s.parts = [a, b, c]) :
    (∃ ts, s.Carries ts ∧ P ts) ↔
      ∃ t, a.type? = some t ∧ ∃ u, b.type? = some u ∧ ∃ v, c.type? = some v ∧ P [t, u, v] := by
  simp only [Carries, h, exists_types_cons, exists_types_nil]

end Carried

/-- **One step of the outline.** A site has a type exactly when its parts have types
    and these satisfy the rule of its node. -/
theorem type?_eq_some_iff_rule {s : Site} (h : s.node.ForeignFree) {t : Ty} :
    s.type? = some t ↔ ∃ ts, s.Carries ts ∧ Rule s.scope s.node ts t := by
  obtain ⟨Γ, e⟩ := s
  rw [type?_eq_some_iff]
  cases e with
  | num n =>
    rw [exists_carries_leaf rfl]
    constructor
    · intro ht
      cases ht
      exact .num
    · intro hrule
      cases hrule
      rfl
  | bool b =>
    rw [exists_carries_leaf rfl]
    constructor
    · intro ht
      cases ht
      exact .bool
    · intro hrule
      cases hrule
      rfl
  | var x =>
    rw [exists_carries_leaf rfl, Expr.infer, Context.resolve_eq_ok_iff]
    constructor
    · intro hx
      exact .var hx
    · intro hrule
      cases hrule with
      | var hx => exact hx
  | foreign kind => exact absurd (List.mem_singleton_self _) (h kind)
  | letIn x value body =>
    rw [exists_carries_pair (parts_letIn h.letIn_value), Expr.infer_letIn_eq_ok_iff]
    constructor
    · rintro ⟨s, hs, ht⟩
      refine ⟨s, type?_eq_some_iff.2 hs, t, ?_, .letIn⟩
      rw [type?_eq_some_iff.2 hs]
      exact type?_eq_some_iff.2 ht
    · rintro ⟨s, hs, u, hu, hrule⟩
      cases hrule
      rw [hs] at hu
      exact ⟨s, type?_eq_some_iff.1 hs, type?_eq_some_iff.1 hu⟩
  | binary op left right =>
    rw [exists_carries_pair rfl, Expr.infer_binary_eq_ok_iff]
    constructor
    · rintro ⟨s, hl, hr, hop, rfl⟩
      exact ⟨s, type?_eq_some_iff.2 hl, s, type?_eq_some_iff.2 hr, .binary hop⟩
    · rintro ⟨s, hl, u, hr, hrule⟩
      rw [type?_eq_some_iff] at hl hr
      cases hrule with
      | plus => exact ⟨.number, hl, hr, rfl, rfl⟩
      | or => exact ⟨.boolean, hl, hr, rfl, rfl⟩
      | eq => exact ⟨s, hl, hr, rfl, rfl⟩
  | cond condition thenBranch elseBranch =>
    rw [exists_carries_triple rfl, Expr.infer_cond_eq_ok_iff]
    constructor
    · rintro ⟨hc, ha, hb⟩
      exact ⟨.boolean, type?_eq_some_iff.2 hc, t, type?_eq_some_iff.2 ha, t,
        type?_eq_some_iff.2 hb, .cond⟩
    · rintro ⟨_, hc, _, ha, _, hb, hrule⟩
      cases hrule
      exact ⟨type?_eq_some_iff.1 hc, type?_eq_some_iff.1 ha, type?_eq_some_iff.1 hb⟩
  | lam x paramType body =>
    rw [exists_carries_single rfl, Expr.infer_lam_eq_ok_iff]
    constructor
    · rintro ⟨s, hs, rfl⟩
      exact ⟨s, type?_eq_some_iff.2 hs, .lam⟩
    · rintro ⟨s, hs, hrule⟩
      cases hrule
      exact ⟨s, type?_eq_some_iff.1 hs, rfl⟩
  | app function argument =>
    rw [exists_carries_pair rfl, Expr.infer_app_eq_ok_iff]
    constructor
    · rintro ⟨s, hf, ha⟩
      exact ⟨_, type?_eq_some_iff.2 hf, s, type?_eq_some_iff.2 ha, .app⟩
    · rintro ⟨_, hf, s, ha, hrule⟩
      cases hrule
      exact ⟨s, type?_eq_some_iff.1 hf, type?_eq_some_iff.1 ha⟩
  | letRec name param paramType returnType definition body =>
    rw [exists_carries_pair rfl, Expr.infer_letRec_eq_ok_iff]
    constructor
    · rintro ⟨hd, hb⟩
      exact ⟨returnType, type?_eq_some_iff.2 hd, t, type?_eq_some_iff.2 hb, .letRec⟩
    · rintro ⟨_, hd, u, hb, hrule⟩
      cases hrule
      exact ⟨type?_eq_some_iff.1 hd, type?_eq_some_iff.1 hb⟩

theorem Carries.unique {s : Site} {ts us : List Ty} (h : s.Carries ts) (h' : s.Carries us) :
    ts = us :=
  (List.map_inj_right fun _ _ => Option.some.inj).1 (h.symm.trans h')

theorem exists_carries {s : Site} (h : ∀ part ∈ s.parts, part.type? ≠ none) :
    ∃ ts, s.Carries ts := by
  unfold Carries
  revert h
  generalize s.parts = parts
  intro h
  induction parts with
  | nil => exact ⟨[], rfl⟩
  | cons part rest ih =>
    obtain ⟨ts, hts⟩ := ih fun r hr => h r (List.mem_cons_of_mem part hr)
    obtain ⟨t, ht⟩ := Option.ne_none_iff_exists'.1 (h part List.mem_cons_self)
    exact ⟨t :: ts, by rw [List.map_cons, List.map_cons, ht, hts]⟩

/-- A site has no type exactly when one of its parts has none, or the types of the parts
    break the rule of its node. -/
theorem type?_eq_none_iff {s : Site} (h : s.node.ForeignFree) :
    s.type? = none ↔
      (∃ part ∈ s.parts, part.type? = none) ∨
        ∃ ts, s.Carries ts ∧ ∀ t, ¬ Rule s.scope s.node ts t := by
  rw [Option.eq_none_iff_forall_ne_some]
  simp only [Ne, type?_eq_some_iff_rule h]
  constructor
  · intro hnone
    by_cases hparts : ∃ part ∈ s.parts, part.type? = none
    · exact .inl hparts
    · obtain ⟨ts, hts⟩ := exists_carries fun part hmem hpart => hparts ⟨part, hmem, hpart⟩
      exact .inr ⟨ts, hts, fun t hrule => hnone t ⟨ts, hts, hrule⟩⟩
  · rintro (⟨part, hmem, hpart⟩ | ⟨ts, hts, hbroken⟩) t ⟨us, hus, hrule⟩
    · have htyped : part.type? ∈ us.map some := hus ▸ List.mem_map_of_mem hmem
      rw [hpart] at htyped
      simp at htyped
    · cases hts.unique hus
      exact hbroken t hrule

/-- A variable that is not bound breaks its rule, having no parts. -/
theorem broken_of_unbound {s : Site} {x : String} (hvar : s.node = .var x)
    (hx : s.scope.contains x = false) : ∃ ts, s.Carries ts ∧ ∀ t, ¬ Rule s.scope s.node ts t := by
  obtain ⟨Γ, e⟩ := s
  subst hvar
  refine ⟨[], rfl, ?_⟩
  intro t hrule
  cases hrule with
  | var hbound => simp [Context.contains, hbound] at hx

theorem isSome_type?_of_mem_parts {s part : Site} (h : s.node.ForeignFree)
    (hs : s.type?.isSome) (hpart : part ∈ s.parts) : part.type?.isSome := by
  obtain ⟨t, ht⟩ := Option.isSome_iff_exists.1 hs
  obtain ⟨ts, hts, _⟩ := (type?_eq_some_iff_rule h).1 ht
  have hmem : part.type? ∈ ts.map some := hts ▸ List.mem_map_of_mem hpart
  obtain ⟨u, _, hu⟩ := List.mem_map.1 hmem
  rw [← hu]
  rfl

/-- All sites below a site with a type have types. -/
theorem isSome_type?_of_follow? {s r : Site} {path : List Nat} (h : s.node.ForeignFree)
    (hs : s.type?.isSome) (hr : s.follow? path = some r) : r.type?.isSome := by
  induction path generalizing s with
  | nil =>
    cases hr
    exact hs
  | cons i path ih =>
    obtain ⟨part, hpart, hrest⟩ := Option.bind_eq_some_iff.1 hr
    have hmem : part ∈ s.parts := List.mem_of_getElem? hpart
    exact ih (foreignFree_of_mem_parts h hmem) (isSome_type?_of_mem_parts h hs hmem) hrest

end Site

end SimplyTyped
