import SimplyTyped.Expr.Surface
import SimplyTyped.Proofs.PrintingSteps

/-!
# Which foreign node is reported

Inference, the surface form and the outline each go through an expression, in their
own ways: inference stops at the first rejection, the surface form visits every node,
and the outline infers at every node again. They agree on foreign nodes all the same.
Whatever reports a foreign node reports the first one in preorder; the surface form
and the outline report one exactly when there is one, and inference gives a type, or
blames a node, only where it has seen that nothing is foreign.
-/

namespace SimplyTyped

namespace Expr

/-! ### Nodes in preorder -/

/-- The nodes of an expression in preorder, each with all that is below it. -/
def nodes : Expr → List Expr
  | num value => [num value]
  | bool value => [bool value]
  | var x => [var x]
  | letIn x value body => letIn x value body :: (value.nodes ++ body.nodes)
  | binary op left right => binary op left right :: (left.nodes ++ right.nodes)
  | cond condition thenBranch elseBranch =>
    cond condition thenBranch elseBranch ::
      (condition.nodes ++ (thenBranch.nodes ++ elseBranch.nodes))
  | lam x paramType body => lam x paramType body :: body.nodes
  | app function argument => app function argument :: (function.nodes ++ argument.nodes)
  | letRec name param paramType returnType definition body =>
    letRec name param paramType returnType definition body :: (definition.nodes ++ body.nodes)
  | foreign kind => [foreign kind]

def foreignKind? : Expr → Option String
  | foreign kind => some kind
  | _ => none

/-- The kind of the first foreign node of a list. -/
def foreignIn? (ns : List Expr) : Option String := ns.findSome? foreignKind?

/-- The kind of the first foreign node of an expression in preorder. -/
def firstForeign? (e : Expr) : Option String := foreignIn? e.nodes

def ForeignFree (e : Expr) : Prop := ∀ kind, foreign kind ∉ e.nodes

theorem foreignIn?_eq_none_iff {ns : List Expr} :
    foreignIn? ns = none ↔ ∀ kind, foreign kind ∉ ns := by
  rw [foreignIn?, List.findSome?_eq_none_iff]
  constructor
  · intro h kind hkind
    cases h (foreign kind) hkind
  · intro h n hn
    cases n with
    | foreign kind => exact absurd hn (h kind)
    | _ => rfl

theorem foreignFree_iff {e : Expr} : e.ForeignFree ↔ e.firstForeign? = none :=
  foreignIn?_eq_none_iff.symm

theorem foreignIn?_append (ns ms : List Expr) :
    foreignIn? (ns ++ ms) = (foreignIn? ns).or (foreignIn? ms) := List.findSome?_append

theorem foreignIn?_cons {n : Expr} (h : n.foreignKind? = none) (ns : List Expr) :
    foreignIn? (n :: ns) = foreignIn? ns := by
  rw [foreignIn?, List.findSome?_cons_of_isNone (by rw [h]; rfl), foreignIn?]

theorem mem_nodes_self (e : Expr) : e ∈ e.nodes := by
  cases e <;> simp [nodes]

theorem ForeignFree.letIn_value {x : String} {value body : Expr}
    (h : (letIn x value body).ForeignFree) : value.ForeignFree := by
  intro kind hkind
  apply h kind
  rw [nodes]
  exact List.mem_cons_of_mem _ (List.mem_append_left _ hkind)

/-- The parts of a node, as they are listed for its outline, have the nodes below it in
    preorder. -/
theorem nodes_eq_of_children {Γ : Context} {e : Expr} {children : List (Child e)}
    (h : e.children Γ = .ok children) :
    e.nodes = e :: children.flatMap fun child => child.node.nodes := by
  cases e with
  | letIn x value body =>
    obtain ⟨Δ, _, hΔ⟩ := bind_eq_ok_iff.1 h
    cases hΔ
    simp [nodes]
  | _ =>
    cases h
    simp [nodes]

/-! ### Inference -/

section Inference

variable {α β : Type} {ns ms : List Expr}

/-- A run of inference that is to visit the given nodes in their order gives account of
    them: it comes to its end only if none is foreign, an unknown node is the first
    foreign one, and a rejected node is one of them with nothing foreign in it. -/
def Accounts (ns : List Expr) : Except Failure α → Prop
  | .ok _ => foreignIn? ns = none
  | .error (.unknown u) => foreignIn? ns = some u.kind
  | .error (.rejected r) => ∃ n ∈ ns, r.node = some n ∧ n.ForeignFree

theorem Accounts.bind {x : Except Failure α} {f : α → Except Failure β} (h : Accounts ns x)
    (hf : ∀ a, Accounts ms (f a)) : Accounts (ns ++ ms) (x >>= f) := by
  cases x with
  | error failure =>
    cases failure with
    | unknown u =>
      have hns : foreignIn? ns = some u.kind := h
      show foreignIn? (ns ++ ms) = some u.kind
      rw [foreignIn?_append, hns, Option.some_or]
    | rejected r =>
      obtain ⟨n, hn, hnode, hfree⟩ := h
      exact ⟨n, List.mem_append_left ms hn, hnode, hfree⟩
  | ok a =>
    have hns : foreignIn? ns = none := h
    have hms := hf a
    show Accounts (ns ++ ms) (f a)
    cases hfa : f a with
    | ok b =>
      rw [hfa] at hms
      show foreignIn? (ns ++ ms) = none
      rw [foreignIn?_append, hns, Option.none_or]
      exact hms
    | error failure =>
      rw [hfa] at hms
      cases failure with
      | unknown u =>
        show foreignIn? (ns ++ ms) = some u.kind
        rw [foreignIn?_append, hns, Option.none_or]
        exact hms
      | rejected r =>
        obtain ⟨n, hn, hnode, hfree⟩ := hms
        exact ⟨n, List.mem_append_right ns hn, hnode, hfree⟩

theorem Accounts.return {x : Except Failure α} (h : Accounts ns x) (g : α → β) :
    Accounts ns (x >>= fun a => pure (g a)) := by
  have hbind : Accounts (ns ++ []) (x >>= fun a => pure (g a)) := h.bind fun _ => rfl
  rwa [List.append_nil] at hbind

theorem Accounts.cons {x : Except Failure α} (h : Accounts ns x) {n : Expr}
    (hn : n.foreignKind? = none) : Accounts (n :: ns) x := by
  cases x with
  | ok a => exact (foreignIn?_cons hn ns).trans h
  | error failure =>
    cases failure with
    | unknown u => exact (foreignIn?_cons hn ns).trans h
    | rejected r =>
      obtain ⟨m, hm, hnode, hfree⟩ := h
      exact ⟨m, List.mem_cons_of_mem n hm, hnode, hfree⟩

/-- A test of the type of an expression comes after the expression has been visited, so
    that it may blame the expression. -/
theorem Accounts.test {Γ : Context} {e : Expr} {test : Ty → Except Failure α}
    (h : Accounts e.nodes (e.infer Γ))
    (htest : ∀ t f, test t = .error f → ∃ fault, f = .rejected ⟨fault, some e⟩) :
    Accounts e.nodes (e.infer Γ >>= test) := by
  cases hinfer : e.infer Γ with
  | error failure =>
    rw [hinfer] at h
    cases failure with
    | unknown u => exact h
    | rejected r => exact h
  | ok t =>
    rw [hinfer] at h
    show Accounts e.nodes (test t)
    cases ht : test t with
    | ok a => exact h
    | error f =>
      obtain ⟨fault, rfl⟩ := htest t f ht
      exact ⟨e, mem_nodes_self e, rfl, foreignFree_iff.2 h⟩

theorem Accounts.check {Γ : Context} {e : Expr} (h : Accounts e.nodes (e.infer Γ)) (s : Ty) :
    Accounts e.nodes (e.check Γ s) := by
  apply h.test
  intro t f hf
  exact ⟨.mismatch s t, (demand_eq_error_iff.1 hf).2⟩

theorem Accounts.callee {Γ : Context} {e : Expr} (h : Accounts e.nodes (e.infer Γ)) :
    Accounts e.nodes (e.infer Γ >>= e.demandArrow) := by
  apply h.test
  intro t f hf
  exact ⟨.notFunction t, (demandArrow_eq_error_iff.1 hf).2⟩

/-- **Inference gives account of all nodes**, in preorder. -/
theorem accounts_infer (Γ : Context) (e : Expr) : Accounts e.nodes (e.infer Γ) := by
  induction e generalizing Γ with
  | num value => exact foreignIn?_cons rfl []
  | bool value => exact foreignIn?_cons rfl []
  | foreign kind => rfl
  | var x =>
    show Accounts [var x] (Γ.resolve x)
    cases hx : Γ.resolve x with
    | ok t => exact foreignIn?_cons rfl []
    | error failure =>
      obtain ⟨_, rfl⟩ := Context.resolve_eq_error_iff.1 hx
      refine ⟨var x, List.mem_singleton_self _, rfl, ?_⟩
      rw [foreignFree_iff]
      exact foreignIn?_cons rfl []
  | letIn x value body ihv ihb =>
    apply Accounts.cons _ rfl
    exact (ihv Γ).bind fun t => ihb (Γ.insert x t)
  | binary op left right ihl ihr =>
    apply Accounts.cons _ rfl
    cases op with
    | plus =>
      rw [infer_binary_of_operandType rfl]
      exact ((ihl Γ).check .number).bind fun _ => ((ihr Γ).check .number).return _
    | or =>
      rw [infer_binary_of_operandType rfl]
      exact ((ihl Γ).check .boolean).bind fun _ => ((ihr Γ).check .boolean).return _
    | eq =>
      rw [infer_eq_operator]
      exact (ihl Γ).bind fun t => ((ihr Γ).check t).return _
  | cond condition thenBranch elseBranch ihc iha ihb =>
    apply Accounts.cons _ rfl
    exact ((ihc Γ).check .boolean).bind fun _ =>
      (iha Γ).bind fun t => ((ihb Γ).check t).return _
  | lam x paramType body ih =>
    apply Accounts.cons _ rfl
    exact (ih (Γ.insert x paramType)).return _
  | app function argument ihf iha =>
    apply Accounts.cons _ rfl
    exact (ihf Γ).callee.bind fun arrow => ((iha Γ).check arrow.1).return _
  | letRec name param paramType returnType definition body ihd ihb =>
    apply Accounts.cons _ rfl
    exact ((ihd _).check returnType).bind fun _ => ihb _

end Inference

/-! ### Runs that visit everything -/

section Visits

variable {α β : Type} {ns ms : List Expr}

/-- A run stops exactly when one of the given nodes is foreign, and then at the first
    one. -/
def StopsIn (ns : List Expr) (x : Except UnknownNode α) : Prop :=
  ∀ u, x = .error u ↔ foreignIn? ns = some u.kind

theorem StopsIn.ok (h : foreignIn? ns = none) (a : α) :
    StopsIn ns (.ok a : Except UnknownNode α) := by
  intro u
  rw [h]
  exact ⟨nofun, nofun⟩

theorem StopsIn.cons {x : Except UnknownNode α} (h : StopsIn ns x) {n : Expr}
    (hn : n.foreignKind? = none) : StopsIn (n :: ns) x := by
  intro u
  rw [foreignIn?_cons hn]
  exact h u

/-- A first step that may stop earlier, but only for the right reason, changes nothing. -/
theorem StopsIn.after {x : Except UnknownNode α} {f : α → Except UnknownNode β}
    (h : ∀ u, x = .error u → foreignIn? ns = some u.kind)
    (hf : ∀ a, x = .ok a → StopsIn ns (f a)) : StopsIn ns (x >>= f) := by
  cases x with
  | ok a => exact hf a rfl
  | error v =>
    intro u
    rw [h v rfl, Option.some.injEq]
    constructor
    · intro hu
      cases hu
      rfl
    · intro hu
      exact congrArg Except.error (congrArg UnknownNode.mk hu)

theorem StopsIn.eq_none_of_ok {a : α} (h : StopsIn ns (.ok a : Except UnknownNode α)) :
    foreignIn? ns = none := by
  cases hns : foreignIn? ns with
  | none => rfl
  | some kind => cases (h ⟨kind⟩).2 hns

theorem StopsIn.bind {x : Except UnknownNode α} {f : α → Except UnknownNode β}
    (h : StopsIn ns x) (hf : ∀ a, StopsIn ms (f a)) : StopsIn (ns ++ ms) (x >>= f) := by
  apply StopsIn.after
  · intro u hu
    rw [foreignIn?_append, (h u).1 hu, Option.some_or]
  · intro a ha u
    subst ha
    rw [foreignIn?_append, h.eq_none_of_ok, Option.none_or]
    exact hf a u

theorem StopsIn.return {x : Except UnknownNode α} (h : StopsIn ns x) (g : α → β) :
    StopsIn ns (x >>= fun a => pure (g a)) := by
  have hbind : StopsIn (ns ++ []) (x >>= fun a => pure (g a)) := h.bind fun a => .ok rfl (g a)
  rwa [List.append_nil] at hbind

theorem StopsIn.forM {xs : List α} {f : α → List Expr} {g : α → Except UnknownNode Unit}
    (h : ∀ x ∈ xs, StopsIn (f x) (g x)) : StopsIn (xs.flatMap f) (xs.forM g) := by
  induction xs with
  | nil => exact .ok rfl ()
  | cons x xs ih =>
    rw [List.flatMap_cons]
    have hx : StopsIn (f x) (g x) := h x List.mem_cons_self
    exact hx.bind fun _ => ih fun y hy => h y (List.mem_cons_of_mem x hy)

theorem stopsIn_surface (e : Expr) : StopsIn e.nodes e.surface := by
  induction e with
  | num value => exact .ok (foreignIn?_cons rfl []) _
  | bool value => exact .ok (foreignIn?_cons rfl []) _
  | var x => exact .ok (foreignIn?_cons rfl []) _
  | letIn x value body ihv ihb =>
    exact (ihv.bind fun _ => ihb.return _).cons rfl
  | binary op left right ihl ihr =>
    exact (ihl.bind fun _ => ihr.return _).cons rfl
  | cond condition thenBranch elseBranch ihc iha ihb =>
    exact (ihc.bind fun _ => iha.bind fun _ => ihb.return _).cons rfl
  | lam x paramType body ih => exact (ih.return _).cons rfl
  | app function argument ihf iha =>
    exact (ihf.bind fun _ => iha.return _).cons rfl
  | letRec name param paramType returnType definition body ihd ihb =>
    exact (ihd.bind fun _ => ihb.return _).cons rfl
  | foreign kind =>
    intro u
    constructor
    · intro hu
      cases hu
      rfl
    · intro hu
      cases hu
      rfl

/-! ### Outlines -/

theorem judge_eq_error_iff {Γ : Context} {e : Expr} {u : UnknownNode} :
    e.judge Γ = .error u ↔ e.infer Γ = .error (.unknown u) := by
  unfold judge
  cases e.infer Γ with
  | ok t => simp
  | error failure => cases failure <;> simp

theorem map_eq_error_iff {x : Except UnknownNode α} {g : α → β} {u : UnknownNode} :
    x.map g = .error u ↔ x = .error u := by
  cases x <;> simp [Except.map]

theorem foreignIn?_of_judge {Γ : Context} {e : Expr} {u : UnknownNode}
    (h : e.judge Γ = .error u) : foreignIn? e.nodes = some u.kind := by
  have haccounts := accounts_infer Γ e
  rw [judge_eq_error_iff.1 h] at haccounts
  exact haccounts

theorem foreignIn?_of_verdict {Γ : Context} {e : Expr} {u : UnknownNode}
    (h : e.verdict Γ = .error u) : foreignIn? e.nodes = some u.kind :=
  foreignIn?_of_judge (map_eq_error_iff.1 h)

/-- Only a binding has scopes that are not known at once, and these fail with its
    value. -/
theorem foreignIn?_of_children {Γ : Context} {e : Expr} {u : UnknownNode}
    (h : e.children Γ = .error u) : foreignIn? e.nodes = some u.kind := by
  cases e with
  | letIn x value body =>
    rcases bind_eq_error_iff.1 h with hscope | ⟨Δ, _, hΔ⟩
    · have hvalue := foreignIn?_of_judge (map_eq_error_iff.1 hscope)
      rw [nodes, foreignIn?_cons rfl, foreignIn?_append, hvalue, Option.some_or]
    · cases hΔ
  | _ => cases h

theorem foreignKind?_of_verdict {Γ : Context} {e : Expr} {verdict : Verdict}
    (h : e.verdict Γ = .ok verdict) : e.foreignKind? = none := by
  cases e with
  | foreign kind => cases h
  | _ => rfl

theorem stopsIn_outlineFrom (Γ : Context) (depth : Nat) (e : Expr) :
    StopsIn e.nodes (e.outlineFrom .full Γ depth).outcome := by
  induction e using induction_on_children generalizing Γ depth with
  | step e ih =>
    rw [outcome_outlineFrom_full]
    apply StopsIn.after (fun u => foreignIn?_of_verdict)
    intro verdict hverdict
    apply StopsIn.after (fun u => foreignIn?_of_children)
    intro children hchildren
    rw [nodes_eq_of_children hchildren]
    apply StopsIn.cons _ (foreignKind?_of_verdict hverdict)
    apply StopsIn.forM
    intro child _
    exact ih child child.scope (depth + 1)

end Visits

/-! ### Agreement -/

/-- **Foreign nodes are treated alike.** An expression with a type has no foreign node.
    Where inference meets an unknown node, it is the first foreign one, and where it
    rejects, the node it points at is part of the expression and can be written. The
    surface form and the full outline fail exactly when there is a foreign node, and
    then at the first one, whatever inference finds before it. -/
theorem foreign_nodes_agree (Γ : Context) (e : Expr) :
    (∀ t, e.infer Γ = .ok t → e.ForeignFree) ∧
    (∀ u, e.infer Γ = .error (.unknown u) →
      ∃ kind, e.firstForeign? = some kind ∧
        u.message = "Unknown expression node: " ++ kind) ∧
    (∀ r, e.infer Γ = .error (.rejected r) →
      ∃ n ∈ e.nodes, r.node = some n ∧ n.ForeignFree ∧ ∃ text, n.surface = .ok text) ∧
    (∀ u, e.surface = .error u ↔ e.firstForeign? = some u.kind) ∧
    (∀ u, (e.outline .full Γ).outcome = .error u ↔ e.firstForeign? = some u.kind) := by
  have haccounts := accounts_infer Γ e
  refine ⟨?_, ?_, ?_, stopsIn_surface e, stopsIn_outlineFrom Γ 0 e⟩
  · intro t ht
    rw [ht] at haccounts
    exact foreignFree_iff.2 haccounts
  · intro u hu
    rw [hu] at haccounts
    exact ⟨u.kind, haccounts, rfl⟩
  · intro r hr
    rw [hr] at haccounts
    obtain ⟨n, hn, hnode, hfree⟩ := haccounts
    refine ⟨n, hn, hnode, hfree, ?_⟩
    rcases ok_or_error n.surface with htext | ⟨u, hu⟩
    · exact htext
    · have hfirst := (stopsIn_surface n u).1 hu
      rw [← firstForeign?, foreignFree_iff.1 hfree] at hfirst
      cases hfirst

/-- A sum that breaks a rule before two foreign nodes: inference rejects it and blames
    the boolean, the surface form and the outline report the first foreign node. With
    the sum mended, inference reports that node too. -/
theorem foreign_nodes_agree_cond :
    let broken : Expr := .binary .plus (.num (.int 1)) (.bool true)
    let mended : Expr := .binary .eq (.num (.int 1)) (.num (.int 2))
    let rest : Expr → Expr := fun e => .cond e (.lam "x" .number (.foreign "Hole")) (.foreign "Gap")
    mended.ForeignFree ∧
      (∃ n ∈ (rest broken).nodes, n = .bool true ∧ n.ForeignFree ∧ ∃ s, n.surface = .ok s) ∧
      (rest broken).surface = .error ⟨"Hole"⟩ ∧
      ((rest broken).outline .full .empty).outcome = .error ⟨"Hole"⟩ ∧
      (rest mended).infer .empty = .error (.unknown ⟨"Hole"⟩) ∧
      (rest mended).firstForeign? = some "Hole" := by
  intro broken mended rest
  obtain ⟨htyped, _⟩ := foreign_nodes_agree .empty mended
  obtain ⟨_, _, hrejected, hsurface, houtline⟩ := foreign_nodes_agree .empty (rest broken)
  obtain ⟨_, hunknown, _⟩ := foreign_nodes_agree .empty (rest mended)
  refine ⟨htyped .boolean rfl, ?_, (hsurface ⟨"Hole"⟩).2 rfl, (houtline ⟨"Hole"⟩).2 rfl, rfl, ?_⟩
  · obtain ⟨n, hn, hnode, hfree⟩ :=
      hrejected ⟨.mismatch .number .boolean, some (.bool true)⟩ rfl
    cases hnode
    exact ⟨.bool true, hn, rfl, hfree⟩
  · obtain ⟨kind, hkind, hmessage⟩ := hunknown ⟨"Hole"⟩ rfl
    cases hkind
    rfl

end Expr

end SimplyTyped
