import SimplyTyped.Proofs.InferenceSteps

/-!
# Where the blame lies

When inference fails, it points at one node. This module says which one without
mentioning the run. A *place* is a node together with the context it is read in
and what its surroundings demand of its type. The parts of a place are places
again, and a path of part numbers leads from the root to a place inside. The
blame lies at a place when everything that stands before it, at every level of the
path, is in order, and something is wrong with the place itself: a variable that
is not bound, a foreign node, or a type that does not meet the demand. Inference
fails exactly when there is such a path, with the fault found at its end, and
there is never a second one.
-/

namespace SimplyTyped

/-! ### Demands -/

inductive Demand where
  | nothing
  | exactly (type : Ty)
  | function
  deriving DecidableEq, Repr

namespace Demand

def Met : Demand → Ty → Prop
  | nothing, _ => True
  | exactly s, t => s = t
  | function, t => ∃ param result, t = .arrow param result

/-- The fault of a node whose type does not meet the demand on it. -/
inductive Unmet (e : Expr) : Demand → Ty → Failure → Prop where
  | mismatch {s t : Ty} : s ≠ t → Unmet e (exactly s) t (.rejected ⟨.mismatch s t, some e⟩)
  | notFunction {t : Ty} :
      (∀ param result, t ≠ .arrow param result) →
      Unmet e function t (.rejected ⟨.notFunction t, some e⟩)

end Demand

/-! ### Places and paths -/

/-- A node, the context it is read in, and the demand on its type. -/
structure Place where
  scope : Context
  node : Expr
  demand : Demand

namespace Place

def type? (Γ : Context) (e : Expr) : Option Ty := (e.infer Γ).toOption

/-- The parts of a place by their number, from left to right. Where the context or
    the demand of a part depends on the type of an earlier part, the later part is
    a place only if that type exists. -/
def part? : Place → Nat → Option Place
  | ⟨Γ, .letIn _ value _, _⟩, 0 => some ⟨Γ, value, .nothing⟩
  | ⟨Γ, .letIn x value body, _⟩, 1 =>
    (type? Γ value).map fun t => ⟨Γ.insert x t, body, .nothing⟩
  | ⟨Γ, .binary .plus left _, _⟩, 0 => some ⟨Γ, left, .exactly .number⟩
  | ⟨Γ, .binary .plus _ right, _⟩, 1 => some ⟨Γ, right, .exactly .number⟩
  | ⟨Γ, .binary .or left _, _⟩, 0 => some ⟨Γ, left, .exactly .boolean⟩
  | ⟨Γ, .binary .or _ right, _⟩, 1 => some ⟨Γ, right, .exactly .boolean⟩
  | ⟨Γ, .binary .eq left _, _⟩, 0 => some ⟨Γ, left, .nothing⟩
  | ⟨Γ, .binary .eq left right, _⟩, 1 =>
    (type? Γ left).map fun t => ⟨Γ, right, .exactly t⟩
  | ⟨Γ, .cond condition _ _, _⟩, 0 => some ⟨Γ, condition, .exactly .boolean⟩
  | ⟨Γ, .cond _ thenBranch _, _⟩, 1 => some ⟨Γ, thenBranch, .nothing⟩
  | ⟨Γ, .cond _ thenBranch elseBranch, _⟩, 2 =>
    (type? Γ thenBranch).map fun t => ⟨Γ, elseBranch, .exactly t⟩
  | ⟨Γ, .lam x paramType body, _⟩, 0 => some ⟨Γ.insert x paramType, body, .nothing⟩
  | ⟨Γ, .app function _, _⟩, 0 => some ⟨Γ, function, .function⟩
  | ⟨Γ, .app function argument, _⟩, 1 =>
    match type? Γ function with
    | some (.arrow param _) => some ⟨Γ, argument, .exactly param⟩
    | _ => none
  | ⟨Γ, .letRec name param paramType returnType definition _, _⟩, 0 =>
    some ⟨(Γ.insert name (.arrow paramType returnType)).insert param paramType, definition,
      .exactly returnType⟩
  | ⟨Γ, .letRec name _ paramType returnType _ body, _⟩, 1 =>
    some ⟨Γ.insert name (.arrow paramType returnType), body, .nothing⟩
  | _, _ => none

def follow? (q : Place) : List Nat → Option Place
  | [] => some q
  | i :: path => (q.part? i).bind fun part => part.follow? path

/-- A place is in order when its node has a type that meets the demand. -/
def Fine (q : Place) : Prop := ∃ t, q.node.infer q.scope = .ok t ∧ q.demand.Met t

/-- The faults of a node that has no parts to blame. -/
inductive Stuck : Place → Failure → Prop where
  | unbound {Γ : Context} {x : String} {d : Demand} :
      Γ.contains x = false → Stuck ⟨Γ, .var x, d⟩ (.rejected ⟨.unbound x, some (.var x)⟩)
  | unknown {Γ : Context} {kind : String} {d : Demand} :
      Stuck ⟨Γ, .foreign kind, d⟩ (.unknown ⟨kind⟩)

/-- Something is wrong with the place itself: its node is stuck, or has a type that
    does not meet the demand. -/
def Breaks (q : Place) (f : Failure) : Prop :=
  q.Stuck f ∨ ∃ t, q.node.infer q.scope = .ok t ∧ q.demand.Unmet q.node t f

/-- The blame for a failure lies at the end of a path: wherever the path goes down
    to a part, all earlier parts are in order, and the last place breaks. -/
def Blamed (q : Place) (path : List Nat) (f : Failure) : Prop :=
  (∀ above i below, path = above ++ i :: below → ∀ j < i,
    ∃ a b, q.follow? above = some a ∧ a.part? j = some b ∧ b.Fine) ∧
  ∃ r, q.follow? path = some r ∧ r.Breaks f

end Place

/-! ### Failing at a place -/

namespace Demand

variable {e : Expr} {s t : Ty} {f : Failure}

theorem not_unmet_nothing : ¬ Unmet e nothing t f := nofun

theorem unmet_exactly_iff : Unmet e (exactly s) t f ↔ e.demand s t = .error f := by
  rw [Expr.demand_eq_error_iff]
  constructor
  · intro h
    rcases h with ⟨h⟩
    exact ⟨h, rfl⟩
  · intro h
    rcases h with ⟨h, rfl⟩
    exact .mismatch h

theorem unmet_function_iff : Unmet e function t f ↔ e.demandArrow t = .error f := by
  rw [Expr.demandArrow_eq_error_iff]
  constructor
  · intro h
    cases h with
    | notFunction hne =>
      refine ⟨?_, rfl⟩
      cases t with
      | arrow param result => exact absurd rfl (hne param result)
      | number => rfl
      | boolean => rfl
  · intro h
    rcases h with ⟨h, rfl⟩
    apply Unmet.notFunction
    intro param result ht
    rw [ht] at h
    cases h

theorem Unmet.unique {d : Demand} {f' : Failure} (h : Unmet e d t f) (h' : Unmet e d t f') :
    f = f' := by
  cases h with
  | mismatch _ =>
    cases h'
    rfl
  | notFunction _ =>
    cases h'
    rfl

end Demand

namespace Place

variable {Γ : Context} {e : Expr} {s : Ty} {f : Failure}

/-- Inference fails at the node of a place, or gives a type that does not meet the
    demand. -/
def Fails (q : Place) (f : Failure) : Prop :=
  q.node.infer q.scope = .error f ∨
    ∃ t, q.node.infer q.scope = .ok t ∧ q.demand.Unmet q.node t f

theorem fails_nothing_iff : Fails ⟨Γ, e, .nothing⟩ f ↔ e.infer Γ = .error f := by
  simp only [Fails, Demand.not_unmet_nothing, and_false, exists_false, or_false]

theorem fails_exactly_iff : Fails ⟨Γ, e, .exactly s⟩ f ↔ e.check Γ s = .error f := by
  simp only [Fails, Demand.unmet_exactly_iff, Expr.check_eq_error_iff]

theorem fails_function_iff :
    Fails ⟨Γ, e, .function⟩ f ↔
      e.infer Γ = .error f ∨ ∃ t, e.infer Γ = .ok t ∧ e.demandArrow t = .error f := by
  simp only [Fails, Demand.unmet_function_iff]

theorem fine_nothing_iff : Fine ⟨Γ, e, .nothing⟩ ↔ ∃ t, e.infer Γ = .ok t := by
  simp only [Fine, Demand.Met, and_true]

theorem fine_exactly_iff : Fine ⟨Γ, e, .exactly s⟩ ↔ e.infer Γ = .ok s := by
  simp only [Fine, Demand.Met, exists_eq_right']

theorem fine_function_iff :
    Fine ⟨Γ, e, .function⟩ ↔ ∃ s t, e.infer Γ = .ok (.arrow s t) := by
  constructor
  · intro h
    rcases h with ⟨_, he, s, t, rfl⟩
    exact ⟨s, t, he⟩
  · intro h
    rcases h with ⟨s, t, he⟩
    exact ⟨_, he, s, t, rfl⟩

theorem type?_eq_some_iff {t : Ty} : type? Γ e = some t ↔ e.infer Γ = .ok t := by
  unfold type?
  cases e.infer Γ <;> simp [Except.toOption]

theorem Fine.not_fails {q : Place} (h : q.Fine) : ¬ q.Fails f := by
  obtain ⟨t, ht, hmet⟩ := h
  intro h
  rcases h with herror | ⟨t', ht', hunmet⟩
  · rw [ht] at herror
    cases herror
  · rw [ht] at ht'
    cases ht'
    cases hd : q.demand with
    | nothing =>
      rw [hd] at hunmet
      cases hunmet
    | exactly s =>
      rw [hd] at hmet hunmet
      cases hunmet with
      | mismatch hne => exact hne hmet
    | function =>
      rw [hd] at hmet hunmet
      obtain ⟨param, result, rfl⟩ := hmet
      cases hunmet with
      | notFunction hne => exact hne param result rfl

/-! ### The first part that fails -/

/-- Some place of a sequence fails and all places before it are in order. -/
def FirstFailure (parts : Nat → Option Place) (f : Failure) : Prop :=
  ∃ i part, (∀ j < i, ∃ before, parts j = some before ∧ before.Fine) ∧
    parts i = some part ∧ part.Fails f

theorem firstFailure_iff {parts : Nat → Option Place} :
    FirstFailure parts f ↔
      (∃ part, parts 0 = some part ∧ part.Fails f) ∨
      (∃ before, parts 0 = some before ∧ before.Fine) ∧
        FirstFailure (fun i => parts (i + 1)) f := by
  constructor
  · intro h
    rcases h with ⟨i, part, hbefore, hpart, hfails⟩
    cases i with
    | zero => exact .inl ⟨part, hpart, hfails⟩
    | succ i =>
      refine .inr ⟨hbefore 0 (Nat.zero_lt_succ i), i, part, ?_, hpart, hfails⟩
      exact fun j hj => hbefore (j + 1) (Nat.succ_lt_succ hj)
  · intro h
    rcases h with ⟨part, hpart, hfails⟩ | ⟨hzero, i, part, hbefore, hpart, hfails⟩
    · exact ⟨0, part, fun j hj => absurd hj (Nat.not_lt_zero j), hpart, hfails⟩
    · refine ⟨i + 1, part, ?_, hpart, hfails⟩
      intro j hj
      cases j with
      | zero => exact hzero
      | succ j => exact hbefore j (Nat.lt_of_succ_lt_succ hj)

theorem not_firstFailure_none : ¬ FirstFailure (fun _ => none) f := by
  intro h
  rcases h with ⟨_, _, _, hpart, _⟩
  cases hpart

theorem firstFailure_cons {parts : Nat → Option Place} {a : Place} (ha : parts 0 = some a) :
    FirstFailure parts f ↔ a.Fails f ∨ a.Fine ∧ FirstFailure (fun i => parts (i + 1)) f := by
  rw [firstFailure_iff]
  simp only [ha, Option.some.injEq, exists_eq_left']

theorem firstFailure_last {parts : Nat → Option Place} (hend : ∀ i, parts (i + 1) = none) :
    FirstFailure parts f ↔ ∃ a, parts 0 = some a ∧ a.Fails f := by
  rw [firstFailure_iff, funext hend]
  simp only [not_firstFailure_none, and_false, or_false]

theorem firstFailure_single {parts : Nat → Option Place} {a : Place} (ha : parts 0 = some a)
    (hend : ∀ i, parts (i + 1) = none) : FirstFailure parts f ↔ a.Fails f := by
  rw [firstFailure_last hend]
  simp only [ha, Option.some.injEq, exists_eq_left']

/-- An earlier part is in order and so has a type, and the last part is placed
    according to it. -/
theorem fine_and_firstFailure_dependent {parts : Nat → Option Place} {next : Ty → Place}
    (hnext : parts 0 = (type? Γ e).map next) (hend : ∀ i, parts (i + 1) = none) :
    Fine ⟨Γ, e, .nothing⟩ ∧ FirstFailure parts f ↔ ∃ t, e.infer Γ = .ok t ∧ (next t).Fails f := by
  rw [fine_nothing_iff, firstFailure_last hend]
  simp only [hnext, Option.map_eq_some_iff, type?_eq_some_iff]
  constructor
  · intro h
    rcases h with ⟨_, _, ⟨t, ht, rfl⟩, hfails⟩
    exact ⟨t, ht, hfails⟩
  · intro h
    rcases h with ⟨t, ht, hfails⟩
    exact ⟨⟨t, ht⟩, next t, ⟨t, ht, rfl⟩, hfails⟩

theorem leaf_eq_error_iff {d : Demand} (hleaf : part? ⟨Γ, e, d⟩ = fun _ => none)
    (hstuck : e.infer Γ = .error f ↔ Stuck ⟨Γ, e, d⟩ f) :
    e.infer Γ = .error f ↔ Stuck ⟨Γ, e, d⟩ f ∨ FirstFailure (part? ⟨Γ, e, d⟩) f := by
  rw [hleaf, hstuck]
  simp only [not_firstFailure_none, or_false]

theorem var_eq_error_iff {x : String} {d : Demand} :
    (Expr.var x).infer Γ = .error f ↔ Stuck ⟨Γ, .var x, d⟩ f := by
  have hcontains : Γ.contains x = false ↔ Γ.get? x = none := by simp [Context.contains]
  rw [Expr.infer, Context.resolve_eq_error_iff, ← hcontains]
  constructor
  · intro h
    rcases h with ⟨hx, rfl⟩
    exact .unbound hx
  · intro h
    rcases h with ⟨hx⟩
    exact ⟨‹_›, rfl⟩

theorem part?_argument {function argument : Expr} {d : Demand} {t : Ty}
    (hf : function.infer Γ = .ok (.arrow s t)) :
    part? ⟨Γ, .app function argument, d⟩ 1 = some ⟨Γ, argument, .exactly s⟩ := by
  simp only [part?, type?_eq_some_iff.2 hf]

/-- **One step of inference.** Inference fails at a node exactly when the node is
    stuck or has a first part that fails. -/
theorem infer_eq_error_iff {q : Place} :
    q.node.infer q.scope = .error f ↔ q.Stuck f ∨ FirstFailure q.part? f := by
  obtain ⟨Γ, e, d⟩ := q
  cases e with
  | num n => exact leaf_eq_error_iff rfl ⟨nofun, nofun⟩
  | bool b => exact leaf_eq_error_iff rfl ⟨nofun, nofun⟩
  | var x => exact leaf_eq_error_iff rfl var_eq_error_iff
  | foreign kind =>
    refine leaf_eq_error_iff rfl ⟨?_, ?_⟩
    · intro h
      cases h
      exact .unknown
    · intro h
      cases h
      rfl
  | letIn x value body =>
    have hstuck : ¬ Stuck ⟨Γ, .letIn x value body, d⟩ f := nofun
    rw [or_iff_right hstuck, firstFailure_cons rfl,
      fine_and_firstFailure_dependent rfl fun _ => rfl]
    simp only [fails_nothing_iff, Expr.infer_letIn_eq_error_iff]
  | binary op left right =>
    have hstuck : ¬ Stuck ⟨Γ, .binary op left right, d⟩ f := nofun
    rw [or_iff_right hstuck]
    cases op with
    | plus =>
      rw [firstFailure_cons rfl, firstFailure_single rfl fun _ => rfl]
      simp only [fails_exactly_iff, fine_exactly_iff]
      exact Expr.infer_binary_eq_error_iff rfl
    | or =>
      rw [firstFailure_cons rfl, firstFailure_single rfl fun _ => rfl]
      simp only [fails_exactly_iff, fine_exactly_iff]
      exact Expr.infer_binary_eq_error_iff rfl
    | eq =>
      rw [firstFailure_cons rfl, fine_and_firstFailure_dependent rfl fun _ => rfl]
      simp only [fails_exactly_iff, fails_nothing_iff, Expr.infer_eq_operator_eq_error_iff]
  | cond condition thenBranch elseBranch =>
    have hstuck : ¬ Stuck ⟨Γ, .cond condition thenBranch elseBranch, d⟩ f := nofun
    rw [or_iff_right hstuck, firstFailure_cons rfl, firstFailure_cons rfl,
      fine_and_firstFailure_dependent rfl fun _ => rfl]
    simp only [fails_exactly_iff, fails_nothing_iff, fine_exactly_iff,
      Expr.infer_cond_eq_error_iff]
  | lam x paramType body =>
    have hstuck : ¬ Stuck ⟨Γ, .lam x paramType body, d⟩ f := nofun
    rw [or_iff_right hstuck, firstFailure_single rfl fun _ => rfl, fails_nothing_iff]
    exact Expr.infer_lam_eq_error_iff
  | app function argument =>
    have hstuck : ¬ Stuck ⟨Γ, .app function argument, d⟩ f := nofun
    rw [or_iff_right hstuck, firstFailure_cons rfl, firstFailure_last fun _ => rfl]
    rw [fails_function_iff, fine_function_iff, Expr.infer_app_eq_error_iff]
    -- The argument is a place only once the callee has an arrow type.
    refine or_congr_right ⟨?_, ?_⟩
    · intro h
      rcases h with ⟨s, t, hf, ha⟩
      exact ⟨⟨s, t, hf⟩, _, part?_argument hf, fails_exactly_iff.2 ha⟩
    · intro h
      rcases h with ⟨⟨s, t, hf⟩, a, hpart, hfails⟩
      cases (part?_argument hf).symm.trans hpart
      exact ⟨s, t, hf, fails_exactly_iff.1 hfails⟩
  | letRec name param paramType returnType definition body =>
    have hstuck : ¬ Stuck ⟨Γ, .letRec name param paramType returnType definition body, d⟩ f :=
      nofun
    rw [or_iff_right hstuck, firstFailure_cons rfl, firstFailure_single rfl fun _ => rfl]
    simp only [fails_exactly_iff, fails_nothing_iff, fine_exactly_iff,
      Expr.infer_letRec_eq_error_iff]

/-! ### Paths to the blame -/

theorem sizeOf_part?_lt {q r : Place} {i : Nat} (h : q.part? i = some r) :
    sizeOf r.node < sizeOf q.node := by
  revert h
  fun_cases part? q i <;>
    grind [Option.map_eq_some_iff, Expr.letIn.sizeOf_spec, Expr.binary.sizeOf_spec,
      Expr.cond.sizeOf_spec, Expr.lam.sizeOf_spec, Expr.app.sizeOf_spec, Expr.letRec.sizeOf_spec]

theorem blamed_nil_iff {q : Place} : q.Blamed [] f ↔ q.Breaks f := by
  constructor
  · intro h
    rcases h with ⟨_, r, hr, hbreaks⟩
    cases hr
    exact hbreaks
  · intro hbreaks
    refine ⟨?_, q, rfl, hbreaks⟩
    intro above i below h
    simp at h

/-- A path goes down to one part after parts that are in order, and leads on from
    there to the blame. -/
theorem blamed_cons_iff {q : Place} {i : Nat} {path : List Nat} :
    q.Blamed (i :: path) f ↔
      (∀ j < i, ∃ before, q.part? j = some before ∧ before.Fine) ∧
        ∃ part, q.part? i = some part ∧ part.Blamed path f := by
  constructor
  · intro h
    rcases h with ⟨hbefore, r, hr, hbreaks⟩
    obtain ⟨part, hpart, hfollow⟩ := Option.bind_eq_some_iff.1 hr
    refine ⟨?_, part, hpart, ?_, r, hfollow, hbreaks⟩
    · intro j hj
      obtain ⟨a, b, ha, hb, hfine⟩ := hbefore [] i path rfl j hj
      cases ha
      exact ⟨b, hb, hfine⟩
    · intro above k below hpath j hj
      subst hpath
      obtain ⟨a, b, ha, hb, hfine⟩ := hbefore (i :: above) k below rfl j hj
      rw [follow?, hpart] at ha
      exact ⟨a, b, ha, hb, hfine⟩
  · intro h
    rcases h with ⟨hearlier, part, hpart, hbefore, r, hr, hbreaks⟩
    refine ⟨?_, r, ?_, hbreaks⟩
    · intro above k below h j hj
      cases above with
      | nil =>
        obtain ⟨rfl, rfl⟩ := List.cons.inj h
        obtain ⟨b, hb, hfine⟩ := hearlier j hj
        exact ⟨q, b, rfl, hb, hfine⟩
      | cons i' above =>
        obtain ⟨rfl, rfl⟩ := List.cons.inj h
        obtain ⟨a, b, ha, hb, hfine⟩ := hbefore above k below rfl j hj
        refine ⟨a, b, ?_, hb, hfine⟩
        rw [follow?, hpart]
        exact ha
    · rw [follow?, hpart]
      exact hr

/-- A place fails exactly when some path leads to the blame. -/
theorem fails_iff_blamed {q : Place} : q.Fails f ↔ ∃ path, q.Blamed path f := by
  -- By recursion on the size of the node: the context changes on the way down, so the
  -- statement is about all places at once.
  have hstep : q.Fails f ↔ q.Breaks f ∨ FirstFailure q.part? f := by
    rw [Fails, infer_eq_error_iff, Breaks, or_right_comm]
  rw [hstep]
  constructor
  · intro h
    rcases h with hbreaks | ⟨i, part, hbefore, hpart, hfails⟩
    · exact ⟨[], blamed_nil_iff.2 hbreaks⟩
    · have hsmaller := sizeOf_part?_lt hpart
      obtain ⟨path, hblamed⟩ := fails_iff_blamed.1 hfails
      exact ⟨i :: path, blamed_cons_iff.2 ⟨hbefore, part, hpart, hblamed⟩⟩
  · intro h
    rcases h with ⟨path, hblamed⟩
    cases path with
    | nil => exact .inl (blamed_nil_iff.1 hblamed)
    | cons i path =>
      obtain ⟨hbefore, part, hpart, hblamed⟩ := blamed_cons_iff.1 hblamed
      have hsmaller := sizeOf_part?_lt hpart
      exact .inr ⟨i, part, hbefore, hpart, fails_iff_blamed.2 ⟨path, hblamed⟩⟩
termination_by sizeOf q.node

/-! ### The blame is unique -/

theorem Fails.unique {q : Place} {f' : Failure} (h : q.Fails f) (h' : q.Fails f') : f = f' := by
  rcases h with h | ⟨t, ht, hunmet⟩
  · rcases h' with h' | ⟨t', ht', _⟩
    · rw [h] at h'
      exact Except.error.inj h'
    · rw [h] at ht'
      cases ht'
  · rcases h' with h' | ⟨t', ht', hunmet'⟩
    · rw [ht] at h'
      cases h'
    · rw [ht] at ht'
      cases ht'
      exact hunmet.unique hunmet'

theorem FirstFailure.not_breaks {q : Place} {f' : Failure} (h : FirstFailure q.part? f) :
    ¬ q.Breaks f' := by
  intro h
  rcases h with hstuck | ⟨t, ht, _⟩
  · cases hstuck with
    | unbound _ => exact not_firstFailure_none h
    | unknown => exact not_firstFailure_none h
  · have herror := infer_eq_error_iff.2 (.inr h)
    rw [ht] at herror
    cases herror

theorem Blamed.firstFailure {q : Place} {i : Nat} {path : List Nat}
    (h : q.Blamed (i :: path) f) : FirstFailure q.part? f := by
  obtain ⟨hbefore, part, hpart, hblamed⟩ := blamed_cons_iff.1 h
  exact ⟨i, part, hbefore, hpart, fails_iff_blamed.2 ⟨path, hblamed⟩⟩

theorem Blamed.path_unique {q : Place} {path path' : List Nat} {f' : Failure}
    (h : q.Blamed path f) (h' : q.Blamed path' f') : path = path' := by
  induction path generalizing q path' with
  | nil =>
    cases path' with
    | nil => rfl
    | cons i' path' => exact absurd (blamed_nil_iff.1 h) h'.firstFailure.not_breaks
  | cons i path ih =>
    cases path' with
    | nil => exact absurd (blamed_nil_iff.1 h') h.firstFailure.not_breaks
    | cons i' path' =>
      obtain ⟨hbefore, part, hpart, hblamed⟩ := blamed_cons_iff.1 h
      obtain ⟨hbefore', part', hpart', hblamed'⟩ := blamed_cons_iff.1 h'
      -- Where two paths part, one goes through a place that the other needs in order.
      rcases Nat.lt_trichotomy i i' with hlt | rfl | hlt
      · obtain ⟨before, hb, hfine⟩ := hbefore' i hlt
        cases hpart.symm.trans hb
        exact absurd (fails_iff_blamed.2 ⟨path, hblamed⟩) hfine.not_fails
      · cases hpart.symm.trans hpart'
        rw [ih hblamed hblamed']
      · obtain ⟨before, hb, hfine⟩ := hbefore i' hlt
        cases hpart'.symm.trans hb
        exact absurd (fails_iff_blamed.2 ⟨path', hblamed'⟩) hfine.not_fails

/-- **The first fault is reported, where it is.** Inference and checking fail with
    exactly the failure that some path leads to; they succeed exactly when no path
    leads to a failure; and there is at most one such path. -/
theorem infer_check_eq_error_iff_blamed (Γ : Context) (e : Expr) :
    (∀ f, e.infer Γ = .error f ↔ ∃ path, Blamed ⟨Γ, e, .nothing⟩ path f) ∧
    (∀ s f, e.check Γ s = .error f ↔ ∃ path, Blamed ⟨Γ, e, .exactly s⟩ path f) ∧
    ((∃ t, e.infer Γ = .ok t) ↔ ∀ path f, ¬ Blamed ⟨Γ, e, .nothing⟩ path f) ∧
    ∀ d path path' f f', Blamed ⟨Γ, e, d⟩ path f → Blamed ⟨Γ, e, d⟩ path' f' →
      path = path' ∧ f = f' := by
  have hinfer : ∀ f, e.infer Γ = .error f ↔ ∃ path, Blamed ⟨Γ, e, .nothing⟩ path f :=
    fun f => fails_nothing_iff.symm.trans fails_iff_blamed
  refine ⟨hinfer, fun s f => fails_exactly_iff.symm.trans fails_iff_blamed, ⟨?_, ?_⟩, ?_⟩
  · intro hok path f hblamed
    obtain ⟨t, ht⟩ := hok
    have herror := (hinfer f).2 ⟨path, hblamed⟩
    rw [ht] at herror
    cases herror
  · intro hnone
    rcases ok_or_error (e.infer Γ) with hok | ⟨f, herror⟩
    · exact hok
    · obtain ⟨path, hblamed⟩ := (hinfer f).1 herror
      exact absurd hblamed (hnone path f)
  · intro d path path' f f' h h'
    have hfails : Fails ⟨Γ, e, d⟩ f := fails_iff_blamed.2 ⟨path, h⟩
    have hfails' : Fails ⟨Γ, e, d⟩ f' := fails_iff_blamed.2 ⟨path', h'⟩
    exact ⟨h.path_unique h', hfails.unique hfails'⟩

/-- Two faults, a boolean that is called and an unbound variable after it: the
    boolean is blamed, at the only path that leads to any blame. -/
theorem infer_check_eq_error_iff_blamed_call :
    let e : Expr := .letIn "x" (.num (.int 1))
      (.binary .eq (.var "x") (.app (.bool true) (.var "y")))
    let f : Failure := .rejected ⟨.notFunction .boolean, some (.bool true)⟩
    Blamed ⟨.empty, e, .nothing⟩ [1, 1, 0] f ∧ e.infer .empty = .error f ∧
      ∀ path f', Blamed ⟨.empty, e, .nothing⟩ path f' → path = [1, 1, 0] ∧ f' = f := by
  intro e f
  obtain ⟨hinfer, _, _, hunique⟩ := infer_check_eq_error_iff_blamed .empty e
  have hblamed : Blamed ⟨.empty, e, .nothing⟩ [1, 1, 0] f := by
    refine blamed_cons_iff.2 ⟨?_, _, rfl, blamed_cons_iff.2 ⟨?_, _, rfl, ?_⟩⟩
    · intro j hj
      cases Nat.lt_one_iff.1 hj
      exact ⟨_, rfl, .number, rfl, trivial⟩
    · intro j hj
      cases Nat.lt_one_iff.1 hj
      exact ⟨_, rfl, .number, rfl, trivial⟩
    · refine blamed_cons_iff.2 ⟨nofun, _, rfl, blamed_nil_iff.2 (.inr ⟨.boolean, rfl, ?_⟩)⟩
      exact .notFunction nofun
  refine ⟨hblamed, (hinfer f).2 ⟨_, hblamed⟩, ?_⟩
  intro path f' h
  exact hunique .nothing path [1, 1, 0] f' f h hblamed

end Place

end SimplyTyped
