import SimplyTyped.Proofs.Annotations
import SimplyTyped.Proofs.FreeVariables
import SimplyTyped.Proofs.Nameless

/-!
# Outlines and lexical scope

An outline goes on below nodes without a type, also into the body of a binding whose
value has none. Such a binding hands the outer context to its body as it is, so its
name is read past it wherever the outer context binds the name: the name is *exposed*
there. A name whose binding depends on an exposed one in its value is exposed as well.

Apart from that, the outline respects lexical scope. Where no free variable of a node
is exposed, its annotation depends on the nameless form of the whole expression only,
and does not change when bound variables are renamed. A variable whose nearest binder
gives it a type is always annotated with that type.
-/

namespace SimplyTyped

/-! ### Binders around a site -/

structure Binder where
  name : String
  /-- The type that the binder gives to its name, if it gives one. -/
  type? : Option Ty
  /-- Whether the name is read past the binder, or depends on a name that is. -/
  exposed : Bool

namespace Binder

/-- The nearest binder of a name, where binders are listed from the nearest one
    outwards. -/
def nearest? (around : List Binder) (x : String) : Option Binder :=
  around.find? fun binder => binder.name = x

def exposes (around : List Binder) (x : String) : Bool := (nearest? around x).any Binder.exposed

/-- The binder that a binding is to its body. -/
def ofLetIn (around : List Binder) (Γ : Context) (x : String) (value : Expr) : Binder :=
  let type? := Site.type? ⟨Γ, value⟩
  ⟨x, type?, value.freeVars.any (exposes around) || type?.isNone && Γ.contains x⟩

end Binder

namespace Site

/-- The binders around a part of a site, by its number. -/
def bindersOf (s : Site) (around : List Binder) (i : Nat) : List Binder :=
  match s.node, i with
  | .letIn x value _, 1 => .ofLetIn around s.scope x value :: around
  | .lam x paramType _, 0 => ⟨x, some paramType, false⟩ :: around
  | .letRec name param paramType returnType _ _, 0 =>
    ⟨param, some paramType, false⟩ :: ⟨name, some (.arrow paramType returnType), false⟩ :: around
  | .letRec name _ paramType returnType _ _, 1 =>
    ⟨name, some (.arrow paramType returnType), false⟩ :: around
  | _, _ => around

/-- The binders around the site at a path. -/
def bindersAt (s : Site) (around : List Binder) : List Nat → List Binder
  | [] => around
  | i :: path =>
    match s.parts[i]? with
    | some part => part.bindersAt (s.bindersOf around i) path
    | none => around

end Site

/-! ### Types of nameless forms -/

/-- The types that binders give, where some give none. -/
abbrev BinderTypes? (n : Nat) := Fin n → Option Ty

def BinderTypes?.push {n : Nat} (type? : Option Ty) (ts : BinderTypes? n) : BinderTypes? (n + 1) :=
  Fin.cases type? ts

/-- The type of a nameless form, if it has one. The context is that of the free names. -/
def Nameless.type? (Γ : Context) : {n : Nat} → BinderTypes? n → Nameless n → Option Ty
  | _, _, num _ => some .number
  | _, _, bool _ => some .boolean
  | _, ts, bound binder => ts binder
  | _, _, free x => Γ.get? x
  | _, ts, letIn value body => do
    let t ← value.type? Γ ts
    body.type? Γ (ts.push (some t))
  | _, ts, binary op left right => do
    let leftType ← left.type? Γ ts
    ((op.operandType?.getD leftType).agree leftType).toOption
    let rightType ← right.type? Γ ts
    ((op.operandType?.getD leftType).agree rightType).toOption
    return op.resultType
  | _, ts, cond condition thenBranch elseBranch => do
    let conditionType ← condition.type? Γ ts
    (Ty.boolean.agree conditionType).toOption
    let thenType ← thenBranch.type? Γ ts
    let elseType ← elseBranch.type? Γ ts
    (thenType.agree elseType).toOption
    return thenType
  | _, ts, lam paramType body => do
    let t ← body.type? Γ (ts.push (some paramType))
    return .arrow paramType t
  | _, ts, app function argument => do
    let functionType ← function.type? Γ ts
    let (param, result) ← functionType.takeApart.toOption
    let argumentType ← argument.type? Γ ts
    (param.agree argumentType).toOption
    return result
  | _, ts, letRec paramType returnType definition body => do
    let us := ts.push (some (.arrow paramType returnType))
    let definitionType ← definition.type? Γ (us.push (some paramType))
    (returnType.agree definitionType).toOption
    body.type? Γ us
  | _, _, foreign _ => none

/-- The type of a name in lexical scope: that of its nearest binder, or that of the
    context if it has no binder. -/
def lexicalType? (Γ : Context) (binders : List String) (ts : BinderTypes? binders.length)
    (x : String) : Option Ty :=
  match binder? binders x with
  | some i => ts i
  | none => Γ.get? x

section Lexical

variable {Γ Δ : Context} {binders : List String} {ts : BinderTypes? binders.length}

theorem lexicalType?_self (x : String) (type? : Option Ty) :
    lexicalType? Γ (x :: binders) (ts.push type?) x = type? := by
  simp only [lexicalType?, binder?, if_true]
  rfl

theorem lexicalType?_of_ne {x y : String} (h : y ≠ x) (type? : Option Ty) :
    lexicalType? Γ (x :: binders) (ts.push type?) y = lexicalType? Γ binders ts y := by
  simp only [lexicalType?, binder?, if_neg h]
  cases binder? binders y <;> rfl

/-- The context reads names like lexical scope, as far as the given names go. -/
def ReadsLexically (Γ : Context) (binders : List String) (ts : BinderTypes? binders.length)
    (Δ : Context) (names : List String) : Prop :=
  ∀ x ∈ names, Δ.get? x = lexicalType? Γ binders ts x

theorem ReadsLexically.push {names : List String} {x : String}
    (h : ReadsLexically Γ binders ts Δ (names.filter (· ≠ x))) (t : Ty) :
    ReadsLexically Γ (x :: binders) (ts.push (some t)) (Δ.insert x t) names := by
  intro y hy
  rw [Context.get?_insert]
  by_cases hyx : y = x
  · subst hyx
    rw [if_pos rfl, lexicalType?_self]
  · rw [if_neg hyx, lexicalType?_of_ne hyx]
    apply h y
    simp [hy, hyx]

theorem toOption_bind {α β : Type} (x : Except Failure α) (f : α → Except Failure β) :
    (x >>= f).toOption = x.toOption >>= fun a => (f a).toOption := by
  cases x <;> rfl

theorem toOption_mapError {α : Type} (g : Failure → Failure) (x : Except Failure α) :
    (x.mapError g).toOption = x.toOption := by
  cases x <;> rfl

theorem toOption_pure {α : Type} (a : α) : (pure a : Except Failure α).toOption = pure a := rfl

/-- An expression has the type of its nameless form in every context that reads its
    free variables lexically. -/
theorem type?_nameless {e : Expr} (h : ReadsLexically Γ binders ts Δ e.freeVars) :
    (e.nameless binders).type? Γ ts = (e.outcome Δ).toOption := by
  induction e generalizing Δ binders with
  | num value => rfl
  | bool value => rfl
  | foreign kind => rfl
  | var x =>
    have hx : Δ.get? x = lexicalType? Γ binders ts x := h x (List.mem_singleton_self x)
    have hvar : ((Expr.var x).nameless binders).type? Γ ts = lexicalType? Γ binders ts x := by
      rw [Expr.nameless, lexicalType?]
      cases binder? binders x <;> rfl
    rw [hvar, ← hx, Expr.outcome_var, Context.lookup]
    cases Δ.get? x <;> rfl
  | letIn x value body ihv ihb =>
    obtain ⟨hvalue, hbody⟩ := List.forall_mem_append.1 h
    rw [Expr.outcome_letIn, toOption_bind, Expr.nameless, Nameless.type?, ihv hvalue]
    apply bind_congr
    intro t
    exact ihb (ReadsLexically.push hbody t)
  | binary op left right ihl ihr =>
    obtain ⟨hleft, hright⟩ := List.forall_mem_append.1 h
    rw [Expr.outcome_binary, Expr.nameless, Nameless.type?, ihl hleft, ihr hright]
    simp only [toOption_bind, toOption_pure, bind_assoc]
  | cond condition thenBranch elseBranch ihc iha ihb =>
    obtain ⟨hrest, helse⟩ := List.forall_mem_append.1 h
    obtain ⟨hcondition, hthen⟩ := List.forall_mem_append.1 hrest
    rw [Expr.outcome_cond, Expr.nameless, Nameless.type?, ihc hcondition, iha hthen, ihb helse]
    simp only [toOption_bind, toOption_pure, bind_assoc]
  | lam x paramType body ih =>
    rw [Expr.outcome_lam, Expr.nameless, Nameless.type?, ih (ReadsLexically.push h paramType)]
    simp only [toOption_bind, toOption_pure]
  | app function argument ihf iha =>
    obtain ⟨hfunction, hargument⟩ := List.forall_mem_append.1 h
    rw [Expr.outcome_app, Expr.nameless, Nameless.type?, ihf hfunction, iha hargument]
    simp only [toOption_bind, toOption_pure, bind_assoc]
  | letRec name param paramType returnType definition body ihd ihb =>
    obtain ⟨hdefinition, hbody⟩ := List.forall_mem_append.1 h
    have hself := ReadsLexically.push hbody (.arrow paramType returnType)
    have hname := ReadsLexically.push hdefinition (.arrow paramType returnType)
    rw [Expr.outcome_letRec, Expr.nameless, Nameless.type?, ihd (hname.push paramType), ihb hself]
    simp only [toOption_bind, bind_assoc]

end Lexical

/-! ### Contexts below binders -/

namespace Binder

theorem nearest?_self (binder : Binder) (around : List Binder) :
    nearest? (binder :: around) binder.name = some binder := by
  simp [nearest?]

theorem nearest?_of_ne {binder : Binder} {y : String} (h : y ≠ binder.name)
    (around : List Binder) : nearest? (binder :: around) y = nearest? around y := by
  simp [nearest?, h.symm]

end Binder

/-- The context `Δ` is what the outline makes of `Γ` below the given binders: a name that
    is not exposed has its lexical type, and a name whose nearest binder gives a type has
    that type in any case. -/
structure Lexical (Γ : Context) (around : List Binder)
    (ts : BinderTypes? (around.map Binder.name).length) (Δ : Context) : Prop where
  unexposed : ∀ x, Binder.exposes around x = false →
    Δ.get? x = lexicalType? Γ (around.map Binder.name) ts x
  typed : ∀ x binder t, Binder.nearest? around x = some binder → binder.type? = some t →
    Δ.get? x = some t

namespace Lexical

variable {Γ Δ : Context} {around : List Binder}
  {ts : BinderTypes? (around.map Binder.name).length}

theorem nil (Γ : Context) : Lexical Γ [] Fin.elim0 Γ := ⟨fun _ _ => rfl, nofun⟩

/-- Going below a binder changes the reading of its name only. -/
theorem push (h : Lexical Γ around ts Δ) {binder : Binder} {type? : Option Ty} {Δ' : Context}
    (hother : ∀ y, y ≠ binder.name → Δ'.get? y = Δ.get? y)
    (hself : binder.exposed = false → Δ'.get? binder.name = type?)
    (htyped : ∀ t, binder.type? = some t → Δ'.get? binder.name = some t) :
    Lexical Γ (binder :: around) (ts.push type?) Δ' where
  unexposed := by
    intro y hy
    by_cases hname : y = binder.name
    · subst hname
      rw [Binder.exposes, Binder.nearest?_self] at hy
      exact (hself hy).trans (lexicalType?_self binder.name type?).symm
    · rw [Binder.exposes, Binder.nearest?_of_ne hname] at hy
      rw [hother y hname, h.unexposed y hy]
      exact (lexicalType?_of_ne hname type?).symm
  typed := by
    intro y nearest t hnearest ht
    by_cases hname : y = binder.name
    · subst hname
      rw [Binder.nearest?_self] at hnearest
      cases hnearest
      exact htyped t ht
    · rw [Binder.nearest?_of_ne hname] at hnearest
      rw [hother y hname]
      exact h.typed y nearest t hnearest ht

theorem insert (h : Lexical Γ around ts Δ) (x : String) (t : Ty) :
    Lexical Γ (⟨x, some t, false⟩ :: around) (ts.push (some t)) (Δ.insert x t) := by
  have hx : (Δ.insert x t).get? x = some t := by rw [Context.get?_insert, if_pos rfl]
  apply h.push
  · intro y hy
    rw [Context.get?_insert, if_neg hy]
  · exact fun _ => hx
  · intro t' ht'
    rw [← ht']
    exact hx

theorem type?_eq (h : Lexical Γ around ts Δ) {e : Expr}
    (he : ∀ x ∈ e.freeVars, Binder.exposes around x = false) :
    (e.nameless (around.map Binder.name)).type? Γ ts = Site.type? ⟨Δ, e⟩ := by
  rw [type?_nameless fun x hx => h.unexposed x (he x hx)]
  exact toOption_mapError Failure.unplaced (e.infer Δ)

/-- A binding is a binder of its body. If its name is not exposed, either its value has
    its lexical type, or the value has none and neither has the name. -/
theorem letIn (h : Lexical Γ around ts Δ) (x : String) (value : Expr) :
    Lexical Γ (.ofLetIn around Δ x value :: around)
      (ts.push ((value.nameless (around.map Binder.name)).type? Γ ts))
      (Δ.insert? x (Site.type? ⟨Δ, value⟩)) := by
  have hinsert : ∀ {t}, Site.type? ⟨Δ, value⟩ = some t →
      (Δ.insert? x (Site.type? ⟨Δ, value⟩)).get? x = some t := by
    intro t ht
    rw [ht, Context.insert?, Context.get?_insert, if_pos rfl]
  apply h.push
  · intro y hy
    have hy' : y ≠ x := hy
    cases Site.type? ⟨Δ, value⟩ with
    | none => rfl
    | some t => rw [Context.insert?, Context.get?_insert, if_neg hy']
  · intro hexposed
    simp only [Binder.ofLetIn, Bool.or_eq_false_iff, List.any_eq_false,
      Bool.not_eq_true] at hexposed
    obtain ⟨hvalue, hname⟩ := hexposed
    rw [h.type?_eq hvalue]
    cases htype : Site.type? ⟨Δ, value⟩ with
    | some t =>
      rw [← htype]
      exact (hinsert htype).trans htype.symm
    | none =>
      show Δ.get? x = none
      simpa [htype, Context.contains] using hname
  · exact fun t ht => hinsert ht

end Lexical

/-! ### Sites of nameless forms -/

/-- A nameless form with the types of the binders around it. -/
structure NamelessSite where
  depth : Nat
  types : BinderTypes? depth
  form : Nameless depth

namespace NamelessSite

def type? (Γ : Context) (q : NamelessSite) : Option Ty := q.form.type? Γ q.types

def parts (Γ : Context) : NamelessSite → List NamelessSite
  | ⟨_, ts, .letIn value body⟩ => [⟨_, ts, value⟩, ⟨_, ts.push (value.type? Γ ts), body⟩]
  | ⟨_, ts, .binary _ left right⟩ => [⟨_, ts, left⟩, ⟨_, ts, right⟩]
  | ⟨_, ts, .cond condition thenBranch elseBranch⟩ =>
    [⟨_, ts, condition⟩, ⟨_, ts, thenBranch⟩, ⟨_, ts, elseBranch⟩]
  | ⟨_, ts, .lam paramType body⟩ => [⟨_, ts.push (some paramType), body⟩]
  | ⟨_, ts, .app function argument⟩ => [⟨_, ts, function⟩, ⟨_, ts, argument⟩]
  | ⟨_, ts, .letRec paramType returnType definition body⟩ =>
    let us := ts.push (some (.arrow paramType returnType))
    [⟨_, us.push (some paramType), definition⟩, ⟨_, us, body⟩]
  | _ => []

def follow? (Γ : Context) (q : NamelessSite) : List Nat → Option NamelessSite
  | [] => some q
  | i :: path => (q.parts Γ)[i]?.bind fun part => part.follow? Γ path

end NamelessSite

/-- A site below the given binders stands where a nameless site stands. -/
inductive Mirrors (Γ : Context) (around : List Binder) : Site → NamelessSite → Prop where
  | mk {Δ : Context} {e : Expr} {ts : BinderTypes? (around.map Binder.name).length} :
      Lexical Γ around ts Δ →
      Mirrors Γ around ⟨Δ, e⟩ ⟨_, ts, e.nameless (around.map Binder.name)⟩

namespace Mirrors

variable {Γ : Context} {around : List Binder} {s : Site} {q : NamelessSite}

theorem type?_eq (h : Mirrors Γ around s q)
    (hs : ∀ x ∈ s.node.freeVars, Binder.exposes around x = false) : q.type? Γ = s.type? := by
  obtain ⟨hlexical⟩ := h
  exact hlexical.type?_eq hs

/-- **One step down.** The parts of a site stand where the parts of the nameless site
    stand, below the binders that the node adds. -/
theorem part (h : Mirrors Γ around s q) (hs : s.node.ForeignFree) (i : Nat) :
    Option.Rel (Mirrors Γ (s.bindersOf around i)) s.parts[i]? (q.parts Γ)[i]? := by
  obtain @⟨Δ, e, ts, hlexical⟩ := h
  cases e with
  | num value => exact .none
  | bool value => exact .none
  | foreign kind => exact .none
  | var x =>
    have hparts : NamelessSite.parts Γ ⟨_, ts, (Expr.var x).nameless _⟩ = [] := by
      rw [Expr.nameless]
      cases binder? (around.map Binder.name) x <;> rfl
    rw [hparts]
    exact .none
  | letIn x value body =>
    rw [Site.parts_letIn (Expr.ForeignFree.letIn_value hs)]
    rcases i with _ | _ | i
    · exact .some ⟨hlexical⟩
    · exact .some ⟨hlexical.letIn x value⟩
    · exact .none
  | binary op left right =>
    rcases i with _ | _ | i
    · exact .some ⟨hlexical⟩
    · exact .some ⟨hlexical⟩
    · exact .none
  | cond condition thenBranch elseBranch =>
    rcases i with _ | _ | _ | i
    · exact .some ⟨hlexical⟩
    · exact .some ⟨hlexical⟩
    · exact .some ⟨hlexical⟩
    · exact .none
  | lam x paramType body =>
    rcases i with _ | i
    · exact .some ⟨hlexical.insert x paramType⟩
    · exact .none
  | app function argument =>
    rcases i with _ | _ | i
    · exact .some ⟨hlexical⟩
    · exact .some ⟨hlexical⟩
    · exact .none
  | letRec name param paramType returnType definition body =>
    have hself := hlexical.insert name (.arrow paramType returnType)
    rcases i with _ | _ | i
    · exact .some ⟨hself.insert param paramType⟩
    · exact .some ⟨hself⟩
    · exact .none

/-- **Every path down.** -/
theorem follow (h : Mirrors Γ around s q) (hs : s.node.ForeignFree) (path : List Nat) :
    Option.Rel (Mirrors Γ (s.bindersAt around path)) (s.follow? path) (q.follow? Γ path) := by
  induction path generalizing s q around with
  | nil => exact .some h
  | cons i path ih =>
    have hpart := h.part hs i
    rw [Site.follow?, NamelessSite.follow?, Site.bindersAt]
    generalize (q.parts Γ)[i]? = q' at hpart ⊢
    generalize hp : s.parts[i]? = part at hpart ⊢
    cases hpart with
    | none => exact .none
    | some hmirrors =>
      exact ih hmirrors (Site.foreignFree_of_mem_parts hs (List.mem_of_getElem? hp))

theorem isSome_follow? (h : Mirrors Γ around s q) (hs : s.node.ForeignFree) (path : List Nat) :
    (s.follow? path).isSome = (q.follow? Γ path).isSome := by
  have hrel := h.follow hs path
  generalize s.follow? path = r at hrel ⊢
  generalize q.follow? Γ path = q' at hrel ⊢
  cases hrel <;> rfl

theorem exists_of_follow? (h : Mirrors Γ around s q) (hs : s.node.ForeignFree) {path : List Nat}
    {r : Site} (hr : s.follow? path = some r) :
    ∃ q', q.follow? Γ path = some q' ∧ Mirrors Γ (s.bindersAt around path) r q' := by
  have hrel := h.follow hs path
  rw [hr] at hrel
  generalize q.follow? Γ path = q' at hrel ⊢
  cases hrel with
  | some hmirrors => exact ⟨_, rfl, hmirrors⟩

end Mirrors

/-! ### Renaming bound variables -/

namespace Expr

/-- The nameless form is read in the outermost context, below no binder. -/
theorem mirrors_root (Γ : Context) (e : Expr) :
    Mirrors Γ [] ⟨Γ, e⟩ ⟨0, Fin.elim0, e.nameless []⟩ := ⟨.nil Γ⟩

variable {Γ : Context} {a b e : Expr} {path : List Nat}

theorem isSome_annotationAt?_of_nameless_eq (ha : a.ForeignFree) (hb : b.ForeignFree)
    (h : a.nameless [] = b.nameless []) :
    (annotationAt? (a.outline .full Γ).lines path).isSome =
      (annotationAt? (b.outline .full Γ).lines path).isSome := by
  rw [annotationAt?_outline ha, annotationAt?_outline hb, Option.isSome_map, Option.isSome_map,
    (mirrors_root Γ a).isSome_follow? ha, (mirrors_root Γ b).isSome_follow? hb, h]

theorem annotationAt?_eq_of_mirrors (ha : a.ForeignFree) (hb : b.ForeignFree)
    (h : a.nameless [] = b.nameless []) {s r : Site}
    (hs : (Site.mk Γ a).follow? path = some s) (hr : (Site.mk Γ b).follow? path = some r)
    (hsfree : ∀ x ∈ s.node.freeVars,
      Binder.exposes ((Site.mk Γ a).bindersAt [] path) x = false)
    (hrfree : ∀ x ∈ r.node.freeVars,
      Binder.exposes ((Site.mk Γ b).bindersAt [] path) x = false) :
    annotationAt? (a.outline .full Γ).lines path =
      annotationAt? (b.outline .full Γ).lines path := by
  obtain ⟨q, hq, hmirrors⟩ := (mirrors_root Γ a).exists_of_follow? ha hs
  obtain ⟨q', hq', hmirrors'⟩ := (mirrors_root Γ b).exists_of_follow? hb hr
  rw [h, hq'] at hq
  cases hq
  rw [annotationAt?_outline ha, annotationAt?_outline hb, hs, hr, Option.map_some, Option.map_some,
    ← hmirrors.type?_eq hsfree, ← hmirrors'.type?_eq hrfree]

/-- A variable is annotated with the type that its nearest binder gives it. -/
theorem annotationAt?_var (he : e.ForeignFree) {s : Site} {x : String} {binder : Binder} {t : Ty}
    (hs : (Site.mk Γ e).follow? path = some s) (hvar : s.node = .var x)
    (hbinder : Binder.nearest? ((Site.mk Γ e).bindersAt [] path) x = some binder)
    (ht : binder.type? = some t) :
    annotationAt? (e.outline .full Γ).lines path = some (" :: " ++ t.text) := by
  obtain ⟨q, _, hmirrors⟩ := (mirrors_root Γ e).exists_of_follow? he hs
  obtain @⟨Δ, n, ts, hlexical⟩ := hmirrors
  cases hvar
  have hx : Δ.get? x = some t := hlexical.typed x binder t hbinder ht
  have htype : Site.type? ⟨Δ, .var x⟩ = some t :=
    Site.type?_eq_some_iff.2 (Context.resolve_eq_ok_iff.2 hx)
  rw [annotationAt?_outline he, hs, Option.map_some, htype]
  rfl

/-- **The outline respects lexical scope, exposed names apart.** Expressions that differ
    in the names of bound variables only have outlines of the same shape. Nodes at the
    same path have the same annotation if no free variable of either is exposed there.
    A variable whose nearest binder gives it a type is annotated with that type, whatever
    is bound further out. -/
theorem annotations_respect_scope (Γ : Context) (a b : Expr) (ha : a.ForeignFree)
    (hb : b.ForeignFree) (h : a.nameless [] = b.nameless []) :
    (∀ path, (annotationAt? (a.outline .full Γ).lines path).isSome =
      (annotationAt? (b.outline .full Γ).lines path).isSome) ∧
    (∀ path s r, (Site.mk Γ a).follow? path = some s → (Site.mk Γ b).follow? path = some r →
      (∀ x ∈ s.node.freeVars, Binder.exposes ((Site.mk Γ a).bindersAt [] path) x = false) →
      (∀ x ∈ r.node.freeVars, Binder.exposes ((Site.mk Γ b).bindersAt [] path) x = false) →
      annotationAt? (a.outline .full Γ).lines path =
        annotationAt? (b.outline .full Γ).lines path) ∧
    (∀ path s x binder t, (Site.mk Γ a).follow? path = some s → s.node = .var x →
      Binder.nearest? ((Site.mk Γ a).bindersAt [] path) x = some binder →
      binder.type? = some t →
      annotationAt? (a.outline .full Γ).lines path = some (" :: " ++ t.text)) := by
  refine ⟨?_, ?_, ?_⟩
  · intro path
    exact isSome_annotationAt?_of_nameless_eq ha hb h
  · intro path s r hs hr hsfree hrfree
    exact annotationAt?_eq_of_mirrors ha hb h hs hr hsfree hrfree
  · intro path s x binder t hs hvar hbinder ht
    exact annotationAt?_var ha hs hvar hbinder ht

/-- Below a binding without a type, a parameter named like an outer variable of another
    type and the same parameter under another name. The nodes of the bodies agree. -/
theorem annotations_respect_scope_lam :
    let Γ : Context := .ofList [("x", .boolean)]
    let value : Expr := .binary .plus (.num (.int 1)) (.bool true)
    let a : Expr := .letIn "y" value (.lam "x" .number (.var "x"))
    let b : Expr := .letIn "z" value (.lam "y" .number (.var "y"))
    a ≠ b ∧ a.nameless [] = b.nameless [] ∧
      annotationAt? (a.outline .full Γ).lines [1, 0] = some (" :: " ++ Ty.number.text) ∧
      annotationAt? (b.outline .full Γ).lines [1, 0] = some (" :: " ++ Ty.number.text) := by
  intro Γ value a b
  have hnameless : a.nameless [] = b.nameless [] := by decide
  obtain ⟨_, hsame, hvar⟩ := annotations_respect_scope Γ a b (foreignFree_iff.2 rfl)
    (foreignFree_iff.2 rfl) hnameless
  have ha := hvar [1, 0] _ "x" _ .number rfl rfl rfl rfl
  refine ⟨by decide, hnameless, ha, ?_⟩
  rw [← hsame [1, 0] _ _ rfl rfl]
  · exact ha
  · intro x hx
    cases List.mem_singleton.1 hx
    rfl
  · intro x hx
    cases List.mem_singleton.1 hx
    rfl

/-- A binding without a type takes the name of an outer variable. The body is annotated
    with the type of the outer variable, and as an error once the binding has another
    name. -/
theorem annotations_differ_where_exposed :
    let Γ : Context := .ofList [("x", .number)]
    let value : Expr := .binary .plus (.num (.int 1)) (.bool true)
    let a : Expr := .letIn "x" value (.var "x")
    let b : Expr := .letIn "y" value (.var "y")
    a.ForeignFree ∧ b.ForeignFree ∧ a.nameless [] = b.nameless [] ∧
      annotationAt? (a.outline .full Γ).lines [1] = some " :: Number" ∧
      annotationAt? (b.outline .full Γ).lines [1] = some " :: <error>" := by
  intro Γ value a b
  have ha : a.ForeignFree := foreignFree_iff.2 rfl
  have hb : b.ForeignFree := foreignFree_iff.2 rfl
  exact ⟨ha, hb, by decide, (annotationAt?_eq_verdictText ha Γ [1]).trans rfl,
    (annotationAt?_eq_verdictText hb Γ [1]).trans rfl⟩

end Expr

end SimplyTyped
