import SimplyTyped.Proofs.InferenceSteps

/-!
# The typing relation

`HasType S e t` says that `e` has type `t` where the bindings of `S` are in scope.
It is a relation in the usual sense: the rules name no order among their premises
and compute nothing, and a binder pushes a binding on a stack instead of changing
a context in place. Inference and checking decide this relation, for every context
that reads like the stack; so an expression has at most one type.
-/

namespace SimplyTyped

/-! ### Stacks of bindings -/

/-- Bindings with the most recent one first. A name may be bound many times, and
    `List.lookup` finds its most recent binding. -/
abbrev Stack := List (String × Ty)

namespace Stack

/-- A stack reads like a context when both give every name the same type, or none. -/
def ReadsLike (S : Stack) (Γ : Context) : Prop := ∀ x, S.lookup x = Γ.get? x

theorem ReadsLike.push {S : Stack} {Γ : Context} (h : S.ReadsLike Γ) (x : String) (t : Ty) :
    ReadsLike ((x, t) :: S) (Γ.insert x t) := by
  intro y
  rw [Context.lookup_entry, Context.get?_insert, h y]

def context (S : Stack) : Context := .ofList S.reverse

theorem readsLike_context (S : Stack) : S.ReadsLike S.context := by
  induction S with
  | nil => exact fun _ => rfl
  | cons entry S ih =>
    have hcons : context (entry :: S) = (context S).insert entry.1 entry.2 := by
      simp [context, Context.ofList]
    rw [hcons]
    exact ih.push entry.1 entry.2

end Stack

/-! ### The rules -/

/-- The least relation closed under the typing rules. A foreign node has no rule. -/
inductive HasType : Stack → Expr → Ty → Prop where
  | num {S n} : HasType S (.num n) .number
  | bool {S b} : HasType S (.bool b) .boolean
  | var {S x t} : S.lookup x = some t → HasType S (.var x) t
  | letIn {S x value body s t} :
      HasType S value s → HasType ((x, s) :: S) body t → HasType S (.letIn x value body) t
  | plus {S left right} :
      HasType S left .number → HasType S right .number →
      HasType S (.binary .plus left right) .number
  | or {S left right} :
      HasType S left .boolean → HasType S right .boolean →
      HasType S (.binary .or left right) .boolean
  | eq {S left right s} :
      HasType S left s → HasType S right s → HasType S (.binary .eq left right) .boolean
  | cond {S c a b t} :
      HasType S c .boolean → HasType S a t → HasType S b t → HasType S (.cond c a b) t
  | lam {S x s body t} :
      HasType ((x, s) :: S) body t → HasType S (.lam x s body) (.arrow s t)
  | app {S function argument s t} :
      HasType S function (.arrow s t) → HasType S argument s →
      HasType S (.app function argument) t
  /-- The definition sees the parameter inside the name, the body the name only. -/
  | letRec {S name param s r definition body t} :
      HasType ((param, s) :: (name, .arrow s r) :: S) definition r →
      HasType ((name, .arrow s r) :: S) body t →
      HasType S (.letRec name param s r definition body) t

/-- A common type of the operands that agrees with the operator gives the operation
    its type; this is one rule for each operator. -/
theorem HasType.binary {S : Stack} {op : BinOp} {left right : Expr} {s : Ty}
    (hl : HasType S left s) (hr : HasType S right s) (hop : op.operandType?.getD s = s) :
    HasType S (.binary op left right) op.resultType := by
  cases op with
  | plus =>
    have hs : Ty.number = s := hop
    subst hs
    exact .plus hl hr
  | or =>
    have hs : Ty.boolean = s := hop
    subst hs
    exact .or hl hr
  | eq => exact .eq hl hr

/-! ### Inference against the rules -/

theorem HasType.of_infer {S : Stack} {Γ : Context} (hS : S.ReadsLike Γ) {e : Expr} {t : Ty}
    (h : e.infer Γ = .ok t) : HasType S e t := by
  induction e generalizing S Γ t with
  | num n =>
    cases h
    exact .num
  | bool b =>
    cases h
    exact .bool
  | var x =>
    have hx : Γ.get? x = some t := Context.resolve_eq_ok_iff.1 h
    exact .var ((hS x).trans hx)
  | letIn x value body ihv ihb =>
    obtain ⟨s, hv, hb⟩ := Expr.infer_letIn_eq_ok_iff.1 h
    exact .letIn (ihv hS hv) (ihb (hS.push x s) hb)
  | binary op left right ihl ihr =>
    obtain ⟨s, hl, hr, hop, rfl⟩ := Expr.infer_binary_eq_ok_iff.1 h
    exact .binary (ihl hS hl) (ihr hS hr) hop
  | cond c a b ihc iha ihb =>
    obtain ⟨hc, ha, hb⟩ := Expr.infer_cond_eq_ok_iff.1 h
    exact .cond (ihc hS hc) (iha hS ha) (ihb hS hb)
  | lam x s body ih =>
    obtain ⟨r, hb, rfl⟩ := Expr.infer_lam_eq_ok_iff.1 h
    exact .lam (ih (hS.push x s) hb)
  | app function argument ihf iha =>
    obtain ⟨s, hf, ha⟩ := Expr.infer_app_eq_ok_iff.1 h
    exact .app (ihf hS hf) (iha hS ha)
  | letRec name param s r definition body ihd ihb =>
    obtain ⟨hd, hb⟩ := Expr.infer_letRec_eq_ok_iff.1 h
    have hname := hS.push name (.arrow s r)
    exact .letRec (ihd (hname.push param s) hd) (ihb hname hb)
  | foreign kind => cases h

theorem HasType.infer {S : Stack} {e : Expr} {t : Ty} (h : HasType S e t) {Γ : Context}
    (hS : S.ReadsLike Γ) : e.infer Γ = .ok t := by
  induction h generalizing Γ with
  | num => rfl
  | bool => rfl
  | @var S x t hx => exact Context.resolve_eq_ok_iff.2 ((hS x).symm.trans hx)
  | @letIn S x value body s t _ _ ihv ihb =>
    exact Expr.infer_letIn_eq_ok_iff.2 ⟨s, ihv hS, ihb (hS.push x s)⟩
  | plus _ _ ihl ihr => exact Expr.infer_binary_eq_ok_iff.2 ⟨_, ihl hS, ihr hS, rfl, rfl⟩
  | or _ _ ihl ihr => exact Expr.infer_binary_eq_ok_iff.2 ⟨_, ihl hS, ihr hS, rfl, rfl⟩
  | eq _ _ ihl ihr => exact Expr.infer_binary_eq_ok_iff.2 ⟨_, ihl hS, ihr hS, rfl, rfl⟩
  | cond _ _ _ ihc iha ihb => exact Expr.infer_cond_eq_ok_iff.2 ⟨ihc hS, iha hS, ihb hS⟩
  | @lam S x s body t _ ih => exact Expr.infer_lam_eq_ok_iff.2 ⟨t, ih (hS.push x s), rfl⟩
  | app _ _ ihf iha => exact Expr.infer_app_eq_ok_iff.2 ⟨_, ihf hS, iha hS⟩
  | @letRec S name param s r definition body t _ _ ihd ihb =>
    have hname := hS.push name (.arrow s r)
    exact Expr.infer_letRec_eq_ok_iff.2 ⟨ihd (hname.push param s), ihb hname⟩

/-- **Inference and checking decide the typing relation.** In every context that
    reads like the stack, the types that are inferred and the types that pass a
    check are exactly the derivable ones; and no stack gives an expression two
    types. -/
theorem infer_check_iff_hasType (S : Stack) (e : Expr) :
    (∀ Γ : Context, S.ReadsLike Γ → ∀ t : Ty,
      (e.infer Γ = .ok t ↔ HasType S e t) ∧ (e.check Γ t = .ok () ↔ HasType S e t)) ∧
    ∀ t t' : Ty, HasType S e t → HasType S e t' → t = t' := by
  constructor
  · intro Γ hS t
    have hinfer : e.infer Γ = .ok t ↔ HasType S e t := ⟨.of_infer hS, fun h => h.infer hS⟩
    exact ⟨hinfer, Expr.check_eq_ok_iff.trans hinfer⟩
  · intro t t' ht ht'
    -- Some context reads like the stack, and inference there has one result.
    have hS := S.readsLike_context
    exact Except.ok.inj ((ht.infer hS).symm.trans (ht'.infer hS))

/-- A recursive function named like its parameter, under a stack that binds the
    name twice: in the definition the parameter is meant, in the body the function. -/
theorem infer_check_iff_hasType_shadowing :
    let S : Stack := [("x", .boolean), ("x", .arrow .number .number)]
    let e : Expr := .letRec "x" "x" .number .number (.binary .plus (.var "x") (.num (.int 1)))
      (.app (.var "x") (.num (.int 2)))
    S.ReadsLike S.context ∧ HasType S e .number ∧ ¬ HasType S e .boolean := by
  intro S e
  have hS := S.readsLike_context
  obtain ⟨hdecide, hunique⟩ := infer_check_iff_hasType S e
  have hnumber : HasType S e .number := (hdecide S.context hS .number).1.1 rfl
  refine ⟨hS, hnumber, fun hboolean => ?_⟩
  cases hunique .number .boolean hnumber hboolean

end SimplyTyped
