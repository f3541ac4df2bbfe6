import Mathlib.Data.Finset.Card
import SimplyTyped.Context

/-!
# Contexts are finite maps in insertion order

A context is made from a list of bindings and extended by further ones, so behind every
context there is one list of all the bindings that were given to it, the oldest first. The
context keeps less than this list: each name once, at the place where it was first given,
with the type that it was last given. This is an invariant (`Keeps`); to bind a name
restores it, and so does every sequence of bindings. All that can be asked of a context is
then answered by the list: which names it lists and in which order, what it finds, how many
names it holds, and which other contexts it equals.
-/

namespace SimplyTyped.Context

variable {Γ Δ : Context} {x : String} {t : Ty}

/-! ### What can be asked of a context -/

/-- A name is found in a list of entries at its first one. -/
theorem lookup_eq_some_iff_split {entries : List (String × Ty)} :
    entries.lookup x = some t ↔
      ∃ before after, entries = before ++ (x, t) :: after ∧ x ∉ before.map Prod.fst := by
  rw [List.lookup_eq_some_iff]
  simp only [bne_iff_ne, ne_comm (a := x), List.mem_map, not_exists, not_and, ne_eq]

theorem lookup_eq_some_iff_mem {entries : List (String × Ty)}
    (h : (entries.map Prod.fst).Nodup) : entries.lookup x = some t ↔ (x, t) ∈ entries := by
  rw [lookup_eq_some_iff_split]
  constructor
  · rintro ⟨before, after, rfl, _⟩
    simp
  · intro hmem
    obtain ⟨before, after, rfl⟩ := List.append_of_mem hmem
    refine ⟨before, after, rfl, ?_⟩
    -- The name is listed at this entry, and no name is listed twice.
    rw [List.map_append] at h
    intro hbefore
    exact (List.nodup_append.1 h).2.2 x hbefore x (by simp) rfl

theorem mem_entries_iff : (x, t) ∈ Γ.entries ↔ Γ.get? x = some t :=
  (lookup_eq_some_iff_mem Γ.distinct).symm

theorem mem_names_iff : x ∈ Γ.names ↔ ∃ t, Γ.get? x = some t := by
  simp [names, ← mem_entries_iff]

theorem get?_eq_none_iff : Γ.get? x = none ↔ x ∉ Γ.names := by
  rw [mem_names_iff, ← Option.isSome_iff_exists, Option.not_isSome_iff_eq_none]

theorem contains_eq_false_iff : Γ.contains x = false ↔ x ∉ Γ.names := by
  rw [← get?_eq_none_iff, contains, Option.isSome_eq_false_iff, Option.isNone_iff_eq_none]

theorem lookup_eq_ok_iff : Γ.lookup x = .ok t ↔ Γ.get? x = some t := by
  rw [lookup]
  cases Γ.get? x <;> simp

theorem lookup_eq_error_iff {r : Rejection} :
    Γ.lookup x = .error r ↔ Γ.contains x = false ∧ r = ⟨.unbound x, none⟩ := by
  rw [lookup, contains]
  cases Γ.get? x <;> simp [eq_comm]

theorem card_toFinset_names (Γ : Context) : Γ.names.toFinset.card = Γ.size := by
  rw [names, List.toFinset_card_of_nodup Γ.distinct, List.length_map, size]

/-! ### Equality of contexts -/

theorem beq_iff_size_and_bindings :
    (Γ == Δ) = true ↔
      Γ.size = Δ.size ∧ ∀ x t, Γ.get? x = some t → Δ.get? x = some t := by
  show sameBindings Γ Δ = true ↔ _
  simp [sameBindings, ← mem_entries_iff]

/-- Only the bindings of one side are compared. That the other side has no further ones
    follows from the sizes. -/
theorem toFinset_names_eq_of_beq (h : (Γ == Δ) = true) : Γ.names.toFinset = Δ.names.toFinset := by
  obtain ⟨hsize, hbindings⟩ := beq_iff_size_and_bindings.1 h
  apply Finset.eq_of_subset_of_card_le
  · intro x hx
    obtain ⟨t, ht⟩ := mem_names_iff.1 (List.mem_toFinset.1 hx)
    exact List.mem_toFinset.2 (mem_names_iff.2 ⟨t, hbindings x t ht⟩)
  · rw [card_toFinset_names, card_toFinset_names, hsize]

/-- Contexts are equal when they bind the same names to the same types. -/
theorem beq_iff : (Γ == Δ) = true ↔ ∀ x, Γ.get? x = Δ.get? x := by
  constructor
  · intro h x
    obtain ⟨_, hbindings⟩ := beq_iff_size_and_bindings.1 h
    cases hx : Γ.get? x with
    | some t => exact (hbindings x t hx).symm
    | none =>
      have hΓ : x ∉ Γ.names := get?_eq_none_iff.1 hx
      have hΔ : x ∉ Δ.names := by
        rwa [← List.mem_toFinset, ← toFinset_names_eq_of_beq h, List.mem_toFinset]
      exact (get?_eq_none_iff.2 hΔ).symm
  · intro h
    have hnames : Γ.names.toFinset = Δ.names.toFinset := by
      ext x
      simp only [List.mem_toFinset, mem_names_iff, h x]
    refine beq_iff_size_and_bindings.2 ⟨?_, fun x t ht => (h x).symm.trans ht⟩
    rw [← card_toFinset_names, ← card_toFinset_names, hnames]

/-! ### The bindings given to a context -/

/-- Binds the names of a list one after the other. -/
def insertMany (Γ : Context) (bindings : List (String × Ty)) : Context :=
  bindings.foldl (fun Γ binding => Γ.insert binding.1 binding.2) Γ

/-- The last of the given bindings of `x` gives it the type `t`. -/
def LastGiven (given : List (String × Ty)) (x : String) (t : Ty) : Prop :=
  ∃ before after, given = before ++ (x, t) :: after ∧ x ∉ after.map Prod.fst

theorem lookup_reverse_eq_some_iff {given : List (String × Ty)} :
    given.reverse.lookup x = some t ↔ LastGiven given x t := by
  rw [lookup_eq_some_iff_split]
  constructor
  · rintro ⟨after, before, hgiven, hafter⟩
    rw [List.reverse_eq_append_iff] at hgiven
    refine ⟨before.reverse, after.reverse, by simpa using hgiven, ?_⟩
    rwa [List.map_reverse, List.mem_reverse]
  · rintro ⟨before, after, rfl, hafter⟩
    refine ⟨after.reverse, before.reverse, by simp, ?_⟩
    rwa [List.map_reverse, List.mem_reverse]

/-- What a context keeps of the bindings given to it: the names are those given, they are
    listed in the order in which they were first given, and each has the type that it was
    last given. -/
structure Keeps (Γ : Context) (given : List (String × Ty)) : Prop where
  mem_names : ∀ x, x ∈ Γ.names ↔ x ∈ given.map Prod.fst
  ordered : Γ.names.Pairwise fun x y =>
    (given.map Prod.fst).idxOf x < (given.map Prod.fst).idxOf y
  get?_eq : ∀ x, Γ.get? x = given.reverse.lookup x

theorem names_insert (Γ : Context) (x : String) (t : Ty) :
    (Γ.insert x t).names = if x ∈ Γ.names then Γ.names else Γ.names ++ [x] :=
  map_fst_put x t Γ.entries

theorem keeps_empty : Keeps empty [] := ⟨fun _ => Iff.rfl, List.Pairwise.nil, fun _ => rfl⟩

/-- More names at the end of a list do not change where the others come first. -/
theorem Keeps.ordered_append {given : List (String × Ty)} (h : Γ.Keeps given)
    (more : List String) : Γ.names.Pairwise fun x y =>
      (given.map Prod.fst ++ more).idxOf x < (given.map Prod.fst ++ more).idxOf y := by
  apply h.ordered.imp_of_mem
  intro x y hx hy hlt
  rw [List.idxOf_append_of_mem ((h.mem_names x).1 hx),
    List.idxOf_append_of_mem ((h.mem_names y).1 hy)]
  exact hlt

/-- **One binding.** A name that is given again stays where it stands, and a new one comes
    after all others. -/
theorem Keeps.insert {given : List (String × Ty)} (h : Γ.Keeps given) (x : String) (t : Ty) :
    (Γ.insert x t).Keeps (given ++ [(x, t)]) := by
  have hgiven : (given ++ [(x, t)]).map Prod.fst = given.map Prod.fst ++ [x] :=
    List.map_append
  refine ⟨?_, ?_, ?_⟩
  · intro y
    rw [names_insert, hgiven, List.mem_append, List.mem_singleton, ← h.mem_names y]
    by_cases hx : x ∈ Γ.names
    · rw [if_pos hx]
      constructor
      · exact Or.inl
      · rintro (hy | rfl)
        · exact hy
        · exact hx
    · rw [if_neg hx, List.mem_append, List.mem_singleton]
  · rw [names_insert, hgiven]
    by_cases hx : x ∈ Γ.names
    · rw [if_pos hx]
      exact h.ordered_append [x]
    · rw [if_neg hx]
      refine List.pairwise_append.2 ⟨h.ordered_append [x], List.pairwise_singleton _ x, ?_⟩
      intro y hy z hz
      cases List.mem_singleton.1 hz
      have hnew : x ∉ given.map Prod.fst := fun hmem => hx ((h.mem_names x).2 hmem)
      have hold : y ∈ given.map Prod.fst := (h.mem_names y).1 hy
      rw [List.idxOf_append_of_mem hold, List.idxOf_append_of_notMem hnew]
      exact Nat.lt_of_lt_of_le (List.idxOf_lt_length_of_mem hold) (Nat.le_add_right _ _)
  · intro y
    rw [get?_insert, List.reverse_append, List.reverse_singleton, List.singleton_append,
      lookup_entry, h.get?_eq y]

/-- **Any sequence of bindings.** -/
theorem Keeps.insertMany {given : List (String × Ty)} (h : Γ.Keeps given)
    (bindings : List (String × Ty)) : (Γ.insertMany bindings).Keeps (given ++ bindings) := by
  induction bindings generalizing Γ given with
  | nil =>
    rw [List.append_nil]
    exact h
  | cons binding bindings ih =>
    have hrest := ih (h.insert binding.1 binding.2)
    rw [List.append_assoc] at hrest
    exact hrest

theorem keeps_ofList (bindings : List (String × Ty)) : (ofList bindings).Keeps bindings :=
  keeps_empty.insertMany bindings

theorem Keeps.get?_eq_some_iff {given : List (String × Ty)} (h : Γ.Keeps given) :
    Γ.get? x = some t ↔ LastGiven given x t := by
  rw [h.get?_eq x, lookup_reverse_eq_some_iff]

theorem Keeps.size_eq {given : List (String × Ty)} (h : Γ.Keeps given) :
    Γ.size = (given.map Prod.fst).toFinset.card := by
  have hnames : Γ.names.toFinset = (given.map Prod.fst).toFinset := by
    ext x
    rw [List.mem_toFinset, List.mem_toFinset, h.mem_names x]
  rw [← card_toFinset_names, hnames]

theorem Keeps.beq_iff {given given' : List (String × Ty)} (h : Γ.Keeps given)
    (h' : Δ.Keeps given') :
    (Γ == Δ) = true ↔ ∀ x t, LastGiven given x t ↔ LastGiven given' x t := by
  rw [Context.beq_iff]
  apply forall_congr'
  intro x
  simp only [← h.get?_eq_some_iff, ← h'.get?_eq_some_iff]
  exact Option.ext_iff

/-- **A context is a finite map in insertion order.** Let a context be made from a list of
    bindings and extended by any number of others. Its names are the given ones, each listed
    once and in the order in which they were first given, and its entries give each name the
    type that it was last given. A name is looked up with that type; one that was never given
    is not in the context, and these names alone are rejected, at no particular place. The
    size is the number of different names. Two such contexts are equal exactly when the last
    types given to all names agree, in whatever order the names were given. -/
theorem finite_map_in_insertion_order (initial extensions : List (String × Ty)) :
    let Γ := (ofList initial).insertMany extensions
    let given := initial ++ extensions
    let givenNames := given.map Prod.fst
    (∀ x, Γ.names.count x = if x ∈ givenNames then 1 else 0) ∧
    Γ.names.Pairwise (fun x y => givenNames.idxOf x < givenNames.idxOf y) ∧
    (Γ.entries.map Prod.fst = Γ.names ∧ ∀ x t, (x, t) ∈ Γ.entries ↔ LastGiven given x t) ∧
    (∀ x t, Γ.lookup x = .ok t ↔ LastGiven given x t) ∧
    (∀ x r, Γ.lookup x = .error r ↔ Γ.contains x = false ∧ r = ⟨.unbound x, none⟩) ∧
    (∀ x, Γ.contains x = false ↔ x ∉ givenNames) ∧
    Γ.size = givenNames.toFinset.card ∧
    ∀ initial' extensions' : List (String × Ty),
      (Γ == (ofList initial').insertMany extensions') = true ↔
        ∀ x t, LastGiven given x t ↔ LastGiven (initial' ++ extensions') x t := by
  intro Γ given givenNames
  have h : Γ.Keeps given := (keeps_ofList initial).insertMany extensions
  refine ⟨?_, h.ordered, ⟨rfl, ?_⟩, ?_, fun _ _ => lookup_eq_error_iff, ?_, h.size_eq, ?_⟩
  · intro x
    have hcount : Γ.names.count x = if x ∈ Γ.names then 1 else 0 := List.Nodup.count Γ.distinct
    simp only [hcount, h.mem_names x, givenNames]
  · intro x t
    rw [mem_entries_iff, h.get?_eq_some_iff]
  · intro x t
    rw [lookup_eq_ok_iff, h.get?_eq_some_iff]
  · intro x
    rw [contains_eq_false_iff, h.mem_names x]
  · intro initial' extensions'
    exact h.beq_iff ((keeps_ofList initial').insertMany extensions')

/-- Names that are given again keep their places. -/
example :
    ((ofList [("x", .number), ("f", .boolean), ("x", .boolean)]).insertMany
      [("y", .number), ("f", .number)]).entries =
      [("x", .boolean), ("f", .number), ("y", .number)] := by
  decide

end SimplyTyped.Context
