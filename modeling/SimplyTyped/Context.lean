import SimplyTyped.Failure

/-!
# Typing contexts

A context binds finitely many names to types and remembers in which order the
names were first bound. Binding a name again gives it a new type and leaves it
where it stands. Contexts are values: extending one makes another, and the first
stays as it was.

The view of a context is `Context.get?`; `get?_insert` says what extending does to
it. Two contexts are equal as contexts (`==`) when they bind the same names to the
same types, in whatever order.
-/

namespace SimplyTyped

/-- A context: names with their types in order of first binding, each name once. -/
structure Context where
  entries : List (String × Ty)
  distinct : (entries.map Prod.fst).Nodup

namespace Context

/-! ### Binding a name in a list of entries -/

/-- Gives `name` the type `type`: in place if it is listed, else at the end. -/
def put (name : String) (type : Ty) : List (String × Ty) → List (String × Ty)
  | [] => [(name, type)]
  | (other, type') :: rest =>
    if other = name then (name, type) :: rest else (other, type') :: put name type rest

/-- The names after `put`: a listed name keeps its place, a new one comes last. -/
theorem map_fst_put (name : String) (type : Ty) (entries : List (String × Ty)) :
    (put name type entries).map Prod.fst =
      if name ∈ entries.map Prod.fst then entries.map Prod.fst
      else entries.map Prod.fst ++ [name] := by
  induction entries with
  | nil => simp [put]
  | cons entry rest ih =>
    obtain ⟨other, type'⟩ := entry
    by_cases h : other = name
    · simp [put, h]
    · by_cases hr : name ∈ rest.map Prod.fst <;>
        simp_all [put, Ne.symm h]

theorem nodup_put (name : String) (type : Ty) {entries : List (String × Ty)}
    (h : (entries.map Prod.fst).Nodup) : ((put name type entries).map Prod.fst).Nodup := by
  rw [map_fst_put]
  split
  next => exact h
  next hn => exact List.nodup_append.2 ⟨h, by simp, by rintro a ha b hb rfl; simp_all⟩

theorem lookup_entry (name : String) (type : Ty) (rest : List (String × Ty)) (x : String) :
    ((name, type) :: rest).lookup x = if x = name then some type else rest.lookup x := by
  by_cases h : x = name
  · simp [h]
  · have hb : (x == name) = false := by simpa using h
    rw [List.lookup_cons, hb, if_neg h]

theorem lookup_put (name : String) (type : Ty) (entries : List (String × Ty)) (x : String) :
    (put name type entries).lookup x = if x = name then some type else entries.lookup x := by
  induction entries with
  | nil => rw [put, lookup_entry]
  | cons entry rest ih =>
    obtain ⟨other, type'⟩ := entry
    by_cases h : other = name
    · subst h
      by_cases hx : x = other <;> simp [put, lookup_entry, hx]
    · by_cases hx : x = other
      · simp [put, h, hx]
      · simp [put, h, lookup_entry, hx, ih]

/-! ### Operations -/

def empty : Context := ⟨[], List.nodup_nil⟩

instance : Inhabited Context := ⟨empty⟩

def insert (Γ : Context) (name : String) (type : Ty) : Context :=
  ⟨put name type Γ.entries, nodup_put name type Γ.distinct⟩

/-- Binds the names of a list from left to right, so that the last type given to
    a name counts. -/
def ofList (bindings : List (String × Ty)) : Context :=
  bindings.foldl (fun Γ binding => Γ.insert binding.1 binding.2) empty

def get? (Γ : Context) (name : String) : Option Ty := Γ.entries.lookup name

@[simp] theorem get?_empty (x : String) : empty.get? x = none := rfl

@[simp] theorem get?_insert (Γ : Context) (name : String) (type : Ty) (x : String) :
    (Γ.insert name type).get? x = if x = name then some type else Γ.get? x :=
  lookup_put name type Γ.entries x

/-- The type of a name. An unbound name is rejected, at no particular place. -/
def lookup (Γ : Context) (name : String) : Except Rejection Ty :=
  match Γ.get? name with
  | some type => .ok type
  | none => .error ⟨.unbound name, none⟩

def contains (Γ : Context) (name : String) : Bool := (Γ.get? name).isSome

def names (Γ : Context) : List String := Γ.entries.map Prod.fst

def size (Γ : Context) : Nat := Γ.entries.length

/-- Whether two contexts bind the same names to the same types. -/
def sameBindings (Γ Δ : Context) : Bool :=
  Γ.size == Δ.size && Γ.entries.all fun entry => Δ.get? entry.1 == some entry.2

instance : BEq Context := ⟨sameBindings⟩

/-- What a context can be compared with. -/
inductive Comparand where
  /-- Another context. -/
  | context (Δ : Context)
  /-- A list of bindings that is not a context. -/
  | bindings (entries : List (String × Ty))

/-- A context equals only contexts; a bare list of bindings differs from it even
    when it lists the same bindings. -/
def equals (Γ : Context) : Comparand → Bool
  | .context Δ => Γ == Δ
  | .bindings _ => false

/-- The bindings of a context, in order of first binding. -/
def text (Γ : Context) : String :=
  "Context(\x7b"
    ++ ", ".intercalate (Γ.entries.map fun entry => entry.1 ++ ": " ++ entry.2.text)
    ++ "\x7d)"

end Context

end SimplyTyped
