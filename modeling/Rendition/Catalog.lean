/-!
# Rendition.Catalog

Finite maps from names to values, which hold the files of a directory and the entries of a cache.
No name occurs twice. `get?` is the view of a catalog: each operation is described by what it does
to the answers of `get?`.
-/

namespace Rendition

/-- A finite map from names. -/
structure Catalog (α : Type) where
  entries : List (String × α)
  nodup : (entries.map (·.1)).Nodup

namespace Catalog

variable {α β : Type}

/-- The catalog without names. -/
def empty : Catalog α := ⟨[], List.nodup_nil⟩

instance : Inhabited (Catalog α) := ⟨empty⟩

/-- The value of a name. -/
def get? (c : Catalog α) (name : String) : Option α :=
  c.entries.lookup name

/-- Does a name have a value? -/
def contains (c : Catalog α) (name : String) : Bool :=
  (c.get? name).isSome

/-- The catalog without a name. -/
def erase (c : Catalog α) (name : String) : Catalog α where
  entries := c.entries.filter (·.1 ≠ name)
  nodup := c.nodup.sublist (List.filter_sublist.map _)

/-- The catalog with a value for a name, in place of any earlier one. -/
def insert (c : Catalog α) (name : String) (value : α) : Catalog α where
  entries := (name, value) :: (c.erase name).entries
  nodup := by
    refine List.nodup_cons.2 ⟨?_, (c.erase name).nodup⟩
    simp [erase]

/-- The catalog with the value of a name changed, if it has one. -/
def modify (c : Catalog α) (name : String) (f : α → α) : Catalog α where
  entries := c.entries.map fun e => if e.1 = name then (e.1, f e.2) else e
  nodup := by
    have h : (c.entries.map fun e => if e.1 = name then (e.1, f e.2) else e).map (·.1)
        = c.entries.map (·.1) := by
      simp only [List.map_map]
      refine List.map_congr_left fun e _ => ?_
      by_cases h : e.1 = name <;> simp [h]
    exact h ▸ c.nodup

/-- The names, in ascending order. -/
def names (c : Catalog α) : List String :=
  (c.entries.map (·.1)).mergeSort (fun a b => decide (a ≤ b))

/-- The number of names whose value passes a test. -/
def countValues (c : Catalog α) (test : α → Bool) : Nat :=
  c.entries.countP (test ·.2)

/-! ### What the operations do to the view -/

@[simp] theorem get?_empty (name : String) : (empty : Catalog α).get? name = none := rfl

theorem lookup_cons_eq_ite (key other : String) (value : α) (rest : List (String × α)) :
    ((key, value) :: rest).lookup other
      = if other = key then some value else rest.lookup other := by
  by_cases h : other = key
  · simp [h]
  · have : (other == key) = false := by simpa using h
    simp [List.lookup_cons, this, h]

private theorem lookup_filter_ne (entries : List (String × α)) (name other : String) :
    (entries.filter (·.1 ≠ name)).lookup other
      = if other = name then none else entries.lookup other := by
  induction entries with
  | nil => simp
  | cons e rest ih =>
      obtain ⟨key, value⟩ := e
      by_cases hk : key = name
      · rw [List.filter_cons_of_neg (by simp [hk]), ih, lookup_cons_eq_ite]
        by_cases ho : other = name
        · simp [ho]
        · have : other ≠ key := hk ▸ ho
          simp [ho, this]
      · rw [List.filter_cons_of_pos (by simp [hk]), lookup_cons_eq_ite, ih, lookup_cons_eq_ite]
        by_cases ho : other = key
        · have : other ≠ name := ho ▸ hk
          simp [ho, hk]
        · simp [ho]

@[simp] theorem get?_erase (c : Catalog α) (name other : String) :
    (c.erase name).get? other = if other = name then none else c.get? other :=
  lookup_filter_ne c.entries name other

@[simp] theorem get?_insert (c : Catalog α) (name other : String) (value : α) :
    (c.insert name value).get? other = if other = name then some value else c.get? other := by
  show List.lookup other ((name, value) :: (c.erase name).entries) = _
  rw [lookup_cons_eq_ite]
  by_cases h : other = name
  · simp [h]
  · rw [if_neg h, if_neg h]
    exact (get?_erase c name other).trans (if_neg h)

@[simp] theorem get?_modify (c : Catalog α) (name other : String) (f : α → α) :
    (c.modify name f).get? other
      = if other = name then (c.get? other).map f else c.get? other := by
  show List.lookup other (c.entries.map fun e => if e.1 = name then (e.1, f e.2) else e) = _
  unfold get?
  induction c.entries with
  | nil => simp
  | cons e rest ih =>
      obtain ⟨key, value⟩ := e
      rw [List.map_cons]
      by_cases hk : key = name
      · rw [if_pos hk, lookup_cons_eq_ite, lookup_cons_eq_ite, ih]
        by_cases ho : other = key
        · simp [ho, hk]
        · simp [ho]
      · rw [if_neg hk, lookup_cons_eq_ite, lookup_cons_eq_ite, ih]
        by_cases ho : other = key
        · simp [ho, hk]
        · simp [ho]

end Catalog

end Rendition
