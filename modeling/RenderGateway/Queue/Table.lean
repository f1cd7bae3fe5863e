/-!
# Tables

Finite maps from texts as lists of entries. An insertion under a known key takes
the place of its entry; a new key comes last.
-/

namespace RenderGateway

abbrev Table (α : Type) := List (String × α)

namespace Table

def find? (t : Table α) (key : String) : Option α := List.lookup key t

def keys (t : Table α) : List String := t.map Prod.fst

def insert (key : String) (value : α) : Table α → Table α
  | [] => [(key, value)]
  | (k, v) :: t => if k = key then (key, value) :: t else (k, v) :: insert key value t

def erase (t : Table α) (key : String) : Table α := t.filter fun entry => entry.1 ≠ key

/-- Changes the value of a key, if it has one. -/
def modify (t : Table α) (key : String) (f : α → α) : Table α :=
  t.map fun (k, v) => (k, if k = key then f v else v)

theorem find?_nil (key : String) : find? ([] : Table α) key = none := rfl

theorem find?_cons (k : String) (v : α) (t : Table α) (key : String) :
    find? ((k, v) :: t) key = if k = key then some v else find? t key := by
  by_cases h : k = key
  · simp [find?, h]
  · have : (key == k) = false := by simpa [beq_eq_false_iff_ne] using Ne.symm h
    simp [find?, List.lookup_cons, this, h]

theorem find?_insert (t : Table α) (key other : String) (value : α) :
    find? (insert key value t) other = if key = other then some value else find? t other := by
  induction t with
  | nil => simp [insert, find?_cons, find?_nil]
  | cons entry t ih =>
    obtain ⟨k, v⟩ := entry
    by_cases h : k = key
    · subst h
      simp only [insert, if_true, find?_cons]
      by_cases h' : k = other <;> simp [h']
    · simp only [insert, h, if_false, find?_cons, ih]
      by_cases h' : k = other
      · have : key ≠ other := fun e => h (h'.trans e.symm)
        simp [h', this]
      · simp [h']

theorem find?_erase (t : Table α) (key other : String) :
    find? (erase t key) other = if key = other then none else find? t other := by
  induction t with
  | nil => simp [erase, find?_nil]
  | cons entry t ih =>
    obtain ⟨k, v⟩ := entry
    simp only [erase] at ih ⊢
    by_cases h : k = key
    · subst h
      by_cases h' : k = other <;> simp_all [find?_cons]
    · by_cases h' : k = other
      · have : key ≠ other := fun e => h (h'.trans e.symm)
        simp_all [find?_cons]
      · simp_all [find?_cons]

theorem find?_modify (t : Table α) (key other : String) (f : α → α) :
    find? (modify t key f) other = if key = other then (find? t other).map f else find? t other := by
  induction t with
  | nil => simp [modify, find?_nil]
  | cons entry t ih =>
    obtain ⟨k, v⟩ := entry
    simp only [modify] at ih
    simp only [modify, List.map_cons, find?_cons, ih]
    by_cases h' : k = other
    · subst h'
      by_cases h : k = key
      · simp [h]
      · simp [h, Ne.symm h]
    · simp [h']

theorem find?_foldl_erase (t : Table α) (keys : List String) (other : String) :
    find? (keys.foldl erase t) other = if other ∈ keys then none else find? t other := by
  induction keys generalizing t with
  | nil => simp
  | cons key keys ih =>
    rw [List.foldl_cons, ih, find?_erase]
    by_cases h : key = other
    · simp [h]
    · simp [h, Ne.symm h]

end Table

end RenderGateway
