/-!
# Entries sorted by key

Maps whose order shows: parameters, filters, entities, properties and collections all come out sorted
by key. Such a map is a list of entries in strictly increasing order of their keys; `List.lookup`
finds an entry, and `Keyed.insert` adds or replaces one and keeps the order.
-/

namespace EntityQuery.Keyed

variable {κ α : Type} [DecidableEq κ] [LT κ] [DecidableLT κ]

/-- The entries with the value of one key set. -/
def insert (key : κ) (value : α) : List (κ × α) → List (κ × α)
  | [] => [(key, value)]
  | (other, old) :: rest =>
    if key = other then (key, value) :: rest
    else if key < other then (key, value) :: (other, old) :: rest
    else (other, old) :: insert key value rest

/-- The sorted entries of a list; a later entry replaces an earlier one with the same key. -/
def ofList (entries : List (κ × α)) : List (κ × α) :=
  entries.foldl (fun sorted (key, value) => insert key value sorted) []

def insertKey (key : κ) : List κ → List κ
  | [] => [key]
  | other :: rest =>
    if key = other then other :: rest
    else if key < other then key :: other :: rest
    else other :: insertKey key rest

omit [LT κ] [DecidableLT κ] in
private theorem lookup_cons_ite (key other : κ) (value : α) (entries : List (κ × α)) :
    ((key, value) :: entries).lookup other =
      if other = key then some value else entries.lookup other := by
  by_cases h : other = key
  · simp [h]
  · have hb : (other == key) = false := by simp [h]
    simp [List.lookup_cons, hb, h]

theorem lookup_insert (key other : κ) (value : α) (entries : List (κ × α)) :
    (insert key value entries).lookup other =
      if other = key then some value else entries.lookup other := by
  induction entries with
  | nil => exact lookup_cons_ite key other value []
  | cons entry rest ih =>
    obtain ⟨first, old⟩ := entry
    unfold insert
    split
    · rename_i hkey
      subst hkey
      simp only [lookup_cons_ite]
      split <;> rfl
    · split
      · rw [lookup_cons_ite]
      · rename_i hkey _
        rw [lookup_cons_ite, lookup_cons_ite, ih]
        by_cases hfirst : other = first
        · have : ¬ other = key := fun h => hkey (h ▸ hfirst)
          simp [hfirst, Ne.symm hkey]
        · simp [hfirst]

theorem mem_insertKey (key other : κ) (keys : List κ) :
    other ∈ insertKey key keys ↔ other = key ∨ other ∈ keys := by
  induction keys with
  | nil => simp [insertKey]
  | cons first rest ih =>
    unfold insertKey
    split
    · rename_i h
      subst h
      simp
    · split
      · simp
      · simp only [List.mem_cons, ih]
        constructor <;> rintro (h | h | h) <;> simp [h]

end EntityQuery.Keyed
