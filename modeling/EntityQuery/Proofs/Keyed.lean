import EntityQuery.Keyed
import Mathlib.Data.String.Basic

/-!
# Sorted entries

Entries that are put in one after the other by `Keyed.insert` stand in
strictly increasing order of their keys, so that no key comes twice.
-/

namespace EntityQuery.Keyed

open List Option

variable {κ : Type}

variable {α β : Type}

variable {entries : List (κ × α)} {value : α} {key : κ} {rest : List (String × α)}
  {all : List (String × α)} {entry : κ × α}

/-- The keys increase. -/
def Sorted (entries : List (String × α)) : Prop :=
  entries.Pairwise fun entry later => entry.1 < later.1

theorem lookup_mem [BEq κ] [LawfulBEq κ] (h : entries.lookup key = some value) :
    (key, value) ∈ entries := by
  obtain ⟨before, after, rfl, -⟩ := lookup_eq_some_iff.mp h
  simp

theorem lookup_cons_of_ne [BEq κ] [LawfulBEq κ] {key other : κ} (h : key ≠ other) (value : α)
    (rest : List (κ × α)) : ((other, value) :: rest).lookup key = rest.lookup key := by
  have hbeq : (key == other) = false := by simpa using h
  simp [lookup_cons, hbeq]

theorem isSome_lookup_iff [BEq κ] [LawfulBEq κ] :
    (entries.lookup key).isSome = true ↔ key ∈ entries.map (·.1) := by
  constructor
  · intro h
    obtain ⟨value, hvalue⟩ := isSome_iff_exists.mp h
    exact mem_map_of_mem (f := (·.1)) (lookup_mem hvalue)
  · intro h
    obtain ⟨entry, hentry, rfl⟩ := mem_map.mp h
    rw [← not_isNone, Bool.not_eq_true', ← Bool.not_eq_true, isNone_iff_eq_none]
    intro hnone
    simpa using lookup_eq_none_iff.mp hnone entry hentry

theorem lookup_of_mem [LinearOrder κ] (h : entries.Pairwise (·.1 < ·.1))
    (hentry : entry ∈ entries) : entries.lookup entry.1 = some entry.2 := by
  obtain ⟨before, after, rfl⟩ := append_of_mem hentry
  refine lookup_eq_some_iff.mpr ⟨before, after, rfl, fun other hother => ?_⟩
  have hlt := (pairwise_append.mp h).2.2 other hother entry (.head _)
  simpa using (ne_of_lt hlt).symm

theorem sorted_nil : Sorted ([] : List (String × α)) := List.Pairwise.nil

theorem mem_insert [LinearOrder κ] :
    ∀ {entries : List (κ × α)}, entry ∈ insert key value entries →
      entry = (key, value) ∨ entry ∈ entries
  | [], h => .inl (mem_singleton.mp h)
  | (other, old) :: rest, h => by
    unfold insert at h
    split at h
    · rcases mem_cons.mp h with h | h
      · exact .inl h
      · exact .inr (.tail _ h)
    · split at h
      · rcases mem_cons.mp h with h | h
        · exact .inl h
        · exact .inr h
      · rcases mem_cons.mp h with h | h
        · exact .inr (h ▸ .head _)
        · rcases mem_insert h with h | h
          · exact .inl h
          · exact .inr (.tail _ h)

theorem pairwise_insert [LinearOrder κ] (key : κ) (value : α) :
    ∀ {entries : List (κ × α)}, entries.Pairwise (·.1 < ·.1) →
      (insert key value entries).Pairwise (·.1 < ·.1)
  | [], _ => pairwise_singleton ..
  | (other, old) :: rest, h => by
    obtain ⟨hother, hrest⟩ := pairwise_cons.mp h
    unfold insert
    split
    · rename_i hkey
      exact pairwise_cons.mpr ⟨fun entry hentry => hkey ▸ hother entry hentry, hrest⟩
    · rename_i hne
      split
      · rename_i hlt
        refine pairwise_cons.mpr ⟨fun entry hentry => ?_, h⟩
        rcases mem_cons.mp hentry with rfl | hentry
        · exact hlt
        · exact lt_trans hlt (hother entry hentry)
      · rename_i hge
        refine pairwise_cons.mpr ⟨fun entry hentry => ?_, pairwise_insert key value hrest⟩
        rcases mem_insert hentry with rfl | hentry
        · exact (lt_trichotomy other key).resolve_right fun h =>
            h.elim (fun heq => hne heq.symm) hge
        · exact hother entry hentry

theorem Sorted.insert (key : String) (value : α) {entries : List (String × α)}
    (h : Sorted entries) : Sorted (insert key value entries) :=
  pairwise_insert key value h

theorem foldl_insert_induct {P : List (String × α) → Prop}
    (h : ∀ entry ∈ all, ∀ {entries}, P entries → P (Keyed.insert entry.1 entry.2 entries)) :
    ∀ {entries}, P entries →
      P (all.foldl (fun sorted entry => Keyed.insert entry.1 entry.2 sorted) entries) := by
  induction all with
  | nil => exact id
  | cons entry rest ih =>
    intro entries hentries
    exact ih (fun entry hentry => h entry (.tail _ hentry)) (h entry (.head _) hentries)

theorem sorted_ofList (entries : List (String × α)) : Sorted (ofList entries) :=
  foldl_insert_induct (P := Sorted) (fun entry _ {_} h => h.insert entry.1 entry.2) sorted_nil

theorem mem_of_mem_ofList : ∀ entry ∈ ofList all, entry ∈ all := by
  refine foldl_insert_induct (P := fun entries => ∀ entry ∈ entries, entry ∈ all) ?_
    (forall_mem_nil _)
  intro entry hentry entries h other hother
  rcases mem_insert hother with rfl | hother
  · exact hentry
  · exact h other hother

/-- What comes after an entry has other keys. -/
theorem Sorted.lookup_rest {name : String} (h : Sorted ((name, value) :: rest)) :
    rest.lookup name = none := by
  obtain ⟨hname, -⟩ := pairwise_cons.mp h
  rw [lookup_eq_none_iff]
  intro entry hentry
  have hlt := hname entry hentry
  simpa using (ne_of_lt hlt)

theorem lookup_map (f : α → β) (key : String) : ∀ entries : List (String × α),
    (entries.map fun entry => (entry.1, f entry.2)).lookup key = (entries.lookup key).map f
  | [] => rfl
  | (other, value) :: rest => by
    by_cases hkey : key = other
    · subst hkey
      rw [map_cons, lookup_cons_self, lookup_cons_self, map_some]
    · rw [map_cons, lookup_cons_of_ne hkey, lookup_cons_of_ne hkey, lookup_map f key rest]

/-- Entries of one key whose values are related. -/
inductive SameKey (R : α → β → Prop) : String × α → String × β → Prop
  | mk {key : String} {a : α} {b : β} (related : R a b) : SameKey R (key, a) (key, b)

theorem Sorted.lookup_of_lt {key other : String} (h : Sorted ((other, value) :: rest))
    (hlt : key < other) :
    ((other, value) :: rest).lookup key = none := by
  rw [lookup_eq_none_iff]
  have hrest : ∀ entry ∈ (other, value) :: rest, key < entry.1 :=
    forall_mem_cons.mpr ⟨hlt, fun entry hentry =>
      lt_trans hlt ((pairwise_cons.mp h).1 entry hentry)⟩
  intro entry hentry
  simpa using ne_of_lt (hrest entry hentry)

/-- Sorted entries with related values under each key correspond one by one. -/
theorem forall₂_sameKey {R : α → β → Prop} :
    ∀ {entries : List (String × α)} {others : List (String × β)}, Sorted entries → Sorted others →
      (∀ key, Option.Rel R (entries.lookup key) (others.lookup key)) →
      List.Forall₂ (SameKey R) entries others
  | [], [], _, _, _ => .nil
  | [], (other, b) :: others, _, _, h => by
    have hother := h other
    rw [lookup_cons_self] at hother
    cases hother
  | (key, a) :: rest, [], _, _, h => by
    have hkey := h key
    rw [lookup_cons_self] at hkey
    cases hkey
  | (key, a) :: rest, (other, b) :: others, hsorted, hsorted', h => by
    have hkey := h key
    have hother := h other
    rw [lookup_cons_self] at hkey hother
    rcases lt_trichotomy key other with hlt | rfl | hlt
    · rw [hsorted'.lookup_of_lt hlt] at hkey
      cases hkey
    · rw [lookup_cons_self] at hkey
      cases hkey with
      | some hrelated =>
        refine .cons ⟨hrelated⟩ (forall₂_sameKey (pairwise_cons.mp hsorted).2
          (pairwise_cons.mp hsorted').2 fun other => ?_)
        by_cases hne : other = key
        · rw [hne, hsorted.lookup_rest, hsorted'.lookup_rest]
          exact .none
        · have hrest := h other
          rw [lookup_cons_of_ne hne, lookup_cons_of_ne hne] at hrest
          exact hrest
    · rw [hsorted.lookup_of_lt hlt] at hother
      cases hother

theorem pairwise_insertKey [LinearOrder κ] (key : κ) :
    ∀ {keys : List κ}, keys.Pairwise (· < ·) → (insertKey key keys).Pairwise (· < ·)
  | [], _ => pairwise_singleton ..
  | other :: rest, h => by
    obtain ⟨hother, hrest⟩ := pairwise_cons.mp h
    unfold insertKey
    split
    · exact h
    · rename_i hne
      split
      · rename_i hlt
        refine pairwise_cons.mpr ⟨?_, h⟩
        exact forall_mem_cons.mpr ⟨hlt, fun later hlater => lt_trans hlt (hother later hlater)⟩
      · rename_i hge
        refine pairwise_cons.mpr ⟨fun later hlater => ?_, pairwise_insertKey key hrest⟩
        rcases (mem_insertKey key later rest).mp hlater with rfl | hlater
        · exact lt_of_le_of_ne (le_of_not_gt hge) (Ne.symm hne)
        · exact hother later hlater

theorem pairwise_foldl_insertKey [LinearOrder κ] (all : List κ) :
    ∀ {sorted : List κ}, sorted.Pairwise (· < ·) →
      (all.foldl (fun sorted key => insertKey key sorted) sorted).Pairwise (· < ·) := by
  induction all with
  | nil => exact id
  | cons key rest ih => exact fun h => ih (pairwise_insertKey key h)

theorem mem_foldl_insertKey [LinearOrder κ] (all : List κ) :
    ∀ {sorted : List κ}, key ∈ all.foldl (fun sorted key => insertKey key sorted) sorted
      ↔ key ∈ all ∨ key ∈ sorted := by
  induction all with
  | nil => simp
  | cons first rest ih =>
    intro sorted
    rw [foldl_cons, ih, mem_insertKey, mem_cons]
    tauto

end EntityQuery.Keyed
