import EntityQuery.Proofs.Keyed
import EntityQuery.Result.Merge
import EntityQuery.Result.Reading
import Mathlib.Data.List.Induction
import Mathlib.Data.List.Nodup

/-!
# What an instance has gathered

Rows that belong to one result each bring a part of its collections.
`Gathers` says what an instance holds once some rows are merged into it: each
collection that is fetched for it has the elements that the rows bring, each
once and in the order of the rows, and each element has in its turn gathered
those of the rows that bring it.

Merging adds up: an instance that has gathered some rows, merged with one that
has gathered others, has gathered both. One level of that, `Collects.merge`, is for
any relation between an element and the rows that bring it.
-/

namespace EntityQuery

open List Keyed Instance

variable {id : Value} {fetch : Fetch}

def Row.fetchedId? (row : Row) (fetch : Fetch) : Option Value :=
  match row.read fetch.first fetch.layout.identifierType with
  | .ok id => if id.isNull then none else some id
  | .error _ => none

/-- A collection that is fetched for an owner. -/
structure Fetch.Fills (fetches : List Fetch) (owner : FetchOwner) (number : Nat) (fetch : Fetch) :
    Prop where
  numbered : fetches[number]? = some fetch
  owned : fetch.owner = owner
  collection : fetch.collection = true

/-- The instance holds what these rows bring for an owner. -/
inductive Gathers (fetches : List Fetch) : FetchOwner → List Row → Instance → Prop
  | mk {owner : FetchOwner} {rows : List Row} {found : Instance} (elements : Nat → List Instance)
    (sorted : Sorted found.collections)
    (present : ∀ {number fetch}, Fetch.Fills fetches owner number fetch →
      found.collections.lookup fetch.property = some (elements number))
    (ids : ∀ {number fetch}, Fetch.Fills fetches owner number fetch →
      (elements number).map (·.id) = (rows.filterMap (·.fetchedId? fetch)).eraseDups)
    (gathers : ∀ {number fetch}, Fetch.Fills fetches owner number fetch →
      ∀ element ∈ elements number, Gathers fetches (.fetched number)
        (rows.filter fun row => row.fetchedId? fetch = some element.id) element) :
    Gathers fetches owner rows found

/-! ## Lists without repetition -/

section Distinct

variable {α : Type} [BEq α] [LawfulBEq α]

theorem eraseDups_concat (as : List α) (a : α) : (as ++ [a]).eraseDups
    = if a ∈ as then as.eraseDups else as.eraseDups ++ [a] := by
  by_cases h : a ∈ as
  · simp [eraseDups_append, List.removeAll, h]
  · simp [eraseDups_append, List.removeAll, eraseDups_cons, h]

theorem nodup_eraseDups (as : List α) : as.eraseDups.Nodup := by
  induction as using List.reverseRecOn with
  | nil => simp
  | append_singleton as a ih =>
    rw [eraseDups_concat]
    by_cases h : a ∈ as
    · rw [if_pos h]
      exact ih
    · rw [if_neg h, nodup_append]
      refine ⟨ih, nodup_singleton a, ?_⟩
      rintro b hb c hc rfl
      rw [mem_singleton] at hc
      exact h (hc ▸ mem_eraseDups.mp hb)

theorem eraseDups_append_eraseDups (as bs : List α) :
    (as ++ bs.eraseDups).eraseDups = (as ++ bs).eraseDups := by
  induction bs using List.reverseRecOn with
  | nil => simp
  | append_singleton bs b ih =>
    rw [eraseDups_concat, ← append_assoc, eraseDups_concat]
    by_cases hb : b ∈ bs
    · rw [if_pos hb, if_pos (mem_append_right _ hb), ih]
    · rw [if_neg hb, ← append_assoc, eraseDups_concat, ih]
      simp only [mem_append, mem_eraseDups]

end Distinct

section ChangeFirst

variable {α β : Type} {test : α → Bool} {change : α → α}

theorem map_changeFirst {f : α → β} (h : ∀ a, f (change a) = f a) (as : List α) :
    (changeFirst test change as).map f = as.map f := by
  induction as with
  | nil => rfl
  | cons a rest ih =>
    unfold changeFirst
    split
    · rw [map_cons, map_cons, h]
    · rw [map_cons, map_cons, ih]

/-- Where no two elements pass the test, the first is the only one. -/
theorem changeFirst_eq_map : ∀ {as : List α},
    as.Pairwise (fun a b => test a = true → test b = false) →
    changeFirst test change as = as.map fun a => if test a then change a else a
  | [], _ => rfl
  | a :: rest, h => by
    obtain ⟨ha, hrest⟩ := pairwise_cons.mp h
    unfold changeFirst
    by_cases htest : test a = true
    · have hsame : rest.map (fun a => if test a then change a else a) = rest := by
        conv_rhs => rw [← map_id rest]
        refine map_congr_left fun b hb => ?_
        rw [ha b hb htest]
        rfl
      rw [if_pos htest, map_cons, if_pos htest, hsame]
    · rw [if_neg htest, map_cons, if_neg htest, changeFirst_eq_map hrest]

end ChangeFirst

/-! ## Elements -/

/-- An identifier that compares by equality. -/
def Value.Exact (id : Value) : Prop :=
  ∀ x, id ≠ .double x

theorem Value.same_iff {id' : Value} (h : id.Exact) : id.same id' = true ↔ id = id' := by
  cases id with
  | double x => exact (h x rfl).elim
  | _ => simp [Value.same]

namespace Value

/-- Identifiers that are the same only when they are equal. -/
def Comparable (ids : List Value) : Prop :=
  ∀ id ∈ ids, ∀ id' ∈ ids, id.same id' = true ↔ id = id'

theorem comparable_of_exact {ids : List Value} (h : ∀ id ∈ ids, id.Exact) : Comparable ids :=
  fun id hid _ _ => same_iff (h id hid)

theorem Comparable.mono {ids ids' : List Value} (h : Comparable ids) (hsubset : ids' ⊆ ids) :
    Comparable ids' :=
  fun id hid id' hid' => h id (hsubset hid) id' (hsubset hid')

end Value

namespace Instance

def addElement (current : List Instance) (element : Instance) : List Instance :=
  if current.any fun other => other.id.same element.id then
    changeFirst (fun other => other.id.same element.id) (fun other => other.merge element) current
  else current ++ [element]

theorem mergeElements_cons (current : List Instance) (element : Instance) (rest : List Instance) :
    mergeElements current (element :: rest)
      = mergeElements (addElement current element) rest := by
  rw [mergeElements]
  rfl

theorem merge_id (owner found : Instance) : (owner.merge found).id = owner.id := by
  cases found
  rw [merge]
  rfl

theorem merge_entity (owner found : Instance) : (owner.merge found).entity = owner.entity := by
  cases found
  rw [merge]
  rfl

theorem merge_collections (owner found : Instance) :
    (owner.merge found).collections = mergeCollections owner.collections found.collections := by
  cases found
  rw [merge]
  rfl

theorem merge_properties (owner found : Instance) :
    (owner.merge found).properties = mergeProperties owner.properties found.properties := by
  cases found
  rw [merge]
  rfl

section Elements

variable {current : List Instance} {element : Instance}

theorem any_same_iff
    (h : ∀ other ∈ current, other.id.same element.id = true ↔ other.id = element.id) :
    (current.any fun other => other.id.same element.id) = true
      ↔ element.id ∈ current.map (·.id) := by
  rw [any_eq_true, mem_map]
  exact exists_congr fun other => and_congr_right fun hother => h other hother

theorem addElement_ids
    (h : ∀ other ∈ current, other.id.same element.id = true ↔ other.id = element.id) :
    (addElement current element).map (·.id)
      = if element.id ∈ current.map (·.id) then current.map (·.id)
        else current.map (·.id) ++ [element.id] := by
  unfold addElement
  by_cases hsame : element.id ∈ current.map (·.id)
  · rw [if_pos ((any_same_iff h).mpr hsame), if_pos hsame, map_changeFirst]
    exact fun other => merge_id other element
  · rw [if_neg fun h' => hsame ((any_same_iff h).mp h'), if_neg hsame, map_append]
    rfl

/-- What an element added to others can come from. -/
theorem mem_addElement
    (h : ∀ other ∈ current, other.id.same element.id = true ↔ other.id = element.id)
    (hnodup : (current.map (·.id)).Nodup) {found : Instance}
    (hfound : found ∈ addElement current element) :
    (found ∈ current ∧ found.id ≠ element.id)
      ∨ (found = element ∧ element.id ∉ current.map (·.id))
      ∨ ∃ other ∈ current, other.id = element.id ∧ found = other.merge element := by
  unfold addElement at hfound
  by_cases hsame : element.id ∈ current.map (·.id)
  · rw [if_pos ((any_same_iff h).mpr hsame), changeFirst_eq_map] at hfound
    · obtain ⟨other, hother, rfl⟩ := mem_map.mp hfound
      by_cases htest : other.id.same element.id = true
      · rw [if_pos htest]
        exact .inr (.inr ⟨other, hother, (h other hother).mp htest, rfl⟩)
      · rw [if_neg htest]
        exact .inl ⟨hother, fun hid => htest ((h other hother).mpr hid)⟩
    · refine (pairwise_map.mp hnodup).imp_of_mem ?_
      intro a b ha hb hne htest
      rw [h a ha] at htest
      rw [← Bool.not_eq_true, h b hb]
      exact fun hid => hne (htest.trans hid.symm)
  · rw [if_neg fun h' => hsame ((any_same_iff h).mp h')] at hfound
    rcases mem_append.mp hfound with hold | hnew
    · exact .inl ⟨hold, fun hid => hsame (mem_map.mpr ⟨found, hold, hid⟩)⟩
    · exact .inr (.inl ⟨mem_singleton.mp hnew, hsame⟩)

end Elements

theorem mergeElements_ids : ∀ {elements current : List Instance} {ids : List Value},
    Value.Comparable (ids ++ elements.map (·.id)) → current.map (·.id) = ids.eraseDups →
    (mergeElements current elements).map (·.id) = (ids ++ elements.map (·.id)).eraseDups
  | [], current, ids, _, hcurrent => by
    rw [mergeElements, map_nil, append_nil, hcurrent]
  | element :: rest, current, ids, hids, hcurrent => by
    have hsame : ∀ other ∈ current, other.id.same element.id = true ↔ other.id = element.id := by
      intro other hother
      have hother' : other.id ∈ ids := by
        rw [← mem_eraseDups, ← hcurrent]
        exact mem_map_of_mem hother
      exact hids _ (mem_append_left _ hother') _ (mem_append_right _ (.head _))
    have hadd : (addElement current element).map (·.id) = (ids ++ [element.id]).eraseDups := by
      rw [addElement_ids hsame, eraseDups_concat, hcurrent]
      simp only [mem_eraseDups]
    rw [map_cons, append_cons] at hids ⊢
    rw [mergeElements_cons, mergeElements_ids hids hadd]

/-- An element of a merged collection is one of the first collection, one of the
second, or two with one identifier merged. -/
theorem mem_mergeElements : ∀ {elements current : List Instance} {found : Instance},
    Value.Comparable (current.map (·.id) ++ elements.map (·.id)) →
    (current.map (·.id)).Nodup → (elements.map (·.id)).Nodup →
    found ∈ mergeElements current elements →
    (found ∈ current ∧ found.id ∉ elements.map (·.id))
      ∨ (found ∈ elements ∧ found.id ∉ current.map (·.id))
      ∨ ∃ other ∈ current, ∃ element ∈ elements, other.id = element.id
        ∧ found = other.merge element
  | [], current, found, _, _, _, hfound => by
    rw [mergeElements] at hfound
    exact .inl ⟨hfound, not_mem_nil⟩
  | element :: rest, current, found, hids, hnodup, hdistinct, hfound => by
    obtain ⟨hnew, hdistinct⟩ := nodup_cons.mp hdistinct
    have hcurrent : ∀ other ∈ current,
        other.id.same element.id = true ↔ other.id = element.id := fun other hother =>
      hids _ (mem_append_left _ (mem_map_of_mem hother)) _ (mem_append_right _ (.head _))
    have hadd := addElement_ids hcurrent
    have hids' : Value.Comparable ((addElement current element).map (·.id) ++ rest.map (·.id)) := by
      refine hids.mono (append_subset.mpr ⟨?_, ?_⟩)
      · rw [hadd]
        split
        · exact subset_append_left ..
        · exact append_subset.mpr ⟨subset_append_left .., by simp⟩
      · exact subset_append_of_subset_right _ (subset_cons_self ..)
    have hnodup' : ((addElement current element).map (·.id)).Nodup := by
      rw [hadd]
      split
      · exact hnodup
      · rename_i hmem
        exact nodup_append.mpr ⟨hnodup, nodup_singleton _, fun a ha b hb hab =>
          hmem (mem_singleton.mp hb ▸ hab ▸ ha)⟩
    have hsubset : ∀ id ∈ current.map (·.id), id ∈ (addElement current element).map (·.id) := by
      intro id hid
      rw [hadd]
      split
      · exact hid
      · exact mem_append_left _ hid
    rw [mergeElements_cons] at hfound
    rcases mem_mergeElements hids' hnodup' hdistinct
      hfound with ⟨hadded, hrest⟩ | ⟨hrest, hadded⟩ | ⟨other, hother, later, hlater, hid, rfl⟩
    · rcases mem_addElement hcurrent hnodup hadded with
        ⟨hold, hne⟩ | ⟨rfl, hcurrent'⟩ | ⟨old, hold, hid, rfl⟩
      · exact .inl ⟨hold, fun h => (mem_cons.mp h).elim hne hrest⟩
      · exact .inr (.inl ⟨.head _, hcurrent'⟩)
      · exact .inr (.inr ⟨old, hold, element, .head _, hid, rfl⟩)
    · exact .inr (.inl ⟨.tail _ hrest, fun h => hadded (hsubset _ h)⟩)
    · -- No later element has the identifier of this one.
      have hne : other.id ≠ element.id := by
        intro h
        exact hnew (mem_map.mpr ⟨later, hlater, hid.symm.trans h⟩)
      rcases mem_addElement hcurrent hnodup hother with ⟨hold, -⟩ | ⟨rfl, -⟩ | ⟨old, -, hold, rfl⟩
      · exact .inr (.inr ⟨other, hold, later, .tail _ hlater, hid, rfl⟩)
      · exact (hne rfl).elim
      · exact (hne ((merge_id ..).trans hold)).elim

/-! ## Collections -/

/-- A collection that the second instance has is merged into that of the first. -/
theorem lookup_mergeCollections (name : String) :
    ∀ {collections current : List (String × List Instance)}, Sorted collections →
      (mergeCollections current collections).lookup name
        = (collections.lookup name).elim (current.lookup name) fun elements =>
          some (mergeElements ((current.lookup name).getD []) elements)
  | [], current, _ => by
    rw [mergeCollections]
    rfl
  | (other, elements) :: rest, current, hsorted => by
    have hrest := (pairwise_cons.mp hsorted).2
    rw [mergeCollections, lookup_mergeCollections name hrest, lookup_insert]
    by_cases hname : name = other
    · subst hname
      rw [hsorted.lookup_rest, if_pos rfl, lookup_cons_self]
      rfl
    · rw [if_neg hname, lookup_cons_of_ne hname]

theorem sorted_mergeCollections : ∀ {collections current : List (String × List Instance)},
    Sorted current → Sorted (mergeCollections current collections)
  | [], current, h => by
    rw [mergeCollections]
    exact h
  | (name, elements) :: rest, current, h => by
    rw [mergeCollections]
    exact sorted_mergeCollections (h.insert _ _)

/-! ## Properties -/

/-- A property with what another row brings for it. -/
def takeIn : ResultValue → Option ResultValue → ResultValue
  | .entity old, some (.entity found) =>
    if old.id.same found.id then .entity (old.merge found) else .entity old
  | value, _ => value

theorem takeIn_of_not_entity {value : ResultValue} (h : ∀ found, value ≠ .entity found)
    (other : Option ResultValue) : takeIn value other = value := by
  cases value with
  | entity found => exact (h found rfl).elim
  | _ => rfl

theorem takeIn_none (value : ResultValue) : takeIn value none = value := by
  cases value <;> rfl

theorem takeIn_of_other {old : Instance} {other : Option ResultValue}
    (h : ∀ new, other = some (.entity new) → ¬ old.id.same new.id = true) :
    takeIn (.entity old) other = .entity old := by
  cases other with
  | none => rfl
  | some value =>
    cases value with
    | entity new => exact if_neg (h new rfl)
    | _ => rfl

/-- One step of merging properties: a loaded entity takes in another of the same
identifier, and else nothing changes. -/
theorem mergeProperties_cons (current : List (String × ResultValue)) (name : String)
    (value : ResultValue) (rest : List (String × ResultValue)) :
    (mergeProperties current ((name, value) :: rest) = mergeProperties current rest
      ∧ ∀ old, current.lookup name = some old → takeIn old (some value) = old)
    ∨ ∃ old found, value = .entity found ∧ current.lookup name = some (.entity old)
      ∧ old.id.same found.id = true
      ∧ mergeProperties current ((name, value) :: rest)
        = mergeProperties (insert name (.entity (old.merge found)) current) rest := by
  cases value with
  | entity found =>
    rw [mergeProperties]
    cases hlookup : current.lookup name with
    | none =>
      refine .inl ⟨rfl, fun old hold => ?_⟩
      cases hold
    | some old =>
      cases old with
      | entity old =>
        dsimp only
        by_cases hsame : old.id.same found.id = true
        · rw [if_pos hsame]
          exact .inr ⟨old, found, rfl, rfl, hsame, rfl⟩
        · rw [if_neg hsame]
          refine .inl ⟨rfl, fun other hother => ?_⟩
          obtain rfl := Option.some.inj hother
          exact if_neg hsame
      | _ =>
        refine .inl ⟨rfl, fun other hother => ?_⟩
        obtain rfl := Option.some.inj hother
        rfl
  | _ =>
    refine .inl ⟨?_, fun old _ => by cases old <;> rfl⟩
    rw [mergeProperties]
    intro name found h
    cases h

/-- Each property takes in what the second instance has under its name. -/
theorem lookup_mergeProperties (name : String) :
    ∀ {properties current : List (String × ResultValue)}, Sorted properties →
      (mergeProperties current properties).lookup name
        = (current.lookup name).map fun value => takeIn value (properties.lookup name)
  | [], current, _ => by
    rw [mergeProperties]
    cases current.lookup name with
    | none => rfl
    | some value => exact congrArg some (takeIn_none value).symm
  | (other, value) :: rest, current, hsorted => by
    have ih := fun current => @lookup_mergeProperties name rest current (pairwise_cons.mp hsorted).2
    have hstep := mergeProperties_cons current other value rest
    by_cases hname : name = other
    · subst hname
      rw [lookup_cons_self]
      rcases hstep with ⟨hmerge, hsame⟩ | ⟨old, found, rfl, hold, hsame, hmerge⟩
      · rw [hmerge, ih, hsorted.lookup_rest]
        cases hlookup : current.lookup name with
        | none => rfl
        | some old => exact congrArg some ((takeIn_none old).trans (hsame old hlookup).symm)
      · rw [hmerge, ih, hsorted.lookup_rest, lookup_insert, if_pos rfl, hold]
        exact congrArg some ((takeIn_none _).trans (if_pos hsame).symm)
    · rw [lookup_cons_of_ne hname]
      rcases hstep with ⟨hmerge, -⟩ | ⟨_, _, -, -, -, hmerge⟩
      · rw [hmerge, ih]
      · rw [hmerge, ih, lookup_insert, if_neg hname]

theorem sorted_mergeProperties : ∀ {properties current : List (String × ResultValue)},
    Sorted current → Sorted (mergeProperties current properties)
  | [], current, h => by
    rw [mergeProperties]
    exact h
  | (name, value) :: rest, current, h => by
    rcases mergeProperties_cons current name value rest with ⟨hmerge, -⟩ | ⟨_, _, -, -, -, hmerge⟩
    · rw [hmerge]
      exact sorted_mergeProperties h
    · rw [hmerge]
      exact sorted_mergeProperties (h.insert _ _)

end Instance

/-! ## Merging -/

namespace Gathers

variable {fetches : List Fetch} {owner : FetchOwner} {rows rows' : List Row}
  {found found' : Instance}

theorem filter_fetchedId?_eq_nil (h : id ∉ (rows.filterMap (·.fetchedId? fetch)).eraseDups) :
    rows.filter (fun row => row.fetchedId? fetch = some id) = [] := by
  rw [filter_eq_nil_iff]
  intro row hrow hid
  refine h (mem_eraseDups.mpr (mem_filterMap.mpr ⟨row, hrow, ?_⟩))
  simpa using hid

theorem exact_of_read {type : SemanticType} {cell : Cell} {value : Value}
    (htype : type ≠ .double) (h : cell.read type = .ok value) : value.Exact := by
  intro x hx
  subst hx
  unfold Cell.read at h
  split at h <;> try cases h
  · exact htype rfl
  · exact htype rfl
  · unfold Cell.timestamp at h
    split at h <;> try cases h
    · split at h <;> cases h
    · split at h <;> cases h

/-- Identifiers that are read as something else than doubles compare by
equality. -/
theorem exact_of_fetchedId? {row : Row} (htype : fetch.layout.identifierType ≠ .double)
    (h : row.fetchedId? fetch = some id) : id.Exact := by
  unfold Row.fetchedId? at h
  split at h
  · rename_i value hread
    split at h
    · cases h
    · obtain rfl := Option.some.inj h
      unfold Row.read at hread
      split at hread
      · cases hread
      · split at hread
        · rename_i value' hcell
          obtain rfl := Except.ok.inj hread
          exact exact_of_read htype hcell
        · cases hread
        · cases hread
  · cases h

/-- Identifiers of a type other than double can be compared. -/
theorem comparable_ids (htype : fetch.layout.identifierType ≠ .double) (rows : List Row) :
    Value.Comparable (rows.filterMap (·.fetchedId? fetch)) := by
  refine Value.comparable_of_exact fun id hid => ?_
  obtain ⟨row, -, hrow⟩ := mem_filterMap.mp hid
  exact exact_of_fetchedId? htype hrow

end Gathers

/-- The collections that are fetched for an owner hold what these rows bring, as
far as the fetches from a number on go, and a relation holds between each element
and the rows that bring it. -/
structure Collects (R : Nat → List Row → Instance → Prop) (fetches : List Fetch) (start : Nat)
    (owner : FetchOwner) (rows : List Row) (found : Instance) : Prop where
  sorted : Sorted found.collections
  present : ∀ {number fetch}, Fetch.Fills fetches owner number fetch → start ≤ number →
    ∃ elements, found.collections.lookup fetch.property = some elements
      ∧ elements.map (·.id) = (rows.filterMap (·.fetchedId? fetch)).eraseDups
      ∧ ∀ element ∈ elements,
        R number (rows.filter fun row => row.fetchedId? fetch = some element.id) element

namespace Collects

variable {R R' R'' : Nat → List Row → Instance → Prop} {fetches : List Fetch} {start : Nat}
  {owner : FetchOwner} {rows rows' : List Row} {found found' : Instance}

theorem mono (h : Collects R fetches start owner rows found)
    (himp : ∀ {number part element}, part ⊆ rows → R number part element → R' number part element) :
    Collects R' fetches start owner rows found := by
  refine ⟨h.sorted, fun hfills hstart => ?_⟩
  obtain ⟨elements, hlookup, hids, hrelated⟩ := h.present hfills hstart
  exact ⟨elements, hlookup, hids, fun element helement =>
    himp (filter_subset_self _) (hrelated element helement)⟩

/-- The collections of two instances, merged. -/
theorem merge
    (hids : ∀ {number fetch}, Fetch.Fills fetches owner number fetch →
      Value.Comparable ((rows ++ rows').filterMap (·.fetchedId? fetch)))
    (h : Collects R fetches start owner rows found)
    (h' : Collects R' fetches start owner rows' found')
    (hold : ∀ {number part old}, R number part old → R'' number part old)
    (hnew : ∀ {number part new}, R' number part new → R'' number part new)
    (hmerge : ∀ {number part part' old new}, R number part old → R' number part' new →
      old.id = new.id → R'' number (part ++ part') (old.merge new)) :
    Collects R'' fetches start owner (rows ++ rows') (found.merge found') := by
  refine ⟨?_, ?_⟩
  · rw [merge_collections]
    exact sorted_mergeCollections h.sorted
  · intro number fetch hfills hstart
    obtain ⟨elements, hlookup, helements, hrelated⟩ := h.present hfills hstart
    obtain ⟨elements', hlookup', helements', hrelated'⟩ := h'.present hfills hstart
    have hids := hids hfills
    rw [filterMap_append] at hids
    refine ⟨mergeElements elements elements', ?_, ?_, ?_⟩
    · rw [merge_collections, lookup_mergeCollections _ h'.sorted, hlookup, hlookup']
      rfl
    · rw [mergeElements_ids _ helements, helements', eraseDups_append_eraseDups, filterMap_append]
      refine hids.mono (append_subset.mpr ⟨subset_append_left .., fun id hid => ?_⟩)
      rw [helements', mem_eraseDups] at hid
      exact mem_append_right _ hid
    · intro element helement
      have hids' : Value.Comparable (elements.map (·.id) ++ elements'.map (·.id)) := by
        refine hids.mono (append_subset.mpr ⟨fun id hid => ?_, fun id hid => ?_⟩)
        · rw [helements, mem_eraseDups] at hid
          exact mem_append_left _ hid
        · rw [helements', mem_eraseDups] at hid
          exact mem_append_right _ hid
      rw [filter_append]
      rcases mem_mergeElements hids' (helements ▸ nodup_eraseDups _)
        (helements' ▸ nodup_eraseDups _) helement with
        ⟨hfirst, hother⟩ | ⟨hsecond, hother⟩ | ⟨old, hfirst, new, hsecond, hid, rfl⟩
      · rw [helements'] at hother
        rw [Gathers.filter_fetchedId?_eq_nil hother, append_nil]
        exact hold (hrelated element hfirst)
      · rw [helements] at hother
        rw [Gathers.filter_fetchedId?_eq_nil hother, nil_append]
        exact hnew (hrelated' element hsecond)
      · rw [merge_id]
        exact hmerge (hrelated old hfirst) (hid ▸ hrelated' new hsecond) hid

/-- Where the elements have gathered their rows, the owner has too. -/
theorem gathers
    (h : Collects (fun number => Gathers fetches (.fetched number)) fetches start owner rows found)
    (hstart : ∀ {number fetch}, Fetch.Fills fetches owner number fetch → start ≤ number) :
    Gathers fetches owner rows found := by
  have hpresent : ∀ {number fetch}, Fetch.Fills fetches owner number fetch →
      ∃ elements, (fetches[number]?).elim []
          (fun fetch => (found.collections.lookup fetch.property).getD []) = elements
        ∧ found.collections.lookup fetch.property = some elements
        ∧ elements.map (·.id) = (rows.filterMap (·.fetchedId? fetch)).eraseDups
        ∧ ∀ element ∈ elements, Gathers fetches (.fetched number)
          (rows.filter fun row => row.fetchedId? fetch = some element.id) element := by
    intro number fetch hfills
    obtain ⟨elements, hlookup, hrest⟩ := h.present hfills (hstart hfills)
    refine ⟨elements, ?_, hlookup, hrest⟩
    rw [hfills.numbered, Option.elim_some, hlookup, Option.getD_some]
  refine .mk (fun number => (fetches[number]?).elim []
    fun fetch => (found.collections.lookup fetch.property).getD []) h.sorted ?_ ?_ ?_
  · intro number fetch hfills
    obtain ⟨elements, helements, hlookup, -⟩ := hpresent hfills
    rw [helements, hlookup]
  · intro number fetch hfills
    obtain ⟨elements, helements, -, hids, -⟩ := hpresent hfills
    rw [helements, hids]
  · intro number fetch hfills element helement
    obtain ⟨elements, helements, -, -, hgathers⟩ := hpresent hfills
    rw [helements] at helement
    exact hgathers element helement

end Collects

end EntityQuery
