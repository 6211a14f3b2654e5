import EntityQuery.Proofs.Result.Distinct

/-!
# Merging extends

An instance merged with another keeps what it has, and takes in the elements
that it has not got yet (`Instance.Extended`). Whether an element is there
already is asked by its identifier; identifiers that are the same need not be
equal, since the two zeros are the same, and a NaN is not the same as itself.

Each element of the second instance finds its counterpart in a merged
collection, and it is merged into this one already (`counterpart?_mergeElements`):
so merging it again changes nothing, which is an induction on the second
instance.
-/

namespace EntityQuery

open List Keyed Value

theorem Value.same_of_same {id first second : Value} (hfirst : id.same first)
    (hsecond : id.same second) : first.same second = true := by
  cases id <;> cases first <;> cases second <;> simp_all [Value.same, Double.same]
  grind

theorem Keyed.Sorted.ext {α : Type} {entries others : List (String × α)} (h : Sorted entries)
    (h' : Sorted others) (hlookup : ∀ key, entries.lookup key = others.lookup key) :
    entries = others := by
  have hrel : ∀ key, Option.Rel Eq (entries.lookup key) (others.lookup key) := by
    intro key
    rw [hlookup key]
    cases others.lookup key with
    | none => exact .none
    | some value => exact .some rfl
  refine forall₂_eq_eq_eq ▸ (forall₂_sameKey h h' hrel).imp ?_
  rintro _ _ ⟨rfl⟩
  rfl

/-- Identifiers none of which is a NaN, and no two of which are the same. -/
structure Value.ToldApart (ids : List Value) : Prop where
  same : ∀ id ∈ ids, id.same id = true
  apart : ids.Pairwise fun id later => id.same later = false

namespace Instance

variable {children : List Instance} {P : List Value → Prop} {id : Value}

/-- The maps of an instance are sorted, at every level. -/
inductive Ordered : Instance → Prop
  | mk {found : Instance} (properties : Sorted found.properties)
    (collections : Sorted found.collections)
    (elements : ∀ entry ∈ found.collections, ∀ element ∈ entry.2, element.Ordered)
    (loaded : ∀ entry ∈ found.properties, ∀ linked, entry.2 = .entity linked → linked.Ordered) :
    found.Ordered

/-! ## Counterparts -/

section FindChanged

variable {α : Type} {test test' : α → Bool} {change : α → α}

theorem find?_changeFirst (h : ∀ a, test (change a) = test a) (as : List α) :
    (changeFirst test change as).find? test = (as.find? test).map change := by
  induction as with
  | nil => rfl
  | cons a rest ih =>
    unfold changeFirst
    by_cases ha : test a = true
    · rw [if_pos ha, find?_cons_of_pos ((h a).trans ha), find?_cons_of_pos ha]
      rfl
    · rw [if_neg ha, find?_cons_of_neg ha, find?_cons_of_neg ha, ih]

theorem find?_changeFirst_other (h : ∀ a, test' (change a) = test' a)
    (hother : ∀ a, test a = true → ¬ test' a = true) (as : List α) :
    (changeFirst test change as).find? test' = as.find? test' := by
  induction as with
  | nil => rfl
  | cons a rest ih =>
    unfold changeFirst
    by_cases ha : test a = true
    · rw [if_pos ha, find?_cons_of_neg (h a ▸ hother a ha), find?_cons_of_neg (hother a ha)]
    · rw [if_neg ha, find?_cons, find?_cons, ih]

theorem changeFirst_eq_self {as : List α} {a : α} (h : as.find? test = some a)
    (ha : change a = a) : changeFirst test change as = as := by
  induction as with
  | nil => cases h
  | cons b rest ih =>
    unfold changeFirst
    by_cases hb : test b = true
    · rw [find?_cons_of_pos hb] at h
      obtain rfl := Option.some.inj h
      rw [if_pos hb, ha]
    · rw [find?_cons_of_neg hb] at h
      rw [if_neg hb, ih h]

end FindChanged

/-- The element that another of the same identifier is merged into. -/
def counterpart? (current : List Instance) (element : Instance) : Option Instance :=
  current.find? fun other => other.id.same element.id

section Elements

variable {current elements : List Instance} {element other : Instance}

theorem addElement_of_none (h : counterpart? current element = none) :
    addElement current element = current ++ [element] := by
  refine if_neg fun hany => ?_
  obtain ⟨other, hother, hsame⟩ := any_eq_true.mp hany
  exact find?_eq_none.mp h other hother hsame

theorem addElement_of_some (h : counterpart? current element = some other) :
    addElement current element = changeFirst (fun other => other.id.same element.id)
      (fun other => other.merge element) current :=
  if_pos (any_eq_true.mpr ⟨other, mem_of_find?_eq_some h, find?_some h⟩)

theorem counterpart?_addElement (h : element.id.same element.id) :
    counterpart? (addElement current element) element
      = some ((counterpart? current element).elim element (·.merge element)) := by
  cases hfound : counterpart? current element with
  | none =>
    rw [addElement_of_none hfound, counterpart?, find?_append, find?_cons, h]
    exact congrArg (Option.or · _) hfound
  | some other =>
    rw [addElement_of_some hfound, counterpart?, find?_changeFirst]
    · exact congrArg (Option.map _) hfound
    · exact fun other => congrArg (Value.same · _) (merge_id other element)

theorem counterpart?_addElement_other (h : element.id.same other.id = false) :
    counterpart? (addElement current element) other = counterpart? current other := by
  cases hfound : counterpart? current element with
  | none =>
    rw [addElement_of_none hfound, counterpart?, find?_append, find?_cons, h]
    exact Option.or_none
  | some old =>
    rw [addElement_of_some hfound, counterpart?, find?_changeFirst_other]
    · rfl
    · exact fun old => congrArg (Value.same · _) (merge_id old element)
    · intro old hold hold'
      rw [same_of_same hold hold'] at h
      cases h

theorem counterpart?_mergeElements_other
    (h : ∀ element ∈ elements, element.id.same other.id = false) :
    counterpart? (mergeElements current elements) other = counterpart? current other := by
  induction elements generalizing current with
  | nil => rw [mergeElements]
  | cons element rest ih =>
    obtain ⟨helement, hrest⟩ := forall_mem_cons.mp h
    rw [mergeElements_cons, ih hrest, counterpart?_addElement_other helement]

/-- An element of the second collection is found in the merged one as the
element of the first that it is merged into, or as it is. -/
theorem counterpart?_mergeElements (h : ToldApart (elements.map (·.id)))
    (helement : element ∈ elements) :
    counterpart? (mergeElements current elements) element
      = some ((counterpart? current element).elim element (·.merge element)) := by
  induction elements generalizing current with
  | nil => cases helement
  | cons first rest ih =>
    obtain ⟨hsame, hsames⟩ := forall_mem_cons.mp h.same
    obtain ⟨hfirst, hrest⟩ := pairwise_cons.mp h.apart
    rw [mergeElements_cons]
    rcases mem_cons.mp helement with rfl | helement
    · rw [counterpart?_mergeElements_other, counterpart?_addElement hsame]
      -- The same holds the other way round, since no identifier is a NaN.
      intro later hlater
      have hid := mem_map_of_mem (f := (·.id)) hlater
      refine Bool.eq_false_iff.mpr fun hback => ?_
      exact absurd (hfirst _ hid) (Bool.eq_false_iff.not_left.mpr (same_of_same hback (hsames _ hid)))
    · rw [ih ⟨hsames, hrest⟩ helement,
        counterpart?_addElement_other (hfirst _ (mem_map_of_mem helement))]

/-- The elements that are not there yet. -/
def newElements (current elements : List Instance) : List Instance :=
  elements.filter fun element => (counterpart? current element).isNone

theorem ids_mergeElements (h : ToldApart (elements.map (·.id))) :
    (mergeElements current elements).map (·.id)
      = current.map (·.id) ++ (newElements current elements).map (·.id) := by
  induction elements generalizing current with
  | nil => rw [mergeElements, newElements, filter_nil, map_nil, append_nil]
  | cons element rest ih =>
    obtain ⟨-, hsames⟩ := forall_mem_cons.mp h.same
    obtain ⟨hfirst, hrest⟩ := pairwise_cons.mp h.apart
    have hnew : newElements (addElement current element) rest = newElements current rest := by
      refine filter_congr fun later hlater => ?_
      rw [counterpart?_addElement_other (hfirst _ (mem_map_of_mem hlater))]
    rw [mergeElements_cons, ih ⟨hsames, hrest⟩, hnew]
    unfold newElements
    cases hfound : counterpart? current element with
    | none =>
      rw [addElement_of_none hfound, filter_cons, hfound]
      simp
    | some other =>
      rw [addElement_of_some hfound, filter_cons, hfound, map_changeFirst]
      · rfl
      · exact fun other => merge_id other element

/-- Elements each of which is merged into its counterpart already. -/
theorem mergeElements_eq_self (h : ∀ element ∈ elements, ∃ other,
    counterpart? current element = some other ∧ other.merge element = other) :
    mergeElements current elements = current := by
  induction elements with
  | nil => rw [mergeElements]
  | cons element rest ih =>
    obtain ⟨⟨other, hother, hmerge⟩, hrest⟩ := forall_mem_cons.mp h
    rw [mergeElements_cons, addElement_of_some hother, changeFirst_eq_self hother hmerge, ih hrest]

theorem counterpart?_of_mem (h : ToldApart (elements.map (·.id))) (helement : element ∈ elements) :
    counterpart? elements element = some element := by
  induction elements with
  | nil => cases helement
  | cons first rest ih =>
    obtain ⟨hsame, hsames⟩ := forall_mem_cons.mp h.same
    obtain ⟨hfirst, hrest⟩ := pairwise_cons.mp h.apart
    rcases mem_cons.mp helement with rfl | helement
    · exact find?_cons_of_pos hsame
    · rw [counterpart?, find?_cons, show first.id.same element.id = false from
        hfirst _ (mem_map_of_mem helement)]
      exact ih ⟨hsames, hrest⟩ helement

end Elements

/-! ## Merging twice -/

section Twice

variable {owner found : Instance}

theorem eq_of_parts : ∀ {first second : Instance}, first.entity = second.entity →
    first.id = second.id → first.properties = second.properties →
    first.collections = second.collections → first = second
  | .mk .., .mk .., rfl, rfl, rfl, rfl => rfl

/-- An instance that has everything another one has. -/
theorem merge_eq_self (hproperties : Sorted owner.properties)
    (hcollections : Sorted owner.collections) (hfound : found.Ordered)
    (helements : ∀ {name elements}, found.collections.lookup name = some elements →
      ∃ current, owner.collections.lookup name = some current
        ∧ mergeElements current elements = current)
    (hloaded : ∀ {name old new}, owner.properties.lookup name = some (.entity old) →
      found.properties.lookup name = some (.entity new) → old.id.same new.id = true →
      old.merge new = old) : owner.merge found = owner := by
  obtain ⟨hsorted, hsorted', -, -⟩ := hfound
  refine eq_of_parts (merge_entity ..) (merge_id ..) ?_ ?_
  · rw [merge_properties]
    refine (sorted_mergeProperties hproperties).ext hproperties fun name => ?_
    rw [lookup_mergeProperties name hsorted]
    cases hold : owner.properties.lookup name with
    | none => rfl
    | some value =>
      refine congrArg some ?_
      cases value with
      | entity old =>
        by_cases hsame : ∃ new, found.properties.lookup name = some (.entity new)
            ∧ old.id.same new.id = true
        · obtain ⟨new, hnew, hsame⟩ := hsame
          rw [hnew]
          exact (if_pos hsame).trans (congrArg _ (hloaded hold hnew hsame))
        · exact takeIn_of_other fun new hnew hid => hsame ⟨new, hnew, hid⟩
      | _ => rfl
  · rw [merge_collections]
    refine (sorted_mergeCollections hcollections).ext hcollections fun name => ?_
    rw [lookup_mergeCollections name hsorted']
    cases hlookup : found.collections.lookup name with
    | none => rfl
    | some elements =>
      obtain ⟨current, hcurrent, hmerge⟩ := helements hlookup
      rw [hcurrent]
      exact congrArg some hmerge

theorem merge_self (h : found.Ordered) (hids : found.EveryCollection ToldApart) :
    found.merge found = found := by
  induction h with
  | @mk found properties collections below loaded ihelements ihloaded =>
    obtain ⟨listed, told, toldloaded⟩ := hids
    refine merge_eq_self properties collections ⟨properties, collections, below, loaded⟩ ?_ ?_
    · intro name elements hlookup
      have hentry := lookup_mem hlookup
      refine ⟨elements, hlookup, mergeElements_eq_self fun element helement => ?_⟩
      exact ⟨element, counterpart?_of_mem (listed _ hentry) helement,
        ihelements _ hentry element helement (told _ hentry element helement)⟩
    · intro name old new hold hnew _
      obtain rfl : old = new := Outcome.entity.inj (Option.some.inj (hold.symm.trans hnew))
      exact ihloaded _ (lookup_mem hnew) old rfl (toldloaded _ (lookup_mem hnew) old rfl)

theorem merge_merge (h : found.Ordered) (hids : found.EveryCollection ToldApart)
    (howner : owner.Ordered) : (owner.merge found).merge found = owner.merge found := by
  induction h generalizing owner with
  | @mk found properties collections below loaded ihelements ihloaded =>
    have hfound : found.Ordered := ⟨properties, collections, below, loaded⟩
    obtain ⟨listed, told, toldloaded⟩ := hids
    obtain ⟨oldproperties, oldcollections, oldbelow, oldloaded⟩ := howner
    refine merge_eq_self (merge_properties .. ▸ sorted_mergeProperties oldproperties)
      (merge_collections .. ▸ sorted_mergeCollections oldcollections) hfound ?_ ?_
    · intro name elements hlookup
      have hentry := lookup_mem hlookup
      refine ⟨mergeElements (owner.elements name) elements, ?_, mergeElements_eq_self ?_⟩
      · rw [merge_collections, lookup_mergeCollections name collections, hlookup]
        rfl
      · intro element helement
        refine ⟨_, counterpart?_mergeElements (listed _ hentry) helement, ?_⟩
        have htold := told _ hentry element helement
        cases hold : counterpart? (owner.elements name) element with
        | none => exact merge_self (below _ hentry element helement) htold
        | some old =>
          obtain ⟨entry, hold, hmem⟩ := exists_entry_of_mem_elements (mem_of_find?_eq_some hold)
          exact ihelements _ hentry element helement htold (oldbelow entry hold old hmem)
    · intro name old new hold hnew hsame
      have hentry := lookup_mem hnew
      rw [merge_properties, lookup_mergeProperties name properties, hnew] at hold
      obtain ⟨value, hvalue, htaken⟩ := Option.map_eq_some_iff.mp hold
      cases value with
      | entity first =>
        by_cases hfirst : first.id.same new.id = true
        · obtain rfl := Outcome.entity.inj ((if_pos hfirst).symm.trans htaken)
          exact ihloaded _ hentry new rfl (toldloaded _ hentry new rfl)
            (oldloaded _ (lookup_mem hvalue) first rfl)
        · obtain rfl := Outcome.entity.inj ((if_neg hfirst).symm.trans htaken)
          exact absurd hsame hfirst
      | _ => cases htaken

end Twice

/-- What merging an instance into another one gives: the owner, with the
elements that its collections do not have yet after those that they have. -/
structure Extended (owner found merged : Instance) : Prop where
  entity : merged.entity = owner.entity
  id : merged.id = owner.id
  names : merged.properties.map (·.1) = owner.properties.map (·.1)
  kept : ∀ {name value}, owner.properties.lookup name = some value →
    (∀ linked, value ≠ .entity linked) → merged.properties.lookup name = some value
  present : ∀ name, (merged.collections.lookup name).isSome
    = ((owner.collections.lookup name).isSome || (found.collections.lookup name).isSome)
  ids : ∀ name, (merged.elements name).map (·.id) = (owner.elements name).map (·.id)
    ++ (newElements (owner.elements name) (found.elements name)).map (·.id)
  apart : ∀ name, ToldApart ((newElements (owner.elements name) (found.elements name)).map (·.id))
  taken : ∀ {name element}, element ∈ found.elements name →
    counterpart? (merged.elements name) element
      = some ((counterpart? (owner.elements name) element).elim element (·.merge element))

theorem map_fst_mergeProperties {properties current : List (String × ResultValue)}
    (hcurrent : Sorted current) (hproperties : Sorted properties) :
    (mergeProperties current properties).map (·.1) = current.map (·.1) := by
  have hkeys : Forall₂ (SameKey fun _ _ => True) (mergeProperties current properties) current := by
    refine forall₂_sameKey (sorted_mergeProperties hcurrent) hcurrent fun name => ?_
    rw [lookup_mergeProperties name hproperties]
    cases current.lookup name with
    | none => exact .none
    | some value => exact .some trivial
  refine forall₂_eq_eq_eq ▸ forall₂_map_left_iff.mpr (forall₂_map_right_iff.mpr (hkeys.imp ?_))
  rintro _ _ ⟨-⟩
  rfl

theorem EveryCollection.elements {found : Instance} (h : found.EveryCollection P) (hnil : P [])
    (name : String) :
    P ((found.elements name).map (·.id)) := by
  unfold Instance.elements
  obtain ⟨listed, -, -⟩ := h
  cases hlookup : found.collections.lookup name with
  | none => exact hnil
  | some elements => exact listed _ (lookup_mem hlookup)

/-- Merging only extends an instance, and doing it again changes nothing. -/
theorem extended_merge {owner found : Instance} (howner : owner.Ordered) (hfound : found.Ordered)
    (hids : found.EveryCollection ToldApart) :
    Extended owner found (owner.merge found)
      ∧ (owner.merge found).merge found = owner.merge found := by
  refine ⟨?_, merge_merge hfound hids howner⟩
  have htold := hids.elements ⟨forall_mem_nil _, .nil⟩
  obtain ⟨properties, collections, -, -⟩ := hfound
  obtain ⟨oldproperties, -, -, -⟩ := howner
  have helements := owner.elements_merge collections
  refine ⟨merge_entity .., merge_id .., ?_, ?_, ?_, ?_, ?_, ?_⟩
  · rw [merge_properties, map_fst_mergeProperties oldproperties properties]
  · intro name value hvalue hlinked
    rw [merge_properties, lookup_mergeProperties name properties, hvalue, Option.map_some,
      takeIn_of_not_entity hlinked]
  · intro name
    rw [merge_collections, lookup_mergeCollections name collections]
    cases found.collections.lookup name with
    | none => exact (Bool.or_false _).symm
    | some elements => exact (Bool.or_true _).symm
  · intro name
    rw [helements, ids_mergeElements (htold name)]
  · intro name
    have hsublist := (filter_sublist (l := found.elements name)
      (p := fun element => (counterpart? (owner.elements name) element).isNone)).map (·.id)
    exact ⟨fun id hid => (htold name).same id (hsublist.subset hid),
      (htold name).apart.sublist hsublist⟩
  · intro name element helement
    rw [helements, counterpart?_mergeElements (htold name) helement]

/-- A parent with one collection. -/
def withChildren (id : Value) (children : List Instance) : Instance :=
  .mk "Parent" id [] [("children", children)]

theorem ordered_withChildren (h : ∀ child ∈ children, child.Ordered) :
    (withChildren id children).Ordered :=
  .mk .nil (pairwise_singleton ..) (forall_mem_singleton.mpr h) (forall_mem_nil _)

theorem everyCollection_withChildren (hids : P (children.map (·.id)))
    (h : ∀ child ∈ children, child.EveryCollection P) :
    (withChildren id children).EveryCollection P :=
  .mk (forall_mem_singleton.mpr hids) (forall_mem_singleton.mpr h) (forall_mem_nil _)

/-- The two zeros are one child, which takes in the child of the other. -/
theorem extended_merge_zeros :
    let owner := withChildren (.int 1) [withChildren (.double (.ofMagnitude false 0)) []]
    let found := withChildren (.int 1) [withChildren (.double (.ofMagnitude true 0))
      [withChildren (.int 2) []], withChildren (.int 3) []]
    Extended owner found (owner.merge found)
      ∧ (owner.merge found).merge found = owner.merge found := by
  have hleaf : ∀ id, (withChildren id []).Ordered :=
    fun id => ordered_withChildren (forall_mem_nil _)
  have hleaf' : ∀ id, (withChildren id []).EveryCollection ToldApart :=
    fun id => everyCollection_withChildren ⟨forall_mem_nil _, .nil⟩ (forall_mem_nil _)
  refine extended_merge (ordered_withChildren (forall_mem_singleton.mpr (hleaf _)))
    (ordered_withChildren (forall_mem_cons.mpr ⟨?_, forall_mem_singleton.mpr (hleaf _)⟩))
    (everyCollection_withChildren ⟨by decide, by decide⟩
      (forall_mem_cons.mpr ⟨?_, forall_mem_singleton.mpr (hleaf' _)⟩))
  · exact ordered_withChildren (forall_mem_singleton.mpr (hleaf _))
  · exact everyCollection_withChildren ⟨by decide, by decide⟩
      (forall_mem_singleton.mpr (hleaf' _))

end Instance

end EntityQuery
