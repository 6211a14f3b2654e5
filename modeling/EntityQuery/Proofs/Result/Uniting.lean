import EntityQuery.Proofs.Result.Merging

/-!
# What an instance has united

`Gathers` tells what the collections of an instance hold. `Unites` tells all that
it holds, once some rows are merged into it. Its own columns are those of the
first row. So are its many-to-one associations: one that the first row brings is
loaded, and unites those of the rows that bring the same entity; one that the
first row does not bring stays what its own columns say, a reference or nothing,
whatever later rows bring. A collection has the elements that all rows bring, and
each of them unites its own rows.

Merging one more row keeps this (`Unites.merge`), and the values of a row have it
for that row alone (`UnitesFrom.attachKeeps`). So the results of a plan unite the
rows that belong to them (`exists_unites`), and have gathered their collections
(`readRows_merges`).
-/

namespace EntityQuery

open List Instance Fetch Option Sample ResultValue

/-- A many-to-one association that is fetched for an owner. -/
structure Fetch.Links (fetches : List Fetch) (owner : FetchOwner) (number : Nat) (fetch : Fetch) :
    Prop where
  numbered : fetches[number]? = some fetch
  owned : fetch.owner = owner
  single : ¬ fetch.collection = true

/-- What the first of the rows brings by itself for an owner, of which all of them
bring the same entity. -/
structure StartsWith (returns : List Return) (fetches : List Fetch) (owner : FetchOwner)
    (rows : List Row) (first : Row) (own found : Instance) : Prop where
  head : rows.head? = some first
  read : first.own? returns fetches owner = some own
  entity : found.entity = own.entity
  id : found.id = own.id
  same : ∀ row ∈ rows, ∃ other, row.own? returns fetches owner = some other
    ∧ other.id.mark = own.id.mark

/-- The properties of an owner are those that the first row brings, as far as the
fetches from a number on go, and a relation holds between each loaded entity and
the rows that bring it. -/
structure Loads (R : Nat → List Row → Instance → Prop) (fetches : List Fetch) (start : Nat)
    (owner : FetchOwner) (rows : List Row) (first : Row) (own found : Instance) : Prop where
  sorted : Keyed.Sorted found.properties
  loaded : ∀ {number fetch id}, Links fetches owner number fetch → start ≤ number →
    first.fetchedId? fetch = some id →
    ∃ linked, found.properties.lookup fetch.property = some (.entity linked) ∧ linked.id = id
      ∧ R number (rows.filter fun row => row.fetchedId? fetch = some id) linked
  plain : ∀ {property}, (∀ {number fetch}, Links fetches owner number fetch →
      start ≤ number → fetch.property = property → first.fetchedId? fetch = none) →
    found.properties.lookup property = own.properties.lookup property

/-- The instance holds what these rows bring for an owner, the first of them
coming first. What `R` says of the entities below it is that each of them holds
what its own rows bring. -/
inductive Unites (returns : List Return) (fetches : List Fetch) :
    FetchOwner → List Row → Instance → Prop
  | mk {owner : FetchOwner} {rows : List Row} {first : Row} {own found : Instance}
    (R : Nat → List Row → Instance → Prop)
    (united : ∀ {number part linked}, R number part linked →
      Unites returns fetches (.fetched number) part linked)
    (starts : StartsWith returns fetches owner rows first own found)
    (loads : Loads R fetches 0 owner rows first own found)
    (collects : CollectsOnly R fetches 0 owner rows found) :
    Unites returns fetches owner rows found

/-! ## Merging -/

section Merge

variable {R R' R'' : Nat → List Row → Instance → Prop} {returns : List Return}
  {fetches : List Fetch} {start : Nat} {owner : FetchOwner} {rows rows' : List Row}
  {first first' : Row} {own own' found found' : Instance}

theorem StartsWith.first_mem (h : StartsWith returns fetches owner rows first own found) :
    first ∈ rows :=
  mem_of_mem_head? h.head

theorem StartsWith.merge (h : StartsWith returns fetches owner rows first own found)
    (h' : StartsWith returns fetches owner rows' first' own' found')
    (hmark : found.id.mark = found'.id.mark) :
    StartsWith returns fetches owner (rows ++ rows') first own (found.merge found') := by
  refine ⟨?_, h.read, ?_, ?_, forall_mem_append.mpr ⟨h.same, fun row hrow => ?_⟩⟩
  · rw [List.head?_append, h.head]
    rfl
  · rw [merge_entity, h.entity]
  · rw [merge_id, h.id]
  · obtain ⟨other, hother, hsame⟩ := h'.same row hrow
    refine ⟨other, hother, ?_⟩
    rw [hsame, ← h'.id, ← hmark, h.id]

theorem Loads.mono (h : Loads R fetches start owner rows first own found)
    (himp : ∀ {number part linked}, part ⊆ rows → R number part linked → R' number part linked) :
    Loads R' fetches start owner rows first own found := by
  refine ⟨h.sorted, fun hlinks hstart hid => ?_, h.plain⟩
  obtain ⟨linked, hlookup, hlinked, hrelated⟩ := h.loaded hlinks hstart hid
  exact ⟨linked, hlookup, hlinked, himp (filter_subset_self _) hrelated⟩

/-- The properties of two instances, merged, where the second has them from one
row. -/
theorem Loads.merge (hnodup : Separate fetches)
    (hids : ∀ {number fetch}, Links fetches owner number fetch →
      Value.Comparable ((rows ++ rows').filterMap (·.fetchedId? fetch))) (hfirst : first ∈ rows)
    (hfirst' : first' ∈ rows') (hone : ∀ row ∈ rows', row = first') (hown : own.Bare)
    (hown' : own'.Bare) (h : Loads R fetches 0 owner rows first own found)
    (h' : Loads R' fetches 0 owner rows' first' own' found')
    (hold : ∀ {number part old}, R number part old → R'' number part old)
    (hmerge : ∀ {number part part' old new}, R number part old → R' number part' new →
      old.id = new.id → R'' number (part ++ part') (old.merge new)) :
    Loads R'' fetches 0 owner (rows ++ rows') first own (found.merge found') := by
  have hlookup : ∀ property, (found.merge found').properties.lookup property
      = (found.properties.lookup property).map fun value =>
        takeIn value (found'.properties.lookup property) := by
    intro property
    rw [merge_properties, lookup_mergeProperties property h'.sorted]
  refine ⟨?_, ?_, ?_⟩
  · rw [merge_properties]
    exact sorted_mergeProperties h.sorted
  · intro number fetch id hlinks _ hid
    obtain ⟨old, hlookupOld, rfl, hrelated⟩ := h.loaded hlinks (Nat.zero_le _) hid
    -- What the second instance does not bring under this identifier leaves the first as it is.
    have hkept : (∀ new, found'.properties.lookup fetch.property = some (.entity new) →
          ¬ old.id.same new.id = true) → first'.fetchedId? fetch ≠ some old.id →
        ∃ linked, (found.merge found').properties.lookup fetch.property = some (.entity linked)
          ∧ linked.id = old.id ∧ R'' number
            ((rows ++ rows').filter fun row => row.fetchedId? fetch = some old.id) linked := by
      intro hother hnone
      refine ⟨old, ?_, rfl, ?_⟩
      · rw [hlookup, hlookupOld, map_some, takeIn_of_other hother]
      · have hnil : rows'.filter (fun row => row.fetchedId? fetch = some old.id) = [] := by
          rw [filter_eq_nil_iff]
          intro row hrow hsame
          exact hnone (hone row hrow ▸ of_decide_eq_true hsame)
        rw [filter_append, hnil, append_nil]
        exact hold hrelated
    cases hid' : first'.fetchedId? fetch with
    | none =>
      have hplain : found'.properties.lookup fetch.property
          = own'.properties.lookup fetch.property := by
        refine h'.plain fun {number' fetch'} hlinks' _ hproperty => ?_
        obtain rfl := number_eq hnodup hlinks'.numbered hlinks.numbered
          (hlinks'.owned.trans hlinks.owned.symm) hproperty
        obtain rfl := some.inj (hlinks.numbered.symm.trans hlinks'.numbered)
        exact hid'
      refine hkept (fun new hnew => ?_) (by rw [hid']; exact fun h => nomatch h)
      rw [hplain] at hnew
      exact (hown'.unloaded _ (Keyed.lookup_mem hnew) new rfl).elim
    | some id' =>
      obtain ⟨new, hlookupNew, rfl, hrelated'⟩ := h'.loaded hlinks (Nat.zero_le _) hid'
      have hsame := hids hlinks _ (mem_filterMap.mpr
        ⟨first, mem_append_left _ hfirst, hid⟩) _ (mem_filterMap.mpr
        ⟨first', mem_append_right _ hfirst', hid'⟩)
      by_cases heq : old.id = new.id
      · refine ⟨old.merge new, ?_, merge_id .., ?_⟩
        · rw [hlookup, hlookupOld, hlookupNew]
          exact congrArg some (if_pos (hsame.mpr heq))
        · rw [filter_append]
          exact hmerge hrelated (heq ▸ hrelated') heq
      · refine hkept (fun other hother => ?_) fun hsome =>
          heq (some.inj (hsome.symm.trans hid'))
        obtain rfl := Outcome.entity.inj (some.inj (hlookupNew.symm.trans hother))
        exact fun h => heq (hsame.mp h)
  · intro property hproperty
    rw [hlookup, h.plain hproperty]
    cases hlookupOwn : own.properties.lookup property with
    | none => rfl
    | some value =>
      exact congrArg some (takeIn_of_not_entity
        (hown.unloaded (property, value) (Keyed.lookup_mem hlookupOwn)) _)

theorem CollectsOnly.mono (h : CollectsOnly R fetches start owner rows found)
    (himp : ∀ {number part element}, part ⊆ rows → R number part element → R' number part element) :
    CollectsOnly R' fetches start owner rows found :=
  ⟨h.toCollects.mono himp, h.absent⟩

theorem CollectsOnly.merge
    (hids : ∀ {number fetch}, Fills fetches owner number fetch →
      Value.Comparable ((rows ++ rows').filterMap (·.fetchedId? fetch)))
    (h : CollectsOnly R fetches start owner rows found)
    (h' : CollectsOnly R' fetches start owner rows' found')
    (hold : ∀ {number part old}, R number part old → R'' number part old)
    (hnew : ∀ {number part new}, R' number part new → R'' number part new)
    (hmerge : ∀ {number part part' old new}, R number part old → R' number part' new →
      old.id = new.id → R'' number (part ++ part') (old.merge new)) :
    CollectsOnly R'' fetches start owner (rows ++ rows') (found.merge found') := by
  refine ⟨h.toCollects.merge hids h'.toCollects hold hnew hmerge, fun hproperty => ?_⟩
  rw [merge_collections, lookup_mergeCollections _ h'.sorted,
    h.absent hproperty, h'.absent hproperty]
  rfl

/-- An instance that has united some rows, merged with one that has united a
single row. The induction is on the first: what is below it takes in what is below
the second. -/
theorem Unites.merge (hnodup : Separate fetches) (h : Unites returns fetches owner rows found) :
    ∀ {rows' row found'}, (∀ fetch ∈ fetches,
        Value.Comparable ((rows ++ rows').filterMap (·.fetchedId? fetch))) →
      (∀ other ∈ rows', other = row) → Unites returns fetches owner rows' found' →
      found.id.mark = found'.id.mark →
      Unites returns fetches owner (rows ++ rows') (found.merge found') := by
  induction h with
  | @mk owner rows first own found R united starts loads collects ih =>
    rintro rows' row found' hids hone ⟨R', united', starts', loads', collects'⟩ hmark
    have hpart : ∀ {number part part' old new}, (part ⊆ rows ∧ R number part old) →
        (part' ⊆ rows' ∧ R' number part' new) → old.id = new.id →
        Unites returns fetches (.fetched number) (part ++ part') (old.merge new) := by
      intro number part part' old new hold hnew hid
      refine ih hold.2 (fun fetch hfetch => ?_) (fun other hother => hone other (hnew.1 hother))
        (united' hnew.2) (congrArg Value.mark hid)
      refine (hids fetch hfetch).mono (filterMap_subset _ (append_subset.mpr ⟨?_, ?_⟩))
      · exact subset_append_of_subset_left _ hold.1
      · exact subset_append_of_subset_right _ hnew.1
    have hone' : ∀ other ∈ rows', other = _ := fun other hother =>
      (hone other hother).trans (hone _ starts'.first_mem).symm
    refine .mk (fun number => Unites returns fetches (.fetched number)) id
      (starts.merge starts' hmark) ?_ ?_
    · exact (loads.mono And.intro).merge hnodup
        (fun hlinks => hids _ (mem_of_getElem? hlinks.numbered)) starts.first_mem
        starts'.first_mem hone' (Row.own?_bare starts.read) (Row.own?_bare starts'.read)
        (loads'.mono And.intro) (fun hold => united hold.2) hpart
    · exact (collects.mono And.intro).merge (fun hfills => hids _ (mem_of_getElem? hfills.numbered))
        (collects'.mono And.intro) (fun hold => united hold.2) (fun hnew => united' hnew.2) hpart

/-- An instance that has united rows has gathered them. -/
theorem Unites.gathers (h : Unites returns fetches owner rows found) :
    Gathers fetches owner rows found := by
  induction h with
  | mk R _ _ _ collects ih =>
    exact (collects.toCollects.mono fun _ hrelated => ih hrelated).gathers fun _ => Nat.zero_le _

end Merge

/-! ## The values of a row -/

namespace Loads

variable {R : Nat → List Row → Instance → Prop} {fetches : List Fetch} {start : Nat}
  {owner : FetchOwner} {rows : List Row} {first : Row} {own found : Instance}

theorem of_bare (h : own.Bare) : Loads R fetches fetches.length owner rows first own own := by
  refine ⟨h.sorted, fun hlinks hle _ => ?_, fun _ => rfl⟩
  rw [← Nat.not_lt] at hle
  exact (hle (List.getElem?_eq_some_iff.mp hlinks.numbered).1).elim

theorem congr {found' : Instance} (h : Loads R fetches start owner rows first own found)
    (hsame : found'.properties = found.properties) :
    Loads R fetches start owner rows first own found' := by
  refine ⟨hsame ▸ h.sorted, ?_, ?_⟩
  · rw [hsame]
    exact h.loaded
  · rw [hsame]
    exact h.plain

theorem skip (h : Loads R fetches (start + 1) owner rows first own found)
    (hno : ∀ {fetch}, Links fetches owner start fetch → first.fetchedId? fetch = none) :
    Loads R fetches start owner rows first own found := by
  refine ⟨h.sorted, fun {number _ _} hlinks hle hid => ?_, fun hproperty => ?_⟩
  · rcases Nat.eq_or_lt_of_le hle with rfl | hlt
    · exact nomatch (hno hlinks).symm.trans hid
    · exact h.loaded hlinks hlt hid
  · exact h.plain fun hlinks hle => hproperty hlinks (Nat.le_of_succ_le hle)

theorem all (h : Loads R fetches start owner rows first own found)
    (hstart : ∀ {number fetch}, Links fetches owner number fetch → start ≤ number) :
    Loads R fetches 0 owner rows first own found :=
  ⟨h.sorted, fun hlinks _ => h.loaded hlinks (hstart hlinks),
    fun hproperty => h.plain fun hlinks _ => hproperty hlinks (Nat.zero_le _)⟩

end Loads

theorem CollectsOnly.all {R : Nat → List Row → Instance → Prop} {fetches : List Fetch} {start : Nat}
    {owner : FetchOwner} {rows : List Row} {found : Instance}
    (h : CollectsOnly R fetches start owner rows found)
    (hstart : ∀ {number fetch}, Fills fetches owner number fetch → start ≤ number) :
    CollectsOnly R fetches 0 owner rows found :=
  ⟨⟨h.sorted, fun hfills _ => h.present hfills (hstart hfills)⟩,
    fun hproperty => h.absent fun hfills _ => hproperty hfills (Nat.zero_le _)⟩

/-- What is fetched by a fetch becomes a property of its owner. -/
theorem Fetch.attach_loads {R : Nat → List Row → Instance → Prop} {fetches : List Fetch}
    {number : Nat} {fetch : Fetch} {row : Row} {entry : Option Instance} {own found : Instance}
    (hnodup : Separate fetches) (hfetch : fetches[number]? = some fetch)
    (hid : entry.map Instance.id = row.fetchedId? fetch)
    (hentry : ∀ linked, entry = some linked → R number [row] linked)
    (h : Loads R fetches (number + 1) fetch.owner [row] row own found) :
    Loads R fetches number fetch.owner [row] row own (fetch.attach entry found) := by
  by_cases hcollection : fetch.collection = true
  · rw [attach_eq_withCollection hcollection]
    refine Loads.skip (h.congr rfl) fun hlinks => ?_
    obtain rfl := some.inj (hfetch.symm.trans hlinks.numbered)
    exact (hlinks.single hcollection).elim
  · cases entry with
    | none =>
      rw [attach_none hcollection]
      refine h.skip fun hlinks => ?_
      obtain rfl := some.inj (hfetch.symm.trans hlinks.numbered)
      exact hid.symm
    | some linked =>
      rw [attach_some hcollection]
      have hlookup : ∀ property, (found.withProperty fetch.property (.entity linked)).properties.lookup
          property = if property = fetch.property then some (.entity linked)
            else found.properties.lookup property :=
        fun property => Keyed.lookup_insert ..
      refine ⟨h.sorted.insert _ _, fun {number' fetch' id} hlinks hle hid' => ?_, ?_⟩
      · rcases Nat.eq_or_lt_of_le hle with rfl | hlt
        · obtain rfl := some.inj (hfetch.symm.trans hlinks.numbered)
          rw [← hid] at hid'
          obtain rfl := some.inj hid'
          refine ⟨linked, (hlookup _).trans (if_pos rfl), rfl, ?_⟩
          rw [filter_cons_of_pos (by simp [← hid]), filter_nil]
          exact hentry linked rfl
        · have hne : fetch'.property ≠ fetch.property := by
            intro hproperty
            have := number_eq hnodup hlinks.numbered hfetch hlinks.owned hproperty
            omega
          rw [hlookup, if_neg hne]
          exact h.loaded hlinks hlt hid'
      · intro property hproperty
        have hne : property ≠ fetch.property := by
          rintro rfl
          have hnone := hproperty ⟨hfetch, rfl, hcollection⟩ (Nat.le_refl _) rfl
          exact nomatch hid.trans hnone
        rw [hlookup, if_neg hne]
        exact h.plain fun hlinks hle => hproperty hlinks (Nat.le_of_succ_le hle)

/-- What a row has brought for an owner, once the fetches from a number on are
attached. -/
structure UnitesFrom (returns : List Return) (fetches : List Fetch) (row : Row) (start : Nat)
    (owner : FetchOwner) (found : Instance) : Prop where
  loads : ∃ own, StartsWith returns fetches owner [row] row own found
    ∧ Loads (fun number => Unites returns fetches (.fetched number)) fetches start owner [row] row own
      found
  collects : CollectsOnly (fun number => Unites returns fetches (.fetched number)) fetches start owner
    [row] found

namespace UnitesFrom

variable {returns : List Return} {fetches : List Fetch} {row : Row} {start : Nat}
  {owner : FetchOwner} {found : Instance}

theorem unites (h : UnitesFrom returns fetches row start owner found)
    (hstart : ∀ {number fetch}, fetches[number]? = some fetch → fetch.owner = owner →
      start ≤ number) : Unites returns fetches owner [row] found := by
  obtain ⟨⟨own, starts, loads⟩, collects⟩ := h
  exact .mk _ id starts (loads.all fun hlinks => hstart hlinks.numbered hlinks.owned)
    (collects.all fun hfills => hstart hfills.numbered hfills.owned)

theorem attachKeeps (howners : OwnersFirst fetches) (hnodup : Separate fetches) :
    row.AttachKeeps (UnitesFrom returns fetches row) returns fetches where
  read := by
    intro owner found h
    have hbare := Row.own?_bare h
    exact ⟨⟨found, ⟨rfl, h, rfl, rfl, forall_mem_singleton.mpr ⟨found, h, rfl⟩⟩,
      .of_bare hbare⟩, .of_collections_nil hbare.collections⟩
  skip := by
    rintro number fetch owner found hfetch hne ⟨⟨own, starts, loads⟩, collects⟩
    refine ⟨⟨own, starts, loads.skip fun hlinks => ?_⟩, collects.skip fun hfills => ?_⟩
    · obtain rfl := some.inj (hfetch.symm.trans hlinks.numbered)
      exact (hne hlinks.owned.symm).elim
    · obtain rfl := some.inj (hfetch.symm.trans hfills.numbered)
      exact hne hfills.owned.symm
  attach := by
    rintro number fetch entry owner hfetch hid hentry ⟨⟨own, starts, loads⟩, collects⟩
    -- All that is fetched for the entity comes later, so that it is complete.
    have hcomplete : ∀ linked, entry = some linked →
        Unites returns fetches (.fetched number) [row] linked := fun linked hlinked =>
      (hentry linked hlinked).unites fun hlater howner => howners hlater howner
    refine ⟨⟨own, ⟨rfl, starts.read, ?_, ?_, starts.same⟩,
      attach_loads hnodup hfetch hid hcomplete loads⟩,
      attach_collects hnodup hfetch hid hcomplete collects⟩
    · rw [attach_entity, starts.entity]
    · rw [attach_id, starts.id]

end UnitesFrom

/-! ## The results of a plan -/

/-- The rows belong together in results: one for each identity of the rows, in
the order in which these come up, and each loaded entity has the collections
that the rows of its result bring. -/
structure Plan.Merges (plan : Plan) (rows : List Row) (merged : List (List ResultValue)) :
    Prop where
  identities : merged.map (fun values => some (values.map identity))
    = (rows.map (·.identity? plan.returns)).eraseDups
  gathers : ∀ values ∈ merged, ∀ {number found}, values[number]? = some (.entity found) →
    Gathers plan.fetches (.returned number)
      (rows.filter fun row => row.identity? plan.returns
        = some (values.map identity)) found

namespace Plan

/-- Rows that can be read are united in results. -/
theorem exists_unites {plan : Plan} (howners : OwnersFirst plan.fetches)
    (hcollection : plan.kind.fetchesCollection)
    (hnodup : Separate plan.fetches) {rows : List Row}
    (hids : ∀ fetch ∈ plan.fetches, Value.Comparable (rows.filterMap (·.fetchedId? fetch)))
    (hrows : ∀ row ∈ rows, ∃ result, plan.readRow row = .ok result) :
    ∃ merged, plan.readRows rows = .ok (merged.map plan.result)
      ∧ plan.MergesBy (fun number => Unites plan.returns plan.fetches (.returned number)) rows
        merged := by
  have hkeeps : MergeKeeps (fun number part found => part ⊆ rows
      ∧ Unites plan.returns plan.fetches (.returned number) part found) := by
    intro number part row owner other h h' hmark
    have hsubset : part ++ [row] ⊆ rows := append_subset.mpr ⟨h.1, h'.1⟩
    refine ⟨hsubset, h.2.merge hnodup (fun fetch hfetch => ?_) (fun _ => mem_singleton.mp) h'.2
      hmark⟩
    exact (hids fetch hfetch).mono (filterMap_subset _ hsubset)
  obtain ⟨merged, hmerged, hmerges⟩ := exists_mergesBy hkeeps hcollection hrows fun row hrow _ h =>
    Row.values_reads (UnitesFrom.attachKeeps howners hnodup)
      (fun h => ⟨cons_subset.mpr ⟨hrow, nil_subset _⟩, h.unites fun _ _ => Nat.zero_le _⟩)
      h
  exact ⟨merged, hmerged, hmerges.mono And.right⟩

/-- Rows that can be read are merged by what identifies them. -/
theorem readRows_merges {compiler : Compiler} {identifier query : String}
    {substitutions : List (String × String)} {plan : Plan}
    (hcompile : compile compiler identifier query substitutions = .ok plan)
    (hcollection : plan.kind.fetchesCollection = true)
    (hnodup : (plan.fetches.map fun fetch => (fetch.owner, fetch.property)).Nodup)
    (hexact : ∀ fetch ∈ plan.fetches, fetch.layout.identifierType ≠ .double)
    {rows : List Row} (hrows : ∀ row ∈ rows, ∃ result, plan.readRow row = .ok result) :
    ∃ merged, plan.readRows rows = .ok (merged.map plan.result) ∧ plan.Merges rows merged := by
  have howners := ownersFirst_of_compile hcompile (isManipulation_of_fetchesCollection hcollection)
  obtain ⟨merged, hmerged, hmerges⟩ := exists_unites howners hcollection hnodup
    (fun fetch hfetch => Gathers.comparable_ids (hexact fetch hfetch) rows) hrows
  exact ⟨merged, hmerged, hmerges.identities, fun values hvalues _ _ hfound =>
    (hmerges.related values hvalues hfound).gathers⟩

/-- The rows of two persons, one of whom has two orders, and one none. -/
theorem readRows_merges_orders : ∃ plan,
    compile compiler "q" "select p from Person p left join fetch p.orders" [] = .ok plan
      ∧ ∃ merged, plan.readRows personRows = .ok (merged.map plan.result)
        ∧ plan.Merges personRows merged := by
  refine exists_ok_and (fun plan => plan.kind.fetchesCollection = true
      ∧ (plan.fetches.map fun fetch : Fetch => (fetch.owner, fetch.property)).Nodup
      ∧ (∀ fetch ∈ plan.fetches, fetch.layout.identifierType ≠ .double)
      ∧ ∀ row ∈ personRows, (plan.readRow row).toOption.isSome) (by decide +kernel)
    fun plan hplan htest => ?_
  obtain ⟨hcollection, hnodup, hexact, hread⟩ := htest
  exact readRows_merges hplan hcollection hnodup hexact
    fun row hrow => exists_ok_of_isSome (hread row hrow)

end Plan

end EntityQuery
