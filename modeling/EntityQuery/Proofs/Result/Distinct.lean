import EntityQuery.Proofs.Result.Merging

/-!
# Collections without repetition

An element is looked for by its identifier when the collection that a row brings
is merged into one that is there (`Instance.mergeElements`), and only then. So
merging repeats no element, at any level (`Instance.EveryCollection.merge`), but
it takes away no repetition either. A repetition comes in with a row that brings
one identifier twice into a collection, by two fetches of one property
(`Row.BringsOnce`), where that row is the first one for its owner.
-/

namespace EntityQuery

open List Sample Keyed Instance Value

/-- The identifiers of the elements have a property, in every collection at every
level of an instance. -/
inductive Instance.EveryCollection (P : List Value → Prop) : Instance → Prop
  | mk {found : Instance} (listed : ∀ entry ∈ found.collections, P (entry.2.map (·.id)))
    (elements : ∀ entry ∈ found.collections, ∀ element ∈ entry.2, element.EveryCollection P)
    (loaded : ∀ entry ∈ found.properties, ∀ linked, entry.2 = .entity linked →
      linked.EveryCollection P) : found.EveryCollection P

structure Value.Distinct (ids : List Value) : Prop where
  nodup : ids.Nodup
  exact : ∀ id ∈ ids, id.Exact

/-- The identifiers that a row brings into a collection of an owner. -/
def Row.broughtIds (row : Row) (fetches : List Fetch) (owner : FetchOwner) (property : String) :
    List Value :=
  (fetches.filter fun fetch => fetch.collection ∧ fetch.owner = owner ∧ fetch.property = property)
    |>.filterMap row.fetchedId?

/-- A row brings no identifier twice into one collection. -/
def Row.BringsOnce (row : Row) (fetches : List Fetch) : Prop :=
  ∀ fetch ∈ fetches, (row.broughtIds fetches fetch.owner fetch.property).Nodup

instance (row : Row) (fetches : List Fetch) : Decidable (row.BringsOnce fetches) :=
  inferInstanceAs (Decidable (∀ fetch ∈ fetches, _))

namespace Instance

theorem EveryCollection.imp {P Q : List Value → Prop} (himp : ∀ ids, P ids → Q ids)
    {found : Instance} (h : found.EveryCollection P) : found.EveryCollection Q := by
  induction h with
  | mk listed _ _ ihelements ihloaded =>
    exact .mk (fun entry hentry => himp _ (listed entry hentry)) ihelements ihloaded

theorem elements_withCollection (found : Instance) (name : String) (elements : List Instance)
    (other : String) : (found.withCollection name elements).elements other
      = if other = name then elements else found.elements other := by
  show ((insert name elements found.collections).lookup other).getD [] = _
  rw [lookup_insert]
  split <;> rfl

section EveryCollection

variable {P : List Value → Prop} {found : Instance}

theorem exists_entry_of_mem_elements {name : String} {element : Instance}
    (h : element ∈ found.elements name) : ∃ entry ∈ found.collections, element ∈ entry.2 := by
  unfold Instance.elements at h
  cases hlookup : found.collections.lookup name with
  | none =>
    rw [hlookup] at h
    cases h
  | some others =>
    rw [hlookup] at h
    exact ⟨(name, others), lookup_mem hlookup, h⟩

theorem EveryCollection.of_mem_elements (h : found.EveryCollection P) {name : String}
    {element : Instance} (helement : element ∈ found.elements name) : element.EveryCollection P := by
  obtain ⟨-, elements, -⟩ := h
  obtain ⟨entry, hentry, hmem⟩ := exists_entry_of_mem_elements helement
  exact elements entry hentry element hmem

theorem EveryCollection.withCollection (h : found.EveryCollection P) (name : String)
    {elements : List Instance} (hids : P (elements.map (·.id)))
    (helements : ∀ element ∈ elements, element.EveryCollection P) :
    (found.withCollection name elements).EveryCollection P := by
  obtain ⟨listed, below, loaded⟩ := h
  refine .mk (fun entry hentry => ?_) (fun entry hentry => ?_) loaded
  · rcases mem_insert hentry with rfl | hentry
    · exact hids
    · exact listed entry hentry
  · rcases mem_insert hentry with rfl | hentry
    · exact helements
    · exact below entry hentry

theorem EveryCollection.withProperty (h : found.EveryCollection P) (name : String)
    {linked : Instance} (hlinked : linked.EveryCollection P) :
    (found.withProperty name (.entity linked)).EveryCollection P := by
  obtain ⟨listed, elements, loaded⟩ := h
  refine .mk listed elements fun entry hentry other hother => ?_
  rcases mem_insert hentry with rfl | hentry
  · obtain rfl := Outcome.entity.inj hother
    exact hlinked
  · exact loaded entry hentry other hother

end EveryCollection

/-! ## Merging elements -/

/-- Elements that are told apart, as are those of all collections below them. -/
structure Apart (elements : List Instance) : Prop where
  ids : Distinct (elements.map (·.id))
  below : ∀ element ∈ elements, element.EveryCollection Distinct

/-- An element that can be merged into others of its kind. -/
structure Addable (element : Instance) : Prop where
  exact : element.id.Exact
  below : element.EveryCollection Distinct
  merge : ∀ {owner : Instance}, owner.EveryCollection Distinct →
    (owner.merge element).EveryCollection Distinct

section Elements

variable {current : List Instance} {element : Instance}

theorem apart_nil : Apart [] :=
  ⟨⟨nodup_nil, forall_mem_nil _⟩, forall_mem_nil _⟩

/-- One more element brings no repetition, and takes none away. -/
theorem nodup_addElement (h : ∀ other ∈ current, other.id.Exact) :
    ((addElement current element).map (·.id)).Nodup ↔ (current.map (·.id)).Nodup := by
  rw [addElement_ids fun other hother => same_iff (h other hother)]
  split
  · exact Iff.rfl
  · rename_i hnew
    rw [nodup_append]
    constructor
    · exact fun h => h.1
    · intro hnodup
      refine ⟨hnodup, nodup_singleton _, ?_⟩
      intro id hid id' hid' hsame
      exact hnew (mem_singleton.mp hid' ▸ hsame ▸ hid)

theorem exact_addElement (h : ∀ other ∈ current, other.id.Exact) (helement : element.id.Exact) :
    ∀ other ∈ addElement current element, other.id.Exact := by
  have hids : ∀ id ∈ (addElement current element).map (·.id), id.Exact := by
    rw [addElement_ids fun other hother => same_iff (h other hother)]
    split
    · exact forall_mem_map.mpr h
    · exact forall_mem_append.mpr ⟨forall_mem_map.mpr h, forall_mem_singleton.mpr helement⟩
  exact forall_mem_map.mp hids

theorem nodup_mergeElements : ∀ {elements current : List Instance},
    (∀ other ∈ current, other.id.Exact) → (∀ element ∈ elements, element.id.Exact) →
    (((mergeElements current elements).map (·.id)).Nodup ↔ (current.map (·.id)).Nodup)
  | [], current, _, _ => by rw [mergeElements]
  | element :: rest, current, hcurrent, helements => by
    obtain ⟨helement, hrest⟩ := forall_mem_cons.mp helements
    rw [mergeElements_cons, nodup_mergeElements (exact_addElement hcurrent helement) hrest,
      nodup_addElement hcurrent]

theorem exact_mergeElements : ∀ {elements current : List Instance},
    (∀ other ∈ current, other.id.Exact) → (∀ element ∈ elements, element.id.Exact) →
    ∀ other ∈ mergeElements current elements, other.id.Exact
  | [], current, hcurrent, _ => by
    rw [mergeElements]
    exact hcurrent
  | element :: rest, current, hcurrent, helements => by
    obtain ⟨helement, hrest⟩ := forall_mem_cons.mp helements
    rw [mergeElements_cons]
    exact exact_mergeElements (exact_addElement hcurrent helement) hrest

theorem Apart.exact (h : Apart current) : ∀ other ∈ current, other.id.Exact :=
  forall_mem_map.mp h.ids.exact

/-- One step: an element is added. -/
theorem Apart.add (h : Apart current) (helement : element.Addable) :
    Apart (addElement current element) := by
  refine ⟨⟨(nodup_addElement h.exact).mpr h.ids.nodup, ?_⟩, fun found hfound => ?_⟩
  · exact forall_mem_map.mpr (exact_addElement h.exact helement.exact)
  · rcases mem_addElement (fun other hother => same_iff (h.exact other hother)) h.ids.nodup
      hfound with ⟨hold, -⟩ | ⟨rfl, -⟩ | ⟨old, hold, -, rfl⟩
    · exact h.below found hold
    · exact helement.below
    · exact helement.merge (h.below old hold)

theorem Apart.mergeElements : ∀ {elements current : List Instance}, Apart current →
    (∀ element ∈ elements, element.Addable) → Apart (mergeElements current elements)
  | [], current, h, _ => by
    rw [Instance.mergeElements]
    exact h
  | element :: rest, current, h, helements => by
    obtain ⟨helement, hrest⟩ := forall_mem_cons.mp helements
    rw [mergeElements_cons]
    exact (h.add helement).mergeElements hrest

end Elements

/-! ## Merging instances -/

theorem apart_mergeCollections : ∀ {collections current : List (String × List Instance)},
    (∀ entry ∈ current, Apart entry.2) →
    (∀ entry ∈ collections, ∀ element ∈ entry.2, element.Addable) →
    ∀ entry ∈ mergeCollections current collections, Apart entry.2
  | [], current, hcurrent, _ => by
    rw [mergeCollections]
    exact hcurrent
  | (name, elements) :: rest, current, hcurrent, hcollections => by
    obtain ⟨helements, hrest⟩ := forall_mem_cons.mp hcollections
    rw [mergeCollections]
    refine apart_mergeCollections (fun entry hentry => ?_) hrest
    rcases mem_insert hentry with rfl | hentry
    · have hbefore : Apart ((current.lookup name).getD []) := by
        cases hlookup : current.lookup name with
        | none => exact apart_nil
        | some before => exact hcurrent (name, before) (lookup_mem hlookup)
      exact hbefore.mergeElements helements
    · exact hcurrent entry hentry

theorem everyCollection_mergeProperties {P : List Value → Prop} :
    ∀ {properties current : List (String × ResultValue)},
      (∀ entry ∈ current, ∀ linked, entry.2 = .entity linked → linked.EveryCollection P) →
      (∀ entry ∈ properties, ∀ linked, entry.2 = .entity linked →
        ∀ {owner : Instance}, owner.EveryCollection P → (owner.merge linked).EveryCollection P) →
      ∀ entry ∈ mergeProperties current properties, ∀ linked, entry.2 = .entity linked →
        linked.EveryCollection P
  | [], current, hcurrent, _ => by
    rw [mergeProperties]
    exact hcurrent
  | (name, value) :: rest, current, hcurrent, hproperties => by
    obtain ⟨hvalue, hrest⟩ := forall_mem_cons.mp hproperties
    rcases mergeProperties_cons current name value rest with
      ⟨hmerge, -⟩ | ⟨old, found, rfl, hold, -, hmerge⟩
    · rw [hmerge]
      exact everyCollection_mergeProperties hcurrent hrest
    · rw [hmerge]
      refine everyCollection_mergeProperties (fun entry hentry linked hlinked => ?_) hrest
      rcases mem_insert hentry with rfl | hentry
      · obtain rfl := Outcome.entity.inj hlinked
        exact hvalue found rfl (hcurrent (name, .entity old) (lookup_mem hold) old rfl)
      · exact hcurrent entry hentry linked hlinked

/-- Merging repeats no element, at any level. The induction is on the second
instance: it is what is merged into others that can be new. -/
theorem EveryCollection.merge {found : Instance} (h : found.EveryCollection Distinct) :
    ∀ {owner : Instance}, owner.EveryCollection Distinct →
      (owner.merge found).EveryCollection Distinct := by
  induction h with
  | @mk found listed elements loaded ihelements ihloaded =>
    rintro owner ⟨listed', elements', loaded'⟩
    have hadd : ∀ entry ∈ found.collections, ∀ element ∈ entry.2, element.Addable :=
      fun entry hentry element helement =>
        ⟨(listed entry hentry).exact _ (mem_map_of_mem helement),
          elements entry hentry element helement, ihelements entry hentry element helement⟩
    have hapart := apart_mergeCollections
      (fun entry hentry => ⟨listed' entry hentry, elements' entry hentry⟩) hadd
    rw [← merge_collections owner found] at hapart
    refine .mk (fun entry hentry => (hapart entry hentry).ids)
      (fun entry hentry => (hapart entry hentry).below) ?_
    rw [merge_properties]
    exact everyCollection_mergeProperties loaded' ihloaded

theorem elements_merge (owner : Instance) {found : Instance}
    (hsorted : Sorted found.collections) (name : String) :
    (owner.merge found).elements name
      = mergeElements (owner.elements name) (found.elements name) := by
  unfold elements
  rw [merge_collections, lookup_mergeCollections name hsorted]
  cases found.collections.lookup name with
  | none =>
    rw [Option.getD_none, mergeElements]
    rfl
  | some elements => rfl

end Instance

/-! ## What a row brings -/

namespace Row

variable {row : Row} {fetches : List Fetch} {fetch : Fetch} {owner : FetchOwner}
  {property : String}

theorem broughtIds_cons : row.broughtIds (fetch :: fetches) owner property
    = if fetch.collection ∧ fetch.owner = owner ∧ fetch.property = property then
        (row.fetchedId? fetch).toList ++ row.broughtIds fetches owner property
      else row.broughtIds fetches owner property := by
  unfold broughtIds
  split
  · rename_i h
    rw [filter_cons_of_pos (by simpa using h), filterMap_cons]
    cases row.fetchedId? fetch <;> rfl
  · rename_i h
    rw [filter_cons_of_neg (by simpa using h)]

theorem broughtIds_drop {number : Nat} (hfetch : fetches[number]? = some fetch) :
    row.broughtIds (fetches.drop number) owner property
      = if fetch.collection ∧ fetch.owner = owner ∧ fetch.property = property then
          (row.fetchedId? fetch).toList ++ row.broughtIds (fetches.drop (number + 1)) owner property
        else row.broughtIds (fetches.drop (number + 1)) owner property := by
  obtain ⟨hlt, rfl⟩ := List.getElem?_eq_some_iff.mp hfetch
  rw [drop_eq_getElem_cons hlt, broughtIds_cons]

theorem broughtIds_drop_sublist (row : Row) (fetches : List Fetch) (owner : FetchOwner)
    (property : String) (start : Nat) :
    (row.broughtIds (fetches.drop start) owner property).Sublist
      (row.broughtIds fetches owner property) :=
  ((drop_sublist start fetches).filter _).filterMap _

theorem exact_of_mem_broughtIds (row : Row)
    (hexact : ∀ fetch ∈ fetches, fetch.layout.identifierType ≠ .double) (owner : FetchOwner)
    (property : String) : ∀ id ∈ row.broughtIds fetches owner property, id.Exact := by
  intro id hid
  obtain ⟨fetch, hfetch, hid⟩ := mem_filterMap.mp hid
  exact Gathers.exact_of_fetchedId? (hexact fetch (mem_of_mem_filter hfetch)) hid

theorem BringsOnce.nodup (h : row.BringsOnce fetches) (owner : FetchOwner) (property : String) :
    (row.broughtIds fetches owner property).Nodup := by
  by_cases hany : ∃ fetch ∈ fetches, fetch.owner = owner ∧ fetch.property = property
  · obtain ⟨fetch, hfetch, rfl, rfl⟩ := hany
    exact h fetch hfetch
  · have hnone : fetches.filter (fun fetch => fetch.collection ∧ fetch.owner = owner
        ∧ fetch.property = property) = [] := by
      rw [filter_eq_nil_iff]
      intro fetch hfetch hkey
      exact hany ⟨fetch, hfetch, (of_decide_eq_true hkey).2⟩
    rw [broughtIds, hnone]
    exact nodup_nil

/-- Where no two fetches are of one property, a row brings at most one identifier
into a collection. -/
theorem bringsOnce_of_nodup (h : Fetch.Separate fetches)
    (row : Row) : row.BringsOnce fetches := by
  intro fetch _
  refine pairwise_filterMap.mpr (((pairwise_map.mp h).filter _).imp_of_mem ?_)
  intro first later hfirst hlater hne
  have hkey := (mem_filter.mp hfirst).2
  have hkey' := (mem_filter.mp hlater).2
  rw [decide_eq_true_eq] at hkey hkey'
  exact (hne (Prod.ext (hkey.2.1.trans hkey'.2.1.symm) (hkey.2.2.trans hkey'.2.2.symm))).elim

end Row

/-- What a row has brought for an owner, once the fetches from a number on are
attached. -/
structure BringsFrom (fetches : List Fetch) (row : Row) (start : Nat) (owner : FetchOwner)
    (found : Instance) : Prop where
  sorted : Sorted found.collections
  ids : ∀ property, (found.elements property).map (·.id)
    = (row.broughtIds (fetches.drop start) owner property).reverse
  distinct : row.BringsOnce fetches → found.EveryCollection Distinct

namespace BringsFrom

variable {returns : List Return} {fetches : List Fetch} {row : Row} {start number : Nat}
  {fetch : Fetch} {owner : FetchOwner} {entry : Option Instance} {found : Instance}

theorem of_bare (h : found.Bare) : BringsFrom fetches row fetches.length owner found := by
  refine ⟨h.collections ▸ sorted_nil, fun property => ?_, fun _ => .mk ?_ ?_ ?_⟩
  · rw [elements, h.collections, drop_length]
    rfl
  · rw [h.collections]
    exact forall_mem_nil _
  · rw [h.collections]
    exact forall_mem_nil _
  · intro entry hentry linked hlinked
    exact (h.unloaded entry hentry linked hlinked).elim

/-- A collection of identifiers that are told apart, if the row brings each once. -/
theorem distinct_ids (hexact : ∀ fetch ∈ fetches, fetch.layout.identifierType ≠ .double)
    (honce : row.BringsOnce fetches) (start : Nat) (owner : FetchOwner) (property : String) :
    Distinct (row.broughtIds (fetches.drop start) owner property).reverse := by
  have hsublist := row.broughtIds_drop_sublist fetches owner property start
  refine ⟨nodup_reverse.mpr (hsublist.nodup (honce.nodup owner property)), fun id hid => ?_⟩
  exact row.exact_of_mem_broughtIds hexact owner property id (hsublist.subset (mem_reverse.mp hid))

theorem attach_collection (hexact : ∀ fetch ∈ fetches, fetch.layout.identifierType ≠ .double)
    (hfetch : fetches[number]? = some fetch) (hcollection : fetch.collection)
    (hid : entry.map Instance.id = row.fetchedId? fetch)
    (hentry : ∀ linked, entry = some linked →
      BringsFrom fetches row (number + 1) (.fetched number) linked)
    (h : BringsFrom fetches row (number + 1) fetch.owner found) :
    BringsFrom fetches row number fetch.owner (fetch.attach entry found) := by
  have hids : (found.elements fetch.property ++ entry.toList).map (·.id)
      = (row.broughtIds (fetches.drop number) fetch.owner fetch.property).reverse := by
    rw [Row.broughtIds_drop hfetch, if_pos ⟨hcollection, rfl, rfl⟩, reverse_append, ← h.ids,
      ← hid, map_append]
    cases entry <;> rfl
  rw [Fetch.attach_eq_withCollection hcollection]
  refine ⟨h.sorted.insert _ _, fun property => ?_, fun honce => ?_⟩
  · rw [Instance.elements_withCollection]
    by_cases hproperty : property = fetch.property
    · subst hproperty
      rw [if_pos rfl, hids]
    · rw [if_neg hproperty, Row.broughtIds_drop hfetch, if_neg fun h => hproperty h.2.2.symm]
      exact h.ids property
  · refine (h.distinct honce).withCollection _ ?_ fun element helement => ?_
    · rw [hids]
      exact distinct_ids hexact honce number fetch.owner fetch.property
    · rcases mem_append.mp helement with helement | helement
      · exact (h.distinct honce).of_mem_elements helement
      · exact (hentry element (Option.mem_toList.mp helement)).distinct honce

/-- A fetch that adds to no collection of the owner leaves them as they are. -/
theorem skip (hfetch : fetches[number]? = some fetch)
    (hno : ¬ (fetch.collection = true ∧ fetch.owner = owner))
    (h : BringsFrom fetches row (number + 1) owner found) :
    BringsFrom fetches row number owner found := by
  refine ⟨h.sorted, fun property => ?_, h.distinct⟩
  rw [Row.broughtIds_drop hfetch, if_neg fun h => hno ⟨h.1, h.2.1⟩]
  exact h.ids property

/-- Attaching a row's entities brings what the row brings, and nothing else. -/
theorem attachKeeps (hexact : ∀ fetch ∈ fetches, fetch.layout.identifierType ≠ .double) :
    row.AttachKeeps (BringsFrom fetches row) returns fetches where
  read h := .of_bare (Row.own?_bare h)
  skip hfetch hne h := h.skip hfetch fun hno => hne hno.2.symm
  attach := by
    intro number fetch entry owner hfetch hid hentry h
    by_cases hcollection : fetch.collection = true
    · exact h.attach_collection hexact hfetch hcollection hid hentry
    · have hskip := h.skip hfetch fun hno => hcollection hno.1
      cases entry with
      | none =>
        rw [Fetch.attach_none hcollection]
        exact hskip
      | some linked =>
        rw [Fetch.attach_some hcollection]
        exact ⟨hskip.sorted, hskip.ids, fun honce =>
          (hskip.distinct honce).withProperty _ ((hentry linked rfl).distinct honce)⟩

end BringsFrom

/-! ## The results of a plan -/

/-- What the rows of a result have brought for an entity that is loaded for a
return. -/
structure Brings (fetches : List Fetch) (number : Nat) (rows : List Row) (found : Instance) :
    Prop where
  sorted : Sorted found.collections
  exact : ∀ property, ∀ element ∈ found.elements property, element.id.Exact
  distinct : (∀ row ∈ rows, row.BringsOnce fetches) → found.EveryCollection Distinct
  first : ∃ row, rows.head? = some row ∧ ∀ property,
    ((found.elements property).map (·.id)).Nodup
      ↔ (row.broughtIds fetches (.returned number) property).Nodup

theorem BringsFrom.brings {fetches : List Fetch} {row : Row} {number : Nat} {found : Instance}
    (hexact : ∀ fetch ∈ fetches, fetch.layout.identifierType ≠ .double)
    (h : BringsFrom fetches row 0 (.returned number) found) :
    Brings fetches number [row] found := by
  have hids : ∀ property, (found.elements property).map (·.id)
      = (row.broughtIds fetches (.returned number) property).reverse := h.ids
  refine ⟨h.sorted, fun property => ?_, fun honce => h.distinct (honce row (.head _)),
    row, rfl, fun property => ?_⟩
  · refine forall_mem_map.mp ?_
    rw [hids]
    intro id hid
    exact row.exact_of_mem_broughtIds hexact _ property id (mem_reverse.mp hid)
  · rw [hids, nodup_reverse]

/-- One more row. -/
theorem Brings.mergeKeeps (fetches : List Fetch) : MergeKeeps (Brings fetches) := by
  intro number rows row owner other h h' _
  have helements := owner.elements_merge h'.sorted
  obtain ⟨first, hfirst, hnodup⟩ := h.first
  refine ⟨?_, fun property => ?_, fun honce => ?_, first, ?_, fun property => ?_⟩
  · rw [merge_collections]
    exact sorted_mergeCollections h.sorted
  · rw [helements]
    exact exact_mergeElements (h.exact property) (h'.exact property)
  · obtain ⟨hrows, hrow⟩ := forall_mem_append.mp honce
    exact (h'.distinct hrow).merge (h.distinct hrows)
  · rw [List.head?_append, hfirst]
    rfl
  · rw [helements, nodup_mergeElements (h.exact property) (h'.exact property), hnodup]

namespace Plan

/-- Where each row of a result brings an identifier at most once into a
collection, no collection of the result has an element twice, at any level. The
collections of a selected entity repeat an element exactly where the first row of
the result brings it twice. No row does that where no two fetches are of one
property. -/
theorem readRows_distinct {plan : Plan} (hcollection : plan.kind.fetchesCollection = true)
    (hexact : ∀ fetch ∈ plan.fetches, fetch.layout.identifierType ≠ .double) {rows : List Row}
    (hrows : ∀ row ∈ rows, ∃ result, plan.readRow row = .ok result) :
    (∃ merged : List (List ResultValue), plan.readRows rows = .ok (merged.map plan.result)
      ∧ ∀ values ∈ merged, ∀ {number : Nat} {found : Instance},
        values[number]? = some (.entity found) →
        ((∀ row ∈ rows, row.identity? plan.returns = some (values.map ResultValue.identity) →
            row.BringsOnce plan.fetches) → found.EveryCollection List.Nodup)
          ∧ ∀ {first}, (rows.find? fun row => row.identity? plan.returns
              = some (values.map ResultValue.identity)) = some first →
            ∀ property, ((found.elements property).map (·.id)).Nodup
              ↔ (first.broughtIds plan.fetches (.returned number) property).Nodup)
    ∧ ((plan.fetches.map fun fetch => (fetch.owner, fetch.property)).Nodup →
      ∀ row : Row, row.BringsOnce plan.fetches) := by
  refine ⟨?_, Row.bringsOnce_of_nodup⟩
  obtain ⟨merged, hmerged, hmerges⟩ := exists_mergesBy (Brings.mergeKeeps plan.fetches) hcollection
    hrows fun row _ _ h =>
      Row.values_reads (BringsFrom.attachKeeps hexact) (fun h => h.brings hexact) h
  refine ⟨merged, hmerged, fun values hvalues number found hfound => ⟨fun honce => ?_, ?_⟩⟩
  · refine ((hmerges.related values hvalues hfound).distinct fun row hrow => ?_).imp
      fun _ h => h.nodup
    obtain ⟨hrow, hidentity⟩ := mem_filter.mp hrow
    exact honce row hrow (of_decide_eq_true hidentity)
  · intro first hfirst property
    obtain ⟨row, hrow, hnodup⟩ := (hmerges.related values hvalues hfound).first
    rw [List.head?_filter] at hrow
    obtain rfl := Option.some.inj (hrow.symm.trans hfirst)
    exact hnodup property

/-- Orders that come by one fetch in one row, and by the other in another. -/
theorem readRows_distinct_crosswise : ∃ plan,
    compile compiler "q" personTwiceQuery [] = .ok plan
      ∧ ∃ merged : List (List ResultValue),
        plan.readRows crosswiseRows = .ok (merged.map plan.result)
        ∧ ∀ values ∈ merged, ∀ {number : Nat} {found : Instance},
          values[number]? = some (.entity found) → found.EveryCollection List.Nodup := by
  refine exists_ok_and (fun plan => plan.kind.fetchesCollection = true
      ∧ (∀ fetch ∈ plan.fetches, fetch.layout.identifierType ≠ .double)
      ∧ ∀ row ∈ crosswiseRows, (plan.readRow row).toOption.isSome ∧ row.BringsOnce plan.fetches)
    (by decide +kernel) fun plan hplan htest => ?_
  obtain ⟨hcollection, hexact, htest⟩ := htest
  obtain ⟨⟨merged, hmerged, hdistinct⟩, -⟩ := readRows_distinct hcollection hexact
    fun row hrow => exists_ok_of_isSome (htest row hrow).1
  exact ⟨merged, hmerged, fun values hvalues _ _ hfound =>
    (hdistinct values hvalues hfound).1 fun row hrow _ => (htest row hrow).2⟩

/-- One row that brings the same order by both fetches. -/
theorem order_comes_twice : ∃ plan results,
    compile compiler "q" personTwiceQuery [] = .ok plan
      ∧ plan.readRows [personTwiceRow 1 (.int 7) (.int 7)] = .ok results
      ∧ ∃ result ∈ results, ∃ found, result.get? 0 = some (.entity found)
        ∧ (found.elements "orders").map (·.id) = [.int 7, .int 7] := by
  refine exists_ok_exists_and (fun plan =>
      (plan.readRows [personTwiceRow 1 (.int 7) (.int 7)]).toOption.any
      fun results => results.any fun result => ((result.get? 0).bind Outcome.entity?).any
        fun found => (found.elements "orders").map (·.id) = [.int 7, .int 7])
    (by decide +kernel) fun plan hplan htest => ?_
  obtain ⟨results, hresults, htest⟩ := exists_ok_of_any htest
  obtain ⟨result, hresult, htest⟩ := any_eq_true.mp htest
  obtain ⟨found, hfound, hids⟩ := (Option.any_eq_true ..).mp htest
  refine ⟨results, hresults, result, hresult, found, ?_, of_decide_eq_true hids⟩
  obtain ⟨value, hvalue, hfound⟩ := Option.bind_eq_some_iff.mp hfound
  rw [hvalue, Outcome.entity?_eq_some.mp hfound]

end Plan

end EntityQuery
