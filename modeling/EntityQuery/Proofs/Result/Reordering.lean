import EntityQuery.Proofs.Result.Uniting

/-!
# The order of rows

A many-to-one association of an entity is loaded if the first of its rows brings
it (`Unites`). Rows may differ in that: a join with a condition can find the
associated entity in one row, and nothing in another row of the same owner. Then
what a later row brings is lost, and the order of the rows shows.

Where all rows of an owner bring the same (`Row.Steady`), nothing that a row brings
is lost (`Unites.kept`). If moreover all rows show an entity with the same columns
of its own (`Row.Agree`), another order of the rows gives the same results in
another order, with the elements of their collections in another order
(`Unites.alike`).
-/

namespace EntityQuery

open List Sample Keyed ResultValue Instance Fetch

/-- Lists whose elements are related one by one, in any order. -/
inductive Shuffled {α β : Type} (R : α → β → Prop) : List α → List β → Prop
  | nil : Shuffled R [] []
  | cons {a : α} {as : List α} {b : β} {before after : List β} (related : R a b)
    (rest : Shuffled R as (before ++ after)) : Shuffled R (a :: as) (before ++ b :: after)

/-- Values that are the same up to the order of elements below them. -/
inductive ResultValue.Alike (R : Instance → Instance → Prop) : ResultValue → ResultValue → Prop
  | plain {value value' : ResultValue} (unloaded : value.entity? = none)
    (unloaded' : value'.entity? = none) (same : value.identity = value'.identity) :
    Alike R value value'
  | entity {found found' : Instance} (related : R found found') :
    Alike R (.entity found) (.entity found')

/-- Instances that are the same up to the order of elements in collections. -/
inductive Instance.Alike : Instance → Instance → Prop
  | mk {found found' : Instance} (entity : found.entity = found'.entity)
    (id : found.id.mark = found'.id.mark)
    (properties : Forall₂ (SameKey (ResultValue.Alike Alike)) found.properties found'.properties)
    (collections : Forall₂ (SameKey (Shuffled Alike))
      found.collections found'.collections) : Alike found found'

def Fetch.Holds (fetch : Fetch) (owner found : Instance) : Prop :=
  if fetch.collection then found ∈ owner.elements fetch.property
  else owner.properties.lookup fetch.property = some (.entity found)

/-- All that a row brings for an owner is in an instance. -/
inductive Row.KeptIn (fetches : List Fetch) (row : Row) : FetchOwner → Instance → Prop
  | mk {owner : FetchOwner} {found : Instance} (next : Nat → Instance)
    (held : ∀ {number fetch id}, fetches[number]? = some fetch → fetch.owner = owner →
      row.fetchedId? fetch = some id → fetch.Holds found (next number) ∧ (next number).id = id
        ∧ (next number).entity = fetch.layout.entity)
    (kept : ∀ {number fetch id}, fetches[number]? = some fetch → fetch.owner = owner →
      row.fetchedId? fetch = some id → row.KeptIn fetches (.fetched number) (next number)) :
    row.KeptIn fetches owner found

/-- What is fetched for, in any row. -/
def Fetch.owners (returns : List Return) (fetches : List Fetch) : List FetchOwner :=
  (range returns.length).map .returned ++ (range fetches.length).map .fetched

/-- The columns of an entity, with doubles by their texts. -/
def Instance.columns (found : Instance) : Identity × List (String × Identity) :=
  (.entity found.entity found.id.mark,
    found.properties.map fun entry => (entry.1, identity entry.2))

theorem Instance.Bare.entity?_eq_none {found : Instance} (h : found.Bare) {property : String}
    {value : ResultValue} (hvalue : found.properties.lookup property = some value) :
    value.entity? = none := by
  rw [Option.eq_none_iff_forall_ne_some]
  intro linked hlinked
  exact h.unloaded _ (lookup_mem hvalue) linked (Outcome.entity?_eq_some.mp hlinked)

namespace Row

/-- Rows that show an entity show it with the same columns of its own. -/
def Agree (returns : List Return) (fetches : List Fetch) (rows : List Row) : Prop :=
  ∀ owner ∈ owners returns fetches, ∀ row ∈ rows, ∀ row' ∈ rows,
    ∀ own ∈ row.own? returns fetches owner, ∀ own' ∈ row'.own? returns fetches owner,
      own.id.mark = own'.id.mark → own.columns = own'.columns

/-- Rows that show an entity bring the same for each of its many-to-one
associations. -/
def Steady (returns : List Return) (fetches : List Fetch) (rows : List Row) : Prop :=
  ∀ fetch ∈ fetches, fetch.collection = false → ∀ row ∈ rows, ∀ row' ∈ rows,
    ∀ own ∈ row.own? returns fetches fetch.owner, ∀ own' ∈ row'.own? returns fetches fetch.owner,
      own.id.mark = own'.id.mark → row.fetchedId? fetch = row'.fetchedId? fetch

instance (returns : List Return) (fetches : List Fetch) (rows : List Row) :
    Decidable (Agree returns fetches rows) :=
  inferInstanceAs (Decidable (∀ owner ∈ owners returns fetches, _))

instance (returns : List Return) (fetches : List Fetch) (rows : List Row) :
    Decidable (Steady returns fetches rows) :=
  inferInstanceAs (Decidable (∀ fetch ∈ fetches, _))

theorem mem_owners_of_own? {row : Row} {returns : List Return} {fetches : List Fetch}
    {owner : FetchOwner} {own : Instance} (h : row.own? returns fetches owner = some own) :
    owner ∈ owners returns fetches := by
  cases owner with
  | returned number =>
    obtain ⟨value, hvalue, -⟩ := Option.bind_eq_some_iff.mp h
    exact mem_append_left _ (mem_map.mpr
      ⟨number, mem_range.mpr (List.getElem?_eq_some_iff.mp hvalue).1, rfl⟩)
  | fetched number =>
    obtain ⟨fetch, hfetch, -⟩ := Option.bind_eq_some_iff.mp h
    exact mem_append_right _ (mem_map.mpr
      ⟨number, mem_range.mpr (List.getElem?_eq_some_iff.mp hfetch).1, rfl⟩)

end Row

/-! ## Nothing is lost -/

/-- The entity of each fetch may be found for that fetch alone. -/
theorem Row.KeptIn.of_exists {fetches : List Fetch} {row : Row} {owner : FetchOwner}
    {found : Instance}
    (h : ∀ {number fetch id}, fetches[number]? = some fetch → fetch.owner = owner →
      row.fetchedId? fetch = some id → ∃ next, fetch.Holds found next ∧ next.id = id
        ∧ next.entity = fetch.layout.entity ∧ row.KeptIn fetches (.fetched number) next) :
    row.KeptIn fetches owner found := by
  have hnext : ∀ number, ∃ next, ∀ fetch id, fetches[number]? = some fetch →
      fetch.owner = owner → row.fetchedId? fetch = some id →
      fetch.Holds found next ∧ next.id = id ∧ next.entity = fetch.layout.entity
        ∧ row.KeptIn fetches (.fetched number) next := by
    intro number
    by_cases hbrings : ∃ fetch id, fetches[number]? = some fetch ∧ fetch.owner = owner
        ∧ row.fetchedId? fetch = some id
    · obtain ⟨fetch, id, hfetch, howner, hid⟩ := hbrings
      obtain ⟨next, hnext⟩ := h hfetch howner hid
      refine ⟨next, fun fetch' id' hfetch' _ hid' => ?_⟩
      obtain rfl := Option.some.inj (hfetch.symm.trans hfetch')
      obtain rfl := Option.some.inj (hid.symm.trans hid')
      exact hnext
    · -- Nothing is asked of the entity of a fetch that brings none.
      exact ⟨found, fun fetch id hfetch howner hid =>
        (hbrings ⟨fetch, id, hfetch, howner, hid⟩).elim⟩
  choose next hnext using hnext
  refine .mk next (fun hfetch howner hid => ?_) fun hfetch howner hid => ?_
  · obtain ⟨hholds, hid, hentity, -⟩ := hnext _ _ _ hfetch howner hid
    exact ⟨hholds, hid, hentity⟩
  · exact (hnext _ _ _ hfetch howner hid).2.2.2

namespace Unites

variable {returns : List Return} {fetches : List Fetch} {owner : FetchOwner} {rows all : List Row}
  {found : Instance}

theorem entity_eq {number : Nat} {fetch : Fetch} (hfetch : fetches[number]? = some fetch)
    (h : Unites returns fetches (.fetched number) rows found) :
    found.entity = fetch.layout.entity := by
  obtain ⟨R, united, starts, loads, collects⟩ := h
  rw [starts.entity]
  obtain ⟨fetch', hfetch', hread⟩ := Option.bind_eq_some_iff.mp starts.read
  obtain rfl := Option.some.inj (hfetch.symm.trans hfetch')
  have hentry := toOption_eq_some.mp (Option.join_eq_some_iff.mp hread)
  rcases Row.readEntity?_cases hentry with ⟨hnone, -⟩ | ⟨other, hother, hentity, -⟩
  · cases hnone
  · obtain rfl := Option.some.inj hother
    exact hentity

/-- The rows of an instance bring the same for its many-to-one associations. -/
theorem fetchedId?_eq {first : Row} {own : Instance} {number : Nat} {fetch : Fetch}
    (hsteady : Row.Steady returns fetches all)
    (starts : StartsWith returns fetches owner rows first own found) (hsubset : rows ⊆ all)
    (hlinks : Links fetches owner number fetch) {row : Row} (hrow : row ∈ rows) :
    first.fetchedId? fetch = row.fetchedId? fetch := by
  obtain ⟨other, hother, hmark⟩ := starts.same row hrow
  obtain rfl := hlinks.owned
  exact hsteady fetch (mem_of_getElem? hlinks.numbered) (Bool.not_eq_true _ ▸ hlinks.single)
    first (hsubset starts.first_mem) row (hsubset hrow) own starts.read other hother hmark.symm

theorem kept (hsteady : Row.Steady returns fetches all)
    (h : Unites returns fetches owner rows found) :
    rows ⊆ all → ∀ row ∈ rows, row.KeptIn fetches owner found := by
  induction h with
  | @mk owner rows first own found R united starts loads collects ih =>
    intro hsubset row hrow
    refine .of_exists fun {number fetch id} hfetch howner hid => ?_
    have hheld : ∃ next, fetch.Holds found next ∧ next.id = id
        ∧ R number (rows.filter fun row => row.fetchedId? fetch = some id) next := by
      by_cases hcollection : fetch.collection = true
      · obtain ⟨elements, hlookup, hids, hrelated⟩ :=
          collects.present ⟨hfetch, howner, hcollection⟩ (Nat.zero_le _)
        have hmem : id ∈ elements.map (·.id) := by
          rw [hids, mem_eraseDups]
          exact mem_filterMap.mpr ⟨row, hrow, hid⟩
        obtain ⟨element, helement, rfl⟩ := mem_map.mp hmem
        refine ⟨element, ?_, rfl, hrelated element helement⟩
        rw [Fetch.Holds, if_pos hcollection, Instance.elements, hlookup]
        exact helement
      · have hlinks : Links fetches owner number fetch := ⟨hfetch, howner, hcollection⟩
        rw [← fetchedId?_eq hsteady starts hsubset hlinks hrow] at hid
        obtain ⟨linked, hlookup, hlinked, hrelated⟩ := loads.loaded hlinks (Nat.zero_le _) hid
        refine ⟨linked, ?_, hlinked, hrelated⟩
        rw [Fetch.Holds, if_neg hcollection]
        exact hlookup
    obtain ⟨next, hholds, hnext, hrelated⟩ := hheld
    refine ⟨next, hholds, hnext, (united hrelated).entity_eq hfetch, ih hrelated ?_ row ?_⟩
    · exact Subset.trans (filter_subset_self _) hsubset
    · exact mem_filter.mpr ⟨hrow, decide_eq_true hid⟩

end Unites

/-! ## Another order -/

namespace Shuffled

variable {α β κ : Type} {R : α → β → Prop}

theorem of_perm {as : List α} {bs : List β} (h : Forall₂ R as bs) :
    ∀ {cs}, bs.Perm cs → Shuffled R as cs := by
  induction h with
  | nil =>
    intro cs hperm
    rw [nil_perm.mp hperm]
    exact .nil
  | @cons a b as bs hrelated _ ih =>
    intro cs hperm
    obtain ⟨before, after, rfl⟩ := append_of_mem (hperm.subset (.head _))
    exact .cons hrelated (ih (hperm.trans perm_middle).cons_inv)

/-- Lists with the same keys, where elements of one key are related. -/
theorem of_keys (key : α → κ) (key' : β → κ) {as : List α} {bs : List β}
    (hkeys : (as.map key).Perm (bs.map key'))
    (hrelated : ∀ a ∈ as, ∀ b ∈ bs, key a = key' b → R a b) : Shuffled R as bs := by
  have hown : Forall₂ (fun key b => key = key' b) (bs.map key') bs :=
    forall₂_map_left_iff.mpr (forall₂_same.mpr fun _ _ => rfl)
  obtain ⟨others, hothers, hperm⟩ := perm_comp_forall₂ hkeys hown
  rw [forall₂_map_left_iff] at hothers
  refine of_perm (forall₂_iff_get.mpr ⟨hothers.length_eq, fun i hi hi' => ?_⟩) hperm
  exact hrelated _ (get_mem ..) _ (hperm.subset (get_mem ..)) (hothers.get hi hi')

end Shuffled

theorem perm_eraseDups {α : Type} [BEq α] [LawfulBEq α] {as bs : List α} (h : as.Perm bs) :
    as.eraseDups.Perm bs.eraseDups := by
  rw [perm_ext_iff_of_nodup (nodup_eraseDups as) (nodup_eraseDups bs)]
  intro a
  rw [mem_eraseDups, mem_eraseDups, h.mem_iff]

section Alike

variable {R R' : Nat → List Row → Instance → Prop} {returns : List Return} {fetches : List Fetch}
  {owner : FetchOwner} {rows rows' all : List Row} {first first' : Row}
  {own own' found found' : Instance}

/-- Entities with the same columns have properties that are alike. -/
theorem Instance.Bare.alike_lookup (h : own.Bare) (h' : own'.Bare)
    (hcolumns : own.columns = own'.columns) (property : String) :
    Option.Rel (ResultValue.Alike Alike) (own.properties.lookup property)
      (own'.properties.lookup property) := by
  have hlookup := congrArg (·.2.lookup property) hcolumns
  simp only [columns, lookup_map] at hlookup
  cases hvalue : own.properties.lookup property with
  | none =>
    rw [hvalue] at hlookup
    rw [Option.map_eq_none_iff.mp hlookup.symm]
    exact .none
  | some value =>
    rw [hvalue] at hlookup
    obtain ⟨value', hvalue', hsame⟩ := Option.map_eq_some_iff.mp hlookup.symm
    rw [hvalue']
    exact .some (.plain (h.entity?_eq_none hvalue) (h'.entity?_eq_none hvalue') hsame.symm)

theorem Loads.alike (hown : own.Bare) (hown' : own'.Bare) (hcolumns : own.columns = own'.columns)
    (hsame : ∀ {number fetch}, Links fetches owner number fetch →
      first.fetchedId? fetch = first'.fetchedId? fetch)
    (h : Loads R fetches 0 owner rows first own found)
    (h' : Loads R' fetches 0 owner rows' first' own' found')
    (halike : ∀ {number p linked linked'}, R number (rows.filter p) linked →
      R' number (rows'.filter p) linked' → linked.Alike linked') :
    Forall₂ (SameKey (ResultValue.Alike Alike)) found.properties found'.properties := by
  refine forall₂_sameKey h.sorted h'.sorted fun property => ?_
  by_cases hlinked : ∃ number fetch id, Links fetches owner number fetch
      ∧ fetch.property = property ∧ first.fetchedId? fetch = some id
  · obtain ⟨number, fetch, id, hlinks, rfl, hid⟩ := hlinked
    obtain ⟨linked, hlookup, -, hrelated⟩ := h.loaded hlinks (Nat.zero_le _) hid
    rw [hsame hlinks] at hid
    obtain ⟨linked', hlookup', -, hrelated'⟩ := h'.loaded hlinks (Nat.zero_le _) hid
    rw [hlookup, hlookup']
    exact .some (.entity (halike hrelated hrelated'))
  · have hnone : ∀ {number fetch}, Links fetches owner number fetch →
        fetch.property = property → first.fetchedId? fetch = none := by
      intro number fetch hlinks hproperty
      cases hid : first.fetchedId? fetch with
      | none => rfl
      | some id => exact (hlinked ⟨number, fetch, id, hlinks, hproperty, hid⟩).elim
    rw [h.plain fun hlinks _ => hnone hlinks, h'.plain fun hlinks _ hproperty =>
      (hsame hlinks).symm.trans (hnone hlinks hproperty)]
    exact hown.alike_lookup hown' hcolumns property

theorem CollectsOnly.alike (hperm : rows.Perm rows') (h : CollectsOnly R fetches 0 owner rows found)
    (h' : CollectsOnly R' fetches 0 owner rows' found')
    (halike : ∀ {number p element element'}, R number (rows.filter p) element →
      R' number (rows'.filter p) element' → element.Alike element') :
    Forall₂ (SameKey (Shuffled Instance.Alike)) found.collections found'.collections := by
  refine forall₂_sameKey h.sorted h'.sorted fun property => ?_
  by_cases hfilled : ∃ number fetch, Fills fetches owner number fetch
      ∧ fetch.property = property
  · obtain ⟨number, fetch, hfills, rfl⟩ := hfilled
    obtain ⟨elements, hlookup, hids, hrelated⟩ := h.present hfills (Nat.zero_le _)
    obtain ⟨elements', hlookup', hids', hrelated'⟩ := h'.present hfills (Nat.zero_le _)
    rw [hlookup, hlookup']
    refine .some (.of_keys Instance.id Instance.id ?_ fun element helement element' helement' hid => ?_)
    · rw [hids, hids']
      exact perm_eraseDups (hperm.filterMap _)
    · exact halike (hrelated element helement) (hid ▸ hrelated' element' helement')
  · have hnone : ∀ {number fetch}, Fills fetches owner number fetch → 0 ≤ number →
        fetch.property ≠ property :=
      fun hfills _ hproperty => hfilled ⟨_, _, hfills, hproperty⟩
    rw [h.absent hnone, h'.absent hnone]
    exact .none

/-- Instances that have united the same rows, in two orders. -/
theorem Unites.alike (hagree : Row.Agree returns fetches all)
    (hsteady : Row.Steady returns fetches all) (h : Unites returns fetches owner rows found) :
    ∀ {rows' found'}, rows ⊆ all → rows.Perm rows' → Unites returns fetches owner rows' found' →
      found.Alike found' := by
  induction h with
  | @mk owner rows first own found R united starts loads collects ih =>
    rintro rows' found' hsubset hperm ⟨R', united', starts', loads', collects'⟩
    rename_i first' own'
    -- The first row of the second order is a row of the first, with the same columns.
    have hfirst' : first' ∈ rows := hperm.mem_iff.mpr starts'.first_mem
    obtain ⟨other, hother, hmark⟩ := starts.same first' hfirst'
    obtain rfl := Option.some.inj (starts'.read.symm.trans hother)
    have hcolumns : own.columns = own'.columns :=
      hagree owner (Row.mem_owners_of_own? starts.read) first (hsubset starts.first_mem) first'
        (hsubset hfirst') own starts.read own' hother hmark.symm
    have hbelow : ∀ {number p linked linked'}, R number (rows.filter p) linked →
        R' number (rows'.filter p) linked' → linked.Alike linked' := fun hrelated hrelated' =>
      ih hrelated (Subset.trans (filter_subset_self _) hsubset) (hperm.filter _) (united' hrelated')
    refine .mk ?_ ?_ ?_ (collects.alike hperm collects' hbelow)
    · rw [starts.entity, starts'.entity]
      exact (Identity.entity.inj (congrArg Prod.fst hcolumns)).1
    · rw [starts.id, starts'.id, hmark]
    · exact loads.alike (Row.own?_bare starts.read) (Row.own?_bare starts'.read) hcolumns
        (fun hlinks => fetchedId?_eq hsteady starts hsubset hlinks hfirst') loads' hbelow

end Alike

/-! ## The results of a plan -/

theorem ResultValue.alike_of_identity {shape : KeyShape} {value value' : ResultValue}
    (h : shape.Fits value) (h' : shape.Fits value') (hidentity : value.identity = value'.identity)
    (hentity : ∀ {found found'}, value = .entity found → value' = .entity found' →
      found.Alike found') : ResultValue.Alike Instance.Alike value value' := by
  cases hvalue : value.entity? with
  | some found =>
    obtain rfl := Outcome.entity?_eq_some.mp hvalue
    obtain ⟨found', rfl⟩ := exists_entity_of_identity_eq h h' hidentity
    exact .entity (hentity rfl rfl)
  | none =>
    refine .plain hvalue ?_ hidentity
    rw [Option.eq_none_iff_forall_ne_some]
    intro found' hfound'
    obtain rfl := Outcome.entity?_eq_some.mp hfound'
    obtain ⟨found, rfl⟩ := exists_entity_of_identity_eq h' h hidentity.symm
    cases hvalue

section Values

variable {shapes : List KeyShape} {values values' : List ResultValue}

/-- Values that are identified in the same way are alike if their entities are. -/
theorem forall₂_alike (h : Forall₂ KeyShape.Fits shapes values)
    (h' : Forall₂ KeyShape.Fits shapes values')
    (hidentities : values.map ResultValue.identity = values'.map ResultValue.identity)
    (hentity : ∀ {number : Nat} {found found' : Instance}, values[number]? = some (.entity found) →
      values'[number]? = some (.entity found') → found.Alike found') :
    Forall₂ (ResultValue.Alike Alike) values values' := by
  have hlength : values.length = values'.length := h.length_eq.symm.trans h'.length_eq
  refine forall₂_iff_get.mpr ⟨hlength, fun i hi hi' => ?_⟩
  have hvalue := getElem?_eq_getElem hi
  have hvalue' := getElem?_eq_getElem hi'
  have hshape : i < shapes.length := h.length_eq ▸ hi
  refine ResultValue.alike_of_identity (h.get hshape hi) (h'.get hshape hi') ?_ ?_
  · have hnumber := congrArg (·[i]?) hidentities
    simpa [hvalue, hvalue'] using hnumber
  · intro found found' hfound hfound'
    exact hentity (hvalue.trans (congrArg some hfound)) (hvalue'.trans (congrArg some hfound'))

end Values

namespace Plan

theorem MergesBy.shuffled {G : Nat → List Row → Instance → Prop} {plan : Plan} {rows rows' : List Row}
    {merged merged' : List (List ResultValue)} (h : plan.MergesBy G rows merged)
    (h' : plan.MergesBy G rows' merged') (hperm : rows.Perm rows')
    (halike : ∀ {number p found found'}, G number (rows.filter p) found →
      G number (rows'.filter p) found' → found.Alike found') :
    Shuffled (Forall₂ (ResultValue.Alike Alike)) merged merged' := by
  refine .of_keys (fun values => some (values.map ResultValue.identity))
    (fun values => some (values.map ResultValue.identity)) ?_ ?_
  · rw [h.identities, h'.identities]
    exact perm_eraseDups (hperm.map _)
  · intro values hvalues values' hvalues' hkey
    have hidentities := Option.some.inj hkey
    refine forall₂_alike (h.fits values hvalues) (h'.fits values' hvalues') hidentities ?_
    intro number found found' hfound hfound'
    have hrelated' := h'.related values' hvalues' hfound'
    rw [← hidentities] at hrelated'
    exact halike (h.related values hvalues hfound) hrelated'

/-- The results unite their rows, the first row of each coming first. Where all
rows of an owner bring the same for its many-to-one associations, nothing that a
row brings is lost; and if they show it with the same columns of its own, another
order of the rows changes only the order of the results and of the elements of
collections. -/
theorem readRows_unites {compiler : Compiler} {identifier query : String}
    {substitutions : List (String × String)} {plan : Plan}
    (hcompile : compile compiler identifier query substitutions = .ok plan)
    (hcollection : plan.kind.fetchesCollection = true)
    (hnodup : (plan.fetches.map fun fetch => (fetch.owner, fetch.property)).Nodup) {rows : List Row}
    (hids : ∀ fetch ∈ plan.fetches, Value.Comparable (rows.filterMap (·.fetchedId? fetch)))
    (hrows : ∀ row ∈ rows, ∃ result, plan.readRow row = .ok result) :
    ∃ merged, plan.readRows rows = .ok (merged.map plan.result)
      ∧ plan.MergesBy (fun number => Unites plan.returns plan.fetches (.returned number)) rows merged
      ∧ (Row.Steady plan.returns plan.fetches rows →
        (∀ values ∈ merged, ∀ row ∈ rows,
          row.identity? plan.returns = some (values.map ResultValue.identity) →
          ∀ {number : Nat} {found : Instance}, values[number]? = some (.entity found) →
            row.KeptIn plan.fetches (.returned number) found)
        ∧ (Row.Agree plan.returns plan.fetches rows → ∀ {rows'}, rows.Perm rows' →
          ∃ merged', plan.readRows rows' = .ok (merged'.map plan.result)
            ∧ Shuffled (Forall₂ (ResultValue.Alike Alike)) merged merged')) := by
  have howners := ownersFirst_of_compile hcompile (isManipulation_of_fetchesCollection hcollection)
  obtain ⟨merged, hmerged, hmerges⟩ := exists_unites howners hcollection hnodup hids hrows
  refine ⟨merged, hmerged, hmerges, fun hsteady => ⟨?_, fun hagree rows' hperm => ?_⟩⟩
  · intro values hvalues row hrow hidentity number found hfound
    exact (hmerges.related values hvalues hfound).kept hsteady (filter_subset_self _) row
      (mem_filter.mpr ⟨hrow, decide_eq_true hidentity⟩)
  · obtain ⟨merged', hmerged', hmerges'⟩ := exists_unites howners hcollection hnodup
      (fun fetch hfetch => (hids fetch hfetch).mono (filterMap_subset _ hperm.symm.subset))
      fun row hrow => hrows row (hperm.mem_iff.mpr hrow)
    refine ⟨merged', hmerged', hmerges.shuffled hmerges' hperm fun h h' => ?_⟩
    exact h.alike hagree hsteady (filter_subset_self _) (hperm.filter _) h'

/-- A person whose employer all rows bring. -/
theorem readRows_unites_employer : ∃ plan,
    compile compiler "q" "select p from Person p left join fetch p.orders left join fetch p.employer"
        [] = .ok plan
      ∧ ∃ merged merged' : List (List ResultValue),
        plan.readRows employedRows = .ok (merged.map plan.result)
        ∧ plan.readRows employedRows.reverse = .ok (merged'.map plan.result)
        ∧ Shuffled (Forall₂ (ResultValue.Alike Alike)) merged merged'
        ∧ ∀ values ∈ merged, ∀ row ∈ employedRows,
          row.identity? plan.returns = some (values.map ResultValue.identity) →
          ∀ {number : Nat} {found : Instance}, values[number]? = some (.entity found) →
            row.KeptIn plan.fetches (.returned number) found := by
  refine exists_ok_and (fun plan => plan.kind.fetchesCollection = true
      ∧ (plan.fetches.map fun fetch : Fetch => (fetch.owner, fetch.property)).Nodup
      ∧ (∀ fetch ∈ plan.fetches, fetch.layout.identifierType ≠ .double)
      ∧ (∀ row ∈ employedRows, (plan.readRow row).toOption.isSome)
      ∧ Row.Steady plan.returns plan.fetches employedRows
      ∧ Row.Agree plan.returns plan.fetches employedRows) (by decide +kernel)
    fun plan hplan htest => ?_
  obtain ⟨hcollection, hnodup, hexact, hread, hsteady, hagree⟩ := htest
  obtain ⟨merged, hmerged, -, hrest⟩ := readRows_unites hplan hcollection hnodup
    (fun fetch hfetch => Gathers.comparable_ids (hexact fetch hfetch) _)
    fun row hrow => exists_ok_of_isSome (hread row hrow)
  obtain ⟨hkept, horder⟩ := hrest hsteady
  obtain ⟨merged', hmerged', hshuffled⟩ := horder hagree (reverse_perm _).symm
  exact ⟨merged, merged', hmerged, hmerged', hshuffled, hkept⟩

/-- A person whose employer the second row brings, and the first does not: all
that is left of it is the reference that the columns of the person hold. -/
theorem employer_stays_reference : ∃ plan results,
    compile compiler "q" conditionedQuery [] = .ok plan
      ∧ (plan.fetches.map fun fetch => (fetch.owner, fetch.property)).Nodup
      ∧ Row.Agree plan.returns plan.fetches conditionedRows
      ∧ (∃ fetch ∈ plan.fetches, fetch.property = "employer" ∧ fetch.collection = false
        ∧ conditionedRows.map (·.fetchedId? fetch) = [none, some (.int 5)])
      ∧ plan.readRows conditionedRows = .ok results
      ∧ ∃ result ∈ results, ∃ found value, result.get? 0 = some (.entity found)
        ∧ found.properties.lookup "employer" = some value ∧ value.entity? = none
        ∧ identity value = .entity "Company" (.plain (.int 5)) := by
  refine exists_ok_exists_and (fun plan =>
      (plan.fetches.map fun fetch : Fetch => (fetch.owner, fetch.property)).Nodup
      ∧ Row.Agree plan.returns plan.fetches conditionedRows
      ∧ (∃ fetch ∈ plan.fetches, fetch.property = "employer" ∧ fetch.collection = false
        ∧ conditionedRows.map (·.fetchedId? fetch) = [none, some (.int 5)])
      ∧ (plan.readRows conditionedRows).toOption.any fun results => results.any fun result =>
        ((result.get? 0).bind Outcome.entity?).any fun found =>
          (found.properties.lookup "employer").any fun value => value.entity?.isNone
            && identity value = .entity "Company" (.plain (.int 5))) (by decide +kernel)
    fun plan hplan htest => ?_
  obtain ⟨hnodup, hagree, hfetch, htest⟩ := htest
  obtain ⟨results, hresults, htest⟩ := exists_ok_of_any htest
  obtain ⟨result, hresult, htest⟩ := any_eq_true.mp htest
  obtain ⟨found, hfound, htest⟩ := (Option.any_eq_true ..).mp htest
  obtain ⟨value, hvalue, htest⟩ := (Option.any_eq_true ..).mp htest
  rw [Bool.and_eq_true, Option.isNone_iff_eq_none, decide_eq_true_eq] at htest
  obtain ⟨selected, hselected, hfound⟩ := Option.bind_eq_some_iff.mp hfound
  rw [Outcome.entity?_eq_some.mp hfound] at hselected
  exact ⟨results, hnodup, hagree, hfetch, hresults, result, hresult, found, value, hselected,
    hvalue, htest⟩

end Plan

end EntityQuery
