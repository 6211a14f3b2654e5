import EntityQuery.Proofs.Result.Uniting

/-!
# Where fetched entities land

The entities that one row brings hang together as the fetches say: each of them
stands under its property of its owner and nowhere else (`Row.Lands`). A path of
properties from a selected entity so leads to one entity, or to none where a
fetch on it brings nothing (`Row.Lands.along`).
-/

namespace EntityQuery

open List Fetch Option

/-- An entity with all that a row brings below it; `linked` is what the fetches of
its properties bring. -/
inductive Row.Lands (returns : List Return) (fetches : List Fetch) (row : Row) :
    FetchOwner → Instance → Prop
  | mk {owner : FetchOwner} {own found : Instance} (linked : Nat → Option Instance)
    (read : row.own? returns fetches owner = some own)
    (entity : found.entity = own.entity) (id : found.id = own.id)
    (brought : ∀ {number fetch}, fetches[number]? = some fetch → fetch.owner = owner →
      (linked number).map Instance.id = row.fetchedId? fetch)
    (collection : ∀ {number fetch}, Fills fetches owner number fetch →
      found.collections.lookup fetch.property = some (linked number).toList)
    (noOther : ∀ {property}, (∀ {number fetch}, Fills fetches owner number fetch →
      fetch.property ≠ property) → found.collections.lookup property = none)
    (loaded : ∀ {number fetch element}, Links fetches owner number fetch →
      linked number = some element →
      found.properties.lookup fetch.property = some (.entity element))
    (plain : ∀ {property}, (∀ {number fetch}, Links fetches owner number fetch →
      fetch.property = property → linked number = none) →
      found.properties.lookup property = own.properties.lookup property)
    (below : ∀ {number fetch element}, fetches[number]? = some fetch → fetch.owner = owner →
      linked number = some element → row.Lands returns fetches (.fetched number) element) :
    row.Lands returns fetches owner found

theorem Instance.Bare.bind_entity? {own : Instance} (h : own.Bare) (name : String) :
    (own.properties.lookup name).bind Outcome.entity? = none := by
  refine bind_eq_none_iff.mpr fun value hvalue => ?_
  cases value with
  | entity linked => exact (h.unloaded _ (Keyed.lookup_mem hvalue) linked rfl).elim
  | _ => rfl

namespace Row

variable {returns : List Return} {fetches : List Fetch} {row : Row} {owner : FetchOwner}
  {found : Instance}

/-- What stands for a fetch in its owner. -/
def standing (fetches : List Fetch) (found : Instance) (number : Nat) : Option Instance :=
  (fetches[number]?).bind fun fetch =>
    if fetch.collection then (found.elements fetch.property).head?
    else (found.properties.lookup fetch.property).bind Outcome.entity?

theorem standing_eq {number : Nat} {fetch : Fetch} (h : fetches[number]? = some fetch) :
    standing fetches found number
      = if fetch.collection then (found.elements fetch.property).head?
        else (found.properties.lookup fetch.property).bind Outcome.entity? := by
  rw [standing, h]
  rfl

theorem standing_of_fills {R : Nat → List Row → Instance → Prop}
    (h : CollectsOnly R fetches 0 owner [row] found) {number : Nat} {fetch : Fetch}
    (hfills : Fills fetches owner number fetch) :
    found.collections.lookup fetch.property = some (standing fetches found number).toList
      ∧ (standing fetches found number).map Instance.id = row.fetchedId? fetch
      ∧ ∀ element, standing fetches found number = some element → R number [row] element := by
  obtain ⟨elements, hlookup, hids, hrelated⟩ := h.present hfills (Nat.zero_le _)
  rw [standing_eq hfills.numbered, if_pos hfills.collection, Instance.elements, hlookup, getD_some]
  cases hid : row.fetchedId? fetch with
  | none =>
    obtain rfl : elements = [] := by simpa [hid] using hids
    exact ⟨rfl, rfl, fun _ h => by cases h⟩
  | some id =>
    obtain ⟨element, rfl, rfl⟩ : ∃ element, elements = [element] ∧ element.id = id := by
      simpa [hid, eraseDups_cons, map_eq_singleton_iff] using hids
    refine ⟨rfl, rfl, ?_⟩
    rintro _ ⟨rfl⟩
    have hone := hrelated element (.head _)
    rwa [filter_cons_of_pos (by simp [hid]), filter_nil] at hone

theorem standing_of_links {R : Nat → List Row → Instance → Prop} {own : Instance}
    (hnodup : Separate fetches) (hown : own.Bare)
    (h : Loads R fetches 0 owner [row] row own found) {number : Nat} {fetch : Fetch}
    (hlinks : Links fetches owner number fetch) :
    (standing fetches found number).map Instance.id = row.fetchedId? fetch
      ∧ ∀ element, standing fetches found number = some element →
        found.properties.lookup fetch.property = some (.entity element) ∧ R number [row] element := by
  rw [standing_eq hlinks.numbered, if_neg hlinks.single]
  cases hid : row.fetchedId? fetch with
  | none =>
    have hnone : (found.properties.lookup fetch.property).bind Outcome.entity? = none := by
      rw [h.plain, hown.bind_entity?]
      intro number' fetch' hlinks' _ hproperty
      obtain rfl := number_eq hnodup hlinks'.numbered hlinks.numbered
        (hlinks'.owned.trans hlinks.owned.symm) hproperty
      obtain rfl := some.inj (hlinks.numbered.symm.trans hlinks'.numbered)
      exact hid
    rw [hnone]
    exact ⟨rfl, fun _ h => nomatch h⟩
  | some id =>
    obtain ⟨linked, hlookup, rfl, hrelated⟩ := h.loaded hlinks (Nat.zero_le _) hid
    rw [hlookup]
    refine ⟨rfl, ?_⟩
    rintro _ ⟨rfl⟩
    rw [filter_cons_of_pos (by simp [hid]), filter_nil] at hrelated
    exact ⟨rfl, hrelated⟩

/-- What unites one row alone is what the row brings. -/
theorem lands_of_unites (hnodup : Separate fetches)
    {rows : List Row} (h : Unites returns fetches owner rows found) (hrows : rows = [row]) :
    row.Lands returns fetches owner found := by
  induction h with
  | @mk owner rows first own found R united starts loads collects ih =>
    subst hrows
    obtain rfl := some.inj starts.head
    have hown := own?_bare starts.read
    have hfills := fun {number fetch} => @standing_of_fills _ _ _ _ _ collects number fetch
    have hlinks := fun {number fetch} => @standing_of_links _ _ _ _ _ _ hnodup hown loads number fetch
    refine .mk (standing fetches found) starts.read starts.entity starts.id ?_
      (fun h => (hfills h).1) (fun h => collects.absent fun hfills _ => h hfills)
      (fun h helement => ((hlinks h).2 _ helement).1) ?_ ?_
    · intro number fetch hfetch howner
      by_cases hcollection : fetch.collection = true
      · exact (hfills ⟨hfetch, howner, hcollection⟩).2.1
      · exact (hlinks ⟨hfetch, howner, hcollection⟩).1
    · intro property hproperty
      refine loads.plain fun hlink _ heq => ?_
      rw [← (hlinks hlink).1, hproperty hlink heq]
      rfl
    · intro number fetch element hfetch howner helement
      refine ih ?_ rfl
      by_cases hcollection : fetch.collection = true
      · exact (hfills ⟨hfetch, howner, hcollection⟩).2.2 element helement
      · exact ((hlinks ⟨hfetch, howner, hcollection⟩).2 element helement).2

end Row

/-! ## Paths -/

def Instance.under (found : Instance) (name : String) : List Instance :=
  found.elements name ++ ((found.properties.lookup name).bind Outcome.entity?).toList

def Instance.along : List String → Instance → List Instance
  | [], found => [found]
  | name :: rest, found => (found.under name).flatMap (along rest)

def Fetch.of? (fetches : List Fetch) (owner : FetchOwner) (property : String) : Option Nat :=
  fetches.findIdx? fun fetch => fetch.owner = owner ∧ fetch.property = property

namespace Row

/-- The owner that a path leads to, where the row brings all that is fetched on
it. -/
def reached? (row : Row) (fetches : List Fetch) : FetchOwner → List String → Option FetchOwner
  | owner, [] => some owner
  | owner, name :: rest =>
    (Fetch.of? fetches owner name).bind fun number =>
      if ((fetches[number]?).bind row.fetchedId?).isSome then
        row.reached? fetches (.fetched number) rest
      else none

variable {returns : List Return} {fetches : List Fetch} {row : Row} {owner : FetchOwner}
  {found : Instance}

/-- Nothing is loaded under a name but what is fetched there. -/
theorem Lands.under (hnodup : Separate fetches)
    (h : row.Lands returns fetches owner found) : ∃ linked : Nat → Option Instance,
    (∀ name, found.under name = ((Fetch.of? fetches owner name).bind linked).toList)
      ∧ ∀ {number fetch}, fetches[number]? = some fetch → fetch.owner = owner →
        (linked number).map Instance.id = row.fetchedId? fetch
          ∧ ∀ element, linked number = some element →
            row.Lands returns fetches (.fetched number) element := by
  obtain ⟨linked, read, entity, id, brought, collection, noOther, loaded, plain, below⟩ := h
  refine ⟨linked, fun name => ?_, fun hfetch howner =>
    ⟨brought hfetch howner, fun _ => below hfetch howner⟩⟩
  have hplain : (∀ {number fetch}, Links fetches owner number fetch → fetch.property = name →
      linked number = none) → (found.properties.lookup name).bind Outcome.entity? = none :=
    fun hnone => plain hnone ▸ (own?_bare read).bind_entity? name
  have helements : (∀ {number fetch}, Fills fetches owner number fetch → fetch.property ≠ name) →
      found.elements name = [] := by
    intro hnone
    rw [Instance.elements, noOther hnone]
    rfl
  rw [Instance.under]
  cases hnumber : Fetch.of? fetches owner name with
  | none =>
    have hnone : ∀ {number : Nat} {fetch : Fetch}, fetches[number]? = some fetch →
        fetch.owner = owner → fetch.property ≠ name := by
      intro number fetch hfetch howner hproperty
      simpa [howner, hproperty] using findIdx?_eq_none_iff.mp hnumber fetch (mem_of_getElem? hfetch)
    rw [helements fun hfills => hnone hfills.numbered hfills.owned,
      hplain fun hlinks hproperty => (hnone hlinks.numbered hlinks.owned hproperty).elim]
    rfl
  | some number =>
    obtain ⟨hlt, htest, -⟩ := findIdx?_eq_some_iff_getElem.mp hnumber
    obtain ⟨howner, rfl⟩ := of_decide_eq_true htest
    have hfetch := List.getElem?_eq_getElem hlt
    have hsame : ∀ {number' : Nat} {fetch' : Fetch}, fetches[number']? = some fetch' →
        fetch'.owner = owner → fetch'.property = fetches[number].property →
        number' = number ∧ fetch' = fetches[number] := by
      intro number' fetch' hfetch' howner' hproperty
      obtain rfl := number_eq hnodup hfetch' hfetch (howner'.trans howner.symm) hproperty
      exact ⟨rfl, some.inj (hfetch'.symm.trans hfetch)⟩
    rw [bind_some]
    by_cases hcollection : fetches[number].collection = true
    · rw [Instance.elements, collection ⟨hfetch, howner, hcollection⟩, hplain, getD_some]
      · exact append_nil _
      · intro number' fetch' hlinks hproperty
        obtain ⟨-, rfl⟩ := hsame hlinks.numbered hlinks.owned hproperty
        exact (hlinks.single hcollection).elim
    · rw [helements]
      · cases hlinked : linked number with
        | none =>
          rw [hplain]
          · rfl
          · intro number' fetch' hlinks hproperty
            obtain ⟨rfl, -⟩ := hsame hlinks.numbered hlinks.owned hproperty
            exact hlinked
        | some element =>
          rw [loaded ⟨hfetch, howner, hcollection⟩ hlinked]
          rfl
      · rintro number' fetch' hfills hproperty
        obtain ⟨-, rfl⟩ := hsame hfills.numbered hfills.owned hproperty
        exact hcollection hfills.collection

/-- A path leads to one entity, or to none where the row does not bring all that
is fetched on it. -/
theorem Lands.along (hnodup : Separate fetches) :
    ∀ {path : List String} {owner : FetchOwner} {found : Instance},
      row.Lands returns fetches owner found →
      Forall₂ (row.Lands returns fetches) (row.reached? fetches owner path).toList
        (found.along path)
  | [], _, _, h => .cons h .nil
  | name :: rest, owner, found, h => by
    obtain ⟨linked, hunder, hlinked⟩ := h.under hnodup
    rw [reached?, Instance.along, hunder name]
    cases hnumber : Fetch.of? fetches owner name with
    | none => exact .nil
    | some number =>
      obtain ⟨hlt, htest, -⟩ := findIdx?_eq_some_iff_getElem.mp hnumber
      have hfetch := List.getElem?_eq_getElem hlt
      obtain ⟨hid, hbelow⟩ := hlinked hfetch (of_decide_eq_true htest).1
      rw [bind_some, bind_some, hfetch, bind_some, ← hid, isSome_map]
      cases hentity : linked number with
      | none => exact .nil
      | some element =>
        rw [toList_some, flatMap_singleton]
        exact (hbelow element hentity).along hnodup

end Row

/-! ## Plans -/

/-- The owner of a fetch is a selected entity, or one that is fetched before. -/
def Fetch.OwnedAt (returns : List Return) (fetch : Fetch) (number : Nat) : Prop :=
  match fetch.owner with
  | .returned value => Return.IsEntity returns value
  | .fetched earlier => earlier < number

/-- What becomes of a value that is read: an entity gets all that the row brings
below it, and other values stay as they are. -/
def Row.LandsAs (returns : List Return) (fetches : List Fetch) (row : Row) (number : Nat)
    (read value : ResultValue) : Prop :=
  match read with
  | .entity _ => ∃ found, value = .entity found
    ∧ row.Lands returns fetches (.returned number) found
    ∧ ∀ path, Forall₂ (row.Lands returns fetches)
      (row.reached? fetches (.returned number) path).toList (found.along path)
  | _ => value = read

namespace Plan

variable {compiler : Compiler} {identifier query : String}
  {substitutions : List (String × String)} {plan : Plan}

theorem ownedAt_of_compile (h : compile compiler identifier query substitutions = .ok plan)
    {number : Nat} {fetch : Fetch} (hfetch : plan.fetches[number]? = some fetch) :
    fetch.OwnedAt plan.returns number := by
  obtain ⟨text, statement, lowered, s, -, -, hrun, rfl⟩ := compile_eq_ok h
  have hnone : lowered.fetches = [] → fetch.OwnedAt lowered.returns number := by
    intro hnil
    rw [show (ofLowered compiler identifier query lowered).fetches = _ from hnil] at hfetch
    cases hfetch
  cases statement with
  | select select =>
    obtain ⟨run, rfl, -⟩ := Lowered.exists_selectRun hrun
    have howned := run.list_resolved.owned
    unfold OwnedAt
    split
    · rename_i value howner
      exact howned.returned fetch (mem_of_getElem? hfetch) value howner
    · rename_i earlier howner
      exact howned.owners hfetch howner
  | update update => exact hnone (Lowered.ofUpdate_run hrun).fetches_eq
  | delete delete => exact hnone (Lowered.ofDelete_run hrun).fetches_eq

/-- The owners of fetches are there before them, and what a row brings for a fetch
stands under its property of its owner. -/
theorem compile_fetches_land (h : compile compiler identifier query substitutions = .ok plan) :
    (∀ (number : Nat) (fetch : Fetch), plan.fetches[number]? = some fetch →
        fetch.OwnedAt plan.returns number)
      ∧ ((plan.fetches.map fun fetch => (fetch.owner, fetch.property)).Nodup →
        ∀ (row : Row) (values : List ResultValue), row.values plan.returns plan.fetches = .ok values →
          values.length = plan.returns.length
          ∧ ∀ (number : Nat) (value : ResultValue), values[number]? = some value →
            ∃ returned read, plan.returns[number]? = some returned
              ∧ row.readReturn returned = .ok read
              ∧ row.LandsAs plan.returns plan.fetches number read value) := by
  refine ⟨fun _ _ hfetch => ownedAt_of_compile h hfetch, fun hnodup row values hvalues => ?_⟩
  have howners : OwnersFirst plan.fetches := by
    intro number owner fetch hfetch howner
    have howned := ownedAt_of_compile h hfetch
    rwa [OwnedAt, howner] at howned
  have hreads : row.Reads (fun number => Unites plan.returns plan.fetches (.returned number))
      plan.returns values :=
    Row.values_reads (UnitesFrom.attachKeeps howners hnodup)
      (fun h => h.unites fun _ _ => Nat.zero_le _) hvalues
  refine ⟨hreads.readsAs.length_eq.symm, fun number value hvalue => ?_⟩
  obtain ⟨returned, hreturned, read, change, hread, rfl⟩ :=
    exists_getElem?_of_forall₂ hreads.readsAs hvalue
  refine ⟨returned, read, hreturned, hread, ?_⟩
  cases read with
  | entity own =>
    have hlands := Row.lands_of_unites hnodup (hreads.related hvalue) rfl
    exact ⟨change own, rfl, hlands, fun path => hlands.along hnodup⟩
  | _ => rfl

/-- A person with an order and an employer. -/
theorem compile_fetches_land_employed : ∃ plan row values,
    compile Sample.compiler "q" Sample.conditionedQuery [] = .ok plan
      ∧ row = Sample.employedRow 5 [.int 5, .text "Acme"]
      ∧ row.values plan.returns plan.fetches = .ok values
      ∧ ∀ number value, values[number]? = some value → ∃ returned read,
        plan.returns[number]? = some returned ∧ row.readReturn returned = .ok read
          ∧ row.LandsAs plan.returns plan.fetches number read value := by
  obtain ⟨plan, hplan, htest⟩ := exists_ok_of_any
    (x := compile Sample.compiler "q" Sample.conditionedQuery [])
    (p := fun plan => decide
      ((plan.fetches.map fun fetch : Fetch => (fetch.owner, fetch.property)).Nodup
        ∧ ((Sample.employedRow 5 [.int 5, .text "Acme"]).values plan.returns
          plan.fetches).toOption.isSome)) (by decide +kernel)
  obtain ⟨hnodup, hsome⟩ := of_decide_eq_true htest
  obtain ⟨values, hvalues⟩ := exists_ok_of_isSome hsome
  exact ⟨plan, _, values, hplan, rfl, hvalues,
    ((compile_fetches_land hplan).2 hnodup _ values hvalues).2⟩

end Plan

end EntityQuery
