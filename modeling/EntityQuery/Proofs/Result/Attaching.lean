import EntityQuery.Proofs.Result.Gathering
import EntityQuery.Proofs.Result.Key

/-!
# The values of one row

A row is read in two rounds: first every selected value and every fetched
entity by itself, then the fetched entities are attached to their owners, from
the last fetch to the first. What holds of each entity as it is read, and is kept
by attaching one entity to another (`Row.AttachKeeps`), holds of the values of the
row, and attaching changes nothing that identifies them (`Row.values_reads`).

An entity is complete when it is attached, since what is fetched for it comes
after it (`Fetch.OwnersFirst`).
-/

namespace EntityQuery

open List Keyed Except

variable {first : Nat} {found : Instance} {returns : List Return} {fetches : List Fetch}

variable {values : List ResultValue} {value : ResultValue} {number' : Nat}

/-! ## Selected values -/

/-- What the values that are read for a return have in common. -/
def Return.keyShape (value : Return) : KeyShape :=
  match value.shape with
  | .columns (.scalar _) => .scalar
  | .columns (.component component fields) =>
    .component component ((fields.map (·.1)).foldl (fun keys key => insertKey key keys) [])
  | .columns (.reference entity _) => .reference entity
  | .entity layout => .entity layout.entity

/-- What a row brings for an owner by itself, if it brings anything. -/
def Row.own? (row : Row) (returns : List Return) (fetches : List Fetch) :
    FetchOwner → Option Instance
  | .returned number =>
    (returns[number]?).bind fun value => (row.readReturn value).toOption.bind Outcome.entity?
  | .fetched number =>
    (fetches[number]?).bind fun fetch => (row.readEntity? fetch.first fetch.layout).toOption.join

/-- What identifies the values of a row, if it can be read. -/
def Row.identity? (row : Row) (returns : List Return) : Option (List Identity) :=
  (returns.mapM row.readReturn).toOption.map (·.map ResultValue.identity)

theorem Outcome.entity?_eq_some {ι : Type} {value : Outcome ι} {found : ι} :
    value.entity? = some found ↔ value = .entity found := by
  cases value <;> simp [entity?]

structure Instance.Bare (found : Instance) : Prop where
  sorted : Sorted found.properties
  unloaded : ∀ entry ∈ found.properties, ∀ linked, entry.2 ≠ .entity linked
  collections : found.collections = []

namespace Keyed

variable {α : Type}

theorem keys_insert (key : String) (value : α) : ∀ entries : List (String × α),
    (insert key value entries).map (·.1) = insertKey key (entries.map (·.1))
  | [] => rfl
  | (other, old) :: rest => by
    unfold insert insertKey
    simp only [map_cons]
    split
    · rename_i h
      rw [map_cons, h]
    · split
      · rfl
      · rw [map_cons, keys_insert key value rest]

theorem keys_foldl_insert : ∀ (entries sorted : List (String × α)),
    (entries.foldl (fun sorted entry => insert entry.1 entry.2 sorted) sorted).map (·.1)
      = (entries.map (·.1)).foldl (fun keys key => insertKey key keys) (sorted.map (·.1))
  | [], _ => rfl
  | (key, value) :: rest, sorted => by
    rw [foldl_cons, keys_foldl_insert rest, keys_insert]
    rfl

/-- The keys of sorted entries do not depend on the values. -/
theorem keys_ofList (entries : List (String × α)) :
    (ofList entries).map (·.1)
      = (entries.map (·.1)).foldl (fun keys key => insertKey key keys) [] :=
  keys_foldl_insert entries []

end Keyed

theorem map_eq_map_of_forall₂ {α β γ : Type} {R : α → β → Prop} {f : α → γ} {g : β → γ}
    (hR : ∀ a b, R a b → f a = g b) {as : List α} {bs : List β} (h : Forall₂ R as bs) :
    as.map f = bs.map g := by
  induction h with
  | nil => rfl
  | cons hhead _ ih => rw [map_cons, map_cons, hR _ _ hhead, ih]

namespace Row

variable {row : Row}

theorem keys_of_readFields {fields : List (String × SemanticType)}
    {entries : List (String × Value)} (h : row.readFields first fields = .ok entries) :
    entries.map (·.1) = (fields.map (·.1)).foldl (fun keys key => insertKey key keys) [] := by
  obtain ⟨values, hvalues, h⟩ := bind_eq_ok.mp h
  obtain rfl := ok.inj h
  have hnames : fields.zipIdx.map (·.1.1) = values.map (·.1) := by
    refine map_eq_map_of_forall₂ (fun _ entry hentry => ?_) (mapM_eq_ok_iff.mp hvalues)
    obtain ⟨value, -, hvalue⟩ := bind_eq_ok.mp hentry
    exact congrArg Prod.fst (ok.inj hvalue)
  have hfields : fields.zipIdx.map (·.1.1) = fields.map (·.1) := by
    conv_rhs => rw [← zipIdx_map_fst 0 fields, map_map]
    rfl
  rw [keys_ofList, ← hnames, hfields]

theorem readColumns_ne_entity {shape : ColumnShape} (h : row.readColumns first shape = .ok value)
    (found : Instance) : value ≠ .entity found := by
  rintro rfl
  cases shape with
  | scalar type =>
    obtain ⟨scalar, -, h⟩ := bind_eq_ok.mp h
    cases h
  | component component fields =>
    obtain ⟨entries, -, h⟩ := bind_eq_ok.mp h
    have hvalue := ok.inj h
    split at hvalue <;> cases hvalue
  | reference entity identifierType =>
    obtain ⟨id, -, h⟩ := bind_eq_ok.mp h
    have hvalue := ok.inj h
    split at hvalue <;> cases hvalue

theorem exists_readColumns_of_readProperties :
    ∀ {properties : List (String × ColumnShape)} {first : Nat} {entries : List (String × ResultValue)},
      row.readProperties first properties = .ok entries → ∀ entry ∈ entries, ∃ first shape,
        (entry.1, shape) ∈ properties ∧ row.readColumns first shape = .ok entry.2
  | [], first, entries, h => by
    obtain rfl := ok.inj h
    exact forall_mem_nil _
  | (name, shape) :: rest, first, entries, h => by
    obtain ⟨value, hvalue, h⟩ := bind_eq_ok.mp h
    obtain ⟨others, hothers, h⟩ := bind_eq_ok.mp h
    obtain rfl := ok.inj h
    refine forall_mem_cons.mpr ⟨⟨first, shape, .head _, hvalue⟩, fun entry hentry => ?_⟩
    obtain ⟨first, shape, hshape, hread⟩ := exists_readColumns_of_readProperties hothers entry hentry
    exact ⟨first, shape, .tail _ hshape, hread⟩

/-- An entity as it is read: nothing is fetched for it yet. -/
theorem readEntity?_cases {layout : EntityLayout} {entry : Option Instance}
    (h : row.readEntity? first layout = .ok entry) :
    (entry = none ∧ row.read first layout.identifierType = .ok .null)
      ∨ ∃ found : Instance, entry = some found ∧ found.entity = layout.entity
        ∧ row.read first layout.identifierType = .ok found.id ∧ found.id.isNull = false
        ∧ found.Bare := by
  obtain ⟨id, hid, h⟩ := bind_eq_ok.mp h
  by_cases hnull : id.isNull = true
  · rw [if_pos hnull] at h
    obtain rfl := ok.inj h
    cases id with
    | null => exact .inl ⟨rfl, hid⟩
    | _ => cases hnull
  · rw [if_neg hnull] at h
    obtain ⟨properties, hproperties, h⟩ := bind_eq_ok.mp h
    obtain rfl := ok.inj h
    refine .inr ⟨_, rfl, rfl, hid, Bool.not_eq_true _ ▸ hnull, sorted_ofList _, ?_, rfl⟩
    intro entry hentry
    obtain ⟨_, _, -, hread⟩ := exists_readColumns_of_readProperties hproperties entry
      (mem_of_mem_ofList entry hentry)
    exact readColumns_ne_entity hread

theorem fetchedId?_of_readEntity? {fetch : Fetch} {entry : Option Instance}
    (h : row.readEntity? fetch.first fetch.layout = .ok entry) :
    entry.map Instance.id = row.fetchedId? fetch := by
  unfold fetchedId?
  rcases readEntity?_cases h with ⟨rfl, hread⟩ | ⟨found, rfl, -, hread, hnull, -⟩
  · rw [hread]
    rfl
  · rw [hread]
    simp [hnull]

theorem readReturn_fits {value : Return} {read : ResultValue} (h : row.readReturn value = .ok read) :
    value.keyShape.Fits read := by
  obtain ⟨shape, first, type, alias?, labels⟩ := value
  unfold readReturn at h
  unfold Return.keyShape
  cases shape with
  | columns shape =>
    cases shape with
    | scalar type =>
      obtain ⟨scalar, -, h⟩ := bind_eq_ok.mp h
      exact ⟨scalar, (ok.inj h).symm⟩
    | component component fields =>
      obtain ⟨entries, hentries, h⟩ := bind_eq_ok.mp h
      obtain rfl := ok.inj h
      by_cases hnull : entries.all (·.2.isNull) = true
      · exact .inl (if_pos hnull)
      · exact .inr ⟨entries, if_neg hnull, keys_of_readFields hentries⟩
    | reference entity identifierType =>
      obtain ⟨id, -, h⟩ := bind_eq_ok.mp h
      obtain rfl := ok.inj h
      by_cases hnull : id.isNull = true
      · exact .inl (if_pos hnull)
      · exact .inr ⟨id, if_neg hnull, fun h => hnull (h ▸ rfl)⟩
  | entity layout =>
    obtain ⟨entry, hentry, h⟩ := bind_eq_ok.mp h
    rcases readEntity?_cases hentry with ⟨rfl, -⟩ | ⟨found, rfl, hentity, -, hnull, -⟩
    · exact .inl (ok.inj h).symm
    · refine .inr ⟨found, (ok.inj h).symm, hentity, fun h => ?_⟩
      rw [h] at hnull
      cases hnull

/-- A selected entity is read like any other. -/
theorem exists_readEntity?_of_readReturn {value : Return}
    (h : row.readReturn value = .ok (.entity found)) :
    ∃ layout, value.shape = .entity layout
      ∧ row.readEntity? value.first layout = .ok (some found) := by
  obtain ⟨shape, first, type, alias?, labels⟩ := value
  unfold readReturn at h
  cases shape with
  | columns shape => exact absurd rfl (readColumns_ne_entity h found)
  | entity layout =>
    obtain ⟨entry, hentry, h⟩ := bind_eq_ok.mp h
    cases entry with
    | none => cases h
    | some other =>
      obtain rfl := Outcome.entity.inj (ok.inj h)
      exact ⟨layout, rfl, hentry⟩

theorem exists_readEntity?_of_own? {owner : FetchOwner}
    (h : row.own? returns fetches owner = some found) :
    ∃ first layout, ((∃ value ∈ returns, value.shape = .entity layout)
        ∨ ∃ fetch ∈ fetches, fetch.layout = layout)
      ∧ row.readEntity? first layout = .ok (some found) := by
  cases owner with
  | returned number =>
    obtain ⟨value, hvalue, h⟩ := Option.bind_eq_some_iff.mp h
    obtain ⟨read, hread, h⟩ := Option.bind_eq_some_iff.mp h
    obtain rfl := Outcome.entity?_eq_some.mp h
    obtain ⟨layout, hshape, h⟩ := exists_readEntity?_of_readReturn (toOption_eq_some.mp hread)
    exact ⟨_, layout, .inl ⟨value, mem_of_getElem? hvalue, hshape⟩, h⟩
  | fetched number =>
    obtain ⟨fetch, hfetch, h⟩ := Option.bind_eq_some_iff.mp h
    exact ⟨_, _, .inr ⟨fetch, mem_of_getElem? hfetch, rfl⟩,
      toOption_eq_some.mp (Option.join_eq_some_iff.mp h)⟩

theorem own?_bare {owner : FetchOwner} (h : row.own? returns fetches owner = some found) :
    found.Bare := by
  obtain ⟨first, layout, -, h⟩ := exists_readEntity?_of_own? h
  rcases readEntity?_cases h with ⟨hnone, -⟩ | ⟨other, hother, -, -, -, hbare⟩
  · cases hnone
  · obtain rfl := Option.some.inj hother
    exact hbare

end Row

/-! ## Attaching one entity -/

/-- The collections of an owner hold what these rows bring, as far as the fetches
from a number on go, and there are no others. -/
structure CollectsOnly (R : Nat → List Row → Instance → Prop) (fetches : List Fetch) (start : Nat)
    (owner : FetchOwner) (rows : List Row) (found : Instance) : Prop
    extends Collects R fetches start owner rows found where
  absent : ∀ {property}, (∀ {number fetch}, Fetch.Fills fetches owner number fetch →
    start ≤ number → fetch.property ≠ property) → found.collections.lookup property = none

namespace CollectsOnly

variable {R : Nat → List Row → Instance → Prop} {fetches : List Fetch} {start : Nat}
  {owner : FetchOwner} {rows : List Row} {found : Instance} {fetch : Fetch}

theorem of_collections_nil (h : found.collections = []) :
    CollectsOnly R fetches fetches.length owner rows found := by
  refine ⟨⟨h ▸ sorted_nil, ?_⟩, fun _ => by rw [h]; rfl⟩
  intro number fetch hfills hle
  rw [← Nat.not_lt] at hle
  exact (hle (List.getElem?_eq_some_iff.mp hfills.numbered).1).elim

theorem congr {found' : Instance} (h : CollectsOnly R fetches start owner rows found)
    (hsame : found'.collections = found.collections) :
    CollectsOnly R fetches start owner rows found' := by
  refine ⟨⟨hsame ▸ h.sorted, ?_⟩, ?_⟩
  · rw [hsame]
    exact h.present
  · rw [hsame]
    exact h.absent

/-- A fetch that fills no collection of the owner leaves things as they are. -/
theorem skip (h : CollectsOnly R fetches (start + 1) owner rows found)
    (hno : ∀ {fetch}, ¬ Fetch.Fills fetches owner start fetch) :
    CollectsOnly R fetches start owner rows found := by
  have hlater : ∀ {number fetch}, Fetch.Fills fetches owner number fetch → start ≤ number →
      start + 1 ≤ number := by
    intro number fetch hfills hle
    rcases Nat.eq_or_lt_of_le hle with rfl | hlt
    · exact (hno hfills).elim
    · exact hlt
  refine ⟨⟨h.sorted, fun hfills hle => h.present hfills (hlater hfills hle)⟩, ?_⟩
  intro property hproperty
  exact h.absent fun hfills hle => hproperty hfills (Nat.le_of_succ_le hle)

end CollectsOnly

namespace Fetch

variable {fetches : List Fetch} {row : Row} {number : Nat} {fetch : Fetch}
  {entry : Option Instance} {owner : Instance}

theorem attach_id (fetch : Fetch) (entry : Option Instance) (owner : Instance) :
    (fetch.attach entry owner).id = owner.id := by
  unfold attach
  split
  · rfl
  · cases entry <;> rfl

theorem attach_entity (fetch : Fetch) (entry : Option Instance) (owner : Instance) :
    (fetch.attach entry owner).entity = owner.entity := by
  unfold attach
  split
  · rfl
  · cases entry <;> rfl

theorem attach_eq_withCollection (h : fetch.collection) :
    fetch.attach entry owner
      = owner.withCollection fetch.property (owner.elements fetch.property ++ entry.toList) := by
  unfold attach
  rw [if_pos h]

theorem attach_none (h : ¬ fetch.collection = true) : fetch.attach none owner = owner := by
  unfold attach
  rw [if_neg h]

theorem attach_some (h : ¬ fetch.collection = true) (found : Instance) :
    fetch.attach (some found) owner = owner.withProperty fetch.property (.entity found) := by
  unfold attach
  rw [if_neg h]

theorem collections_attach_of_not (h : ¬ fetch.collection = true) :
    (fetch.attach entry owner).collections = owner.collections := by
  cases entry with
  | none => rw [attach_none h]
  | some found =>
    rw [attach_some h]
    rfl

/-- No property of an owner is fetched twice. -/
abbrev Separate (fetches : List Fetch) : Prop :=
  (fetches.map fun fetch => (fetch.owner, fetch.property)).Nodup

/-- Two fetches of one property are the same. -/
theorem number_eq {fetch' : Fetch} (hnodup : Separate fetches) (h : fetches[number]? = some fetch)
    (h' : fetches[number']? = some fetch') (howner : fetch.owner = fetch'.owner)
    (hproperty : fetch.property = fetch'.property) :
    number = number' := by
  refine (List.getElem?_inj ?_ hnodup).mp ?_
  · rw [length_map]
    exact (List.getElem?_eq_some_iff.mp h).1
  · rw [List.getElem?_map, List.getElem?_map, h, h', Option.map_some, Option.map_some, howner,
      hproperty]

/-- What is fetched by a fetch is attached to its owner. -/
theorem attach_collects {R : Nat → List Row → Instance → Prop}
    (hnodup : Separate fetches) (hfetch : fetches[number]? = some fetch)
    (hid : entry.map Instance.id = row.fetchedId? fetch)
    (hentry : ∀ found, entry = some found → R number [row] found)
    (h : CollectsOnly R fetches (number + 1) fetch.owner [row] owner) :
    CollectsOnly R fetches number fetch.owner [row] (fetch.attach entry owner) := by
  by_cases hcollection : fetch.collection = true
  · -- The collection is not there yet, so that what is fetched is all of it.
    have hlater : ∀ {number' fetch'}, Fills fetches fetch.owner number' fetch' →
        number + 1 ≤ number' → fetch'.property ≠ fetch.property := by
      intro number' fetch' hfills hle hproperty
      have := number_eq hnodup hfills.numbered hfetch hfills.owned hproperty
      omega
    have hattach : (fetch.attach entry owner).collections
        = insert fetch.property entry.toList owner.collections := by
      rw [attach_eq_withCollection hcollection, Instance.elements, h.absent hlater]
      rfl
    refine ⟨⟨hattach ▸ h.sorted.insert .., ?_⟩, ?_⟩
    · intro number' fetch' hfills hle
      rw [hattach, lookup_insert]
      rcases Nat.eq_or_lt_of_le hle with rfl | hlt
      · obtain rfl := Option.some.inj (hfetch.symm.trans hfills.numbered)
        refine ⟨entry.toList, if_pos rfl, ?_, ?_⟩
        · cases entry with
          | none => simp [← hid]
          | some found => simp [← hid, eraseDups_cons]
        · intro element helement
          obtain rfl := Option.mem_toList.mp helement
          rw [filter_cons_of_pos (by rw [← hid]; simp), filter_nil]
          exact hentry element rfl
      · rw [if_neg (hlater hfills hlt)]
        exact h.present hfills hlt
    · intro property hproperty
      rw [hattach, lookup_insert,
        if_neg (hproperty ⟨hfetch, rfl, hcollection⟩ (Nat.le_refl _)).symm]
      exact h.absent fun hfills hle => hproperty hfills (Nat.le_of_succ_le hle)
  · refine (h.congr (collections_attach_of_not hcollection)).skip ?_
    intro fetch' hfills
    obtain rfl := Option.some.inj (hfetch.symm.trans hfills.numbered)
    exact hcollection hfills.collection

end Fetch

/-! ## Attaching all of them -/

/-- A property of the entities of a row, once the fetches from a number on are
attached, that can be followed from the last fetch to the first. -/
structure Row.AttachKeeps (P : Nat → FetchOwner → Instance → Prop) (returns : List Return)
    (fetches : List Fetch) (row : Row) : Prop where
  /-- It holds when nothing is attached yet. -/
  read : ∀ {owner found}, row.own? returns fetches owner = some found →
    P fetches.length owner found
  /-- A fetch concerns no entity but its owner. -/
  skip : ∀ {number fetch owner found}, fetches[number]? = some fetch → owner ≠ fetch.owner →
    P (number + 1) owner found → P number owner found
  attach : ∀ {number fetch entry owner}, fetches[number]? = some fetch →
    entry.map Instance.id = row.fetchedId? fetch →
    (∀ found, entry = some found → P (number + 1) (.fetched number) found) →
    P (number + 1) fetch.owner owner → P number fetch.owner (fetch.attach entry owner)

/-- Values that are read, with changes to the entities among them. -/
def Row.ReadsAs (returns : List Return) (row : Row) (values : List ResultValue) : Prop :=
  Forall₂ (fun returned value => ∃ read change, row.readReturn returned = .ok read
    ∧ value = Fetch.onEntity change read) returns values

/-- What has been loaded from a row once the fetches from a number on are
attached. -/
structure AttachedFrom (P : Nat → FetchOwner → Instance → Prop) (returns : List Return)
    (fetches : List Fetch) (row : Row) (start : Nat) (loaded : Fetch.Loaded) : Prop where
  identities : row.identity? returns = some (loaded.values.map ResultValue.identity)
  fits : Forall₂ KeyShape.Fits (returns.map Return.keyShape) loaded.values
  readsAs : row.ReadsAs returns loaded.values
  ids : loaded.fetched.map (Option.map Instance.id) = fetches.map row.fetchedId?
  returned : ∀ {number found}, loaded.values[number]? = some (.entity found) →
    P start (.returned number) found
  fetched : ∀ {number found}, loaded.fetched[number]? = some (some found) →
    P start (.fetched number) found

section OnEntity

variable {change : Instance → Instance}

theorem identity_onEntity (hid : ∀ found, (change found).id = found.id)
    (hentity : ∀ found, (change found).entity = found.entity) (value : ResultValue) :
    (Fetch.onEntity change value).identity = value.identity := by
  cases value with
  | entity found =>
    show Identity.entity (change found).entity (change found).id.mark = _
    rw [hid, hentity]
    rfl
  | _ => rfl

theorem fits_onEntity (hid : ∀ found, (change found).id = found.id)
    (hentity : ∀ found, (change found).entity = found.entity) {shape : KeyShape}
    (h : shape.Fits value) : shape.Fits (Fetch.onEntity change value) := by
  cases shape with
  | scalar =>
    obtain ⟨scalar, rfl⟩ := h
    exact ⟨scalar, rfl⟩
  | component name fields =>
    rcases h with rfl | ⟨entries, rfl, hentries⟩
    · exact .inl rfl
    · exact .inr ⟨entries, rfl, hentries⟩
  | reference name =>
    rcases h with rfl | ⟨id, rfl, hnull⟩
    · exact .inl rfl
    · exact .inr ⟨id, rfl, hnull⟩
  | entity name =>
    rcases h with rfl | ⟨found, rfl, hname, hnull⟩
    · exact .inl rfl
    · exact .inr ⟨change found, rfl, (hentity found).trans hname, hid found ▸ hnull⟩

end OnEntity

section Modify

variable {α β : Type} {f : α → α}

theorem map_modify_eq {g : α → β} (h : ∀ a, g (f a) = g a) (as : List α) (i : Nat) :
    (as.modify i f).map g = as.map g := by
  refine ext_getElem? fun j => ?_
  rw [getElem?_map, getElem?_modify, getElem?_map]
  cases as[j]? with
  | none => rfl
  | some a =>
    by_cases hij : i = j
    · simp [hij, h]
    · simp [hij]

theorem forall₂_modify {R : β → α → Prop} (h : ∀ b a, R b a → R b (f a)) :
    ∀ {bs : List β} {as : List α} (i : Nat), Forall₂ R bs as →
      Forall₂ R bs (as.modify i f)
  | _, _, _, .nil => by simp
  | _, _, 0, .cons hhead htail => .cons (h _ _ hhead) htail
  | _, _, i + 1, .cons hhead htail => by
    rw [modify_succ_cons]
    exact .cons hhead (forall₂_modify h i htail)

end Modify

namespace AttachedFrom

variable {P : Nat → FetchOwner → Instance → Prop} {returns : List Return} {fetches : List Fetch}
  {row : Row} {number : Nat} {fetch : Fetch} {loaded : Fetch.Loaded}

theorem of_read {fetched : List (Option Instance)} (hkeeps : row.AttachKeeps P returns fetches)
    (hvalues : returns.mapM row.readReturn = .ok values)
    (hfetched : (fetches.mapM fun fetch => row.readEntity? fetch.first fetch.layout) = .ok fetched)
    :
    AttachedFrom P returns fetches row fetches.length ⟨values, fetched⟩ := by
  have hreturns := mapM_eq_ok_iff.mp hvalues
  have hfetches := mapM_eq_ok_iff.mp hfetched
  constructor
  · rw [Row.identity?, hvalues]
    rfl
  · rw [forall₂_map_left_iff]
    exact hreturns.imp fun _ _ h => Row.readReturn_fits h
  · exact hreturns.imp fun _ value h => ⟨value, id, h, by cases value <;> rfl⟩
  · refine (map_eq_map_of_forall₂ (fun fetch entry hread => ?_) hfetches).symm
    exact (Row.fetchedId?_of_readEntity? hread).symm
  · intro number found hfound
    obtain ⟨value, hvalue, hread⟩ := exists_getElem?_of_forall₂ hreturns hfound
    refine hkeeps.read ?_
    simp [Row.own?, hvalue, hread, Except.toOption, Outcome.entity?]
  · intro number found hfound
    obtain ⟨fetch, hfetch, hread⟩ := exists_getElem?_of_forall₂ hfetches hfound
    refine hkeeps.read ?_
    simp [Row.own?, hfetch, hread, Except.toOption]

theorem id_eq (h : AttachedFrom P returns fetches row number loaded)
    (hfetch : fetches[number']? = some fetch) :
    ((loaded.fetched[number']?).join).map Instance.id = row.fetchedId? fetch := by
  have hid := congrArg (·[number']?) h.ids
  simp only [getElem?_map, hfetch, Option.map_some] at hid
  obtain ⟨entry, hentry, hid⟩ := Option.map_eq_some_iff.mp hid
  rw [hentry]
  exact hid

/-- One step: a fetch is attached to its owner. -/
theorem step (hkeeps : row.AttachKeeps P returns fetches) (hfetch : fetches[number]? = some fetch)
    (h : AttachedFrom P returns fetches row (number + 1) loaded) :
    AttachedFrom P returns fetches row number (fetch.attachTo number loaded) := by
  have hentry : ∀ found, (loaded.fetched[number]?).join = some found →
      P (number + 1) (.fetched number) found :=
    fun found hfound => h.fetched (Option.join_eq_some_iff.mp hfound)
  have hattach : ∀ {owner}, P (number + 1) fetch.owner owner →
      P number fetch.owner (fetch.attach (loaded.fetched[number]?).join owner) :=
    hkeeps.attach hfetch (h.id_eq hfetch) hentry
  have hid := fetch.attach_id (loaded.fetched[number]?).join
  have hentity := fetch.attach_entity (loaded.fetched[number]?).join
  unfold Fetch.attachTo
  cases howner : fetch.owner with
  | fetched owner =>
    rw [howner] at hattach
    refine ⟨h.identities, h.fits, h.readsAs, ?_, ?_, ?_⟩
    · rw [map_modify_eq, h.ids]
      intro entry
      cases entry with
      | none => rfl
      | some found => exact congrArg some (hid found)
    · intro number' found hfound
      exact hkeeps.skip hfetch (by rw [howner]; exact (nomatch ·)) (h.returned hfound)
    · intro number' found hfound
      rw [getElem?_modify] at hfound
      by_cases hnumber : owner = number'
      · subst hnumber
        simp only [if_pos] at hfound
        obtain ⟨entry, hentry', hfound⟩ := Option.map_eq_some_iff.mp hfound
        obtain ⟨before, rfl, rfl⟩ := Option.map_eq_some_iff.mp hfound
        exact hattach (h.fetched hentry')
      · refine hkeeps.skip hfetch ?_ (h.fetched ?_)
        · rw [howner]
          exact fun heq => hnumber (FetchOwner.fetched.inj heq).symm
        · simpa [hnumber] using hfound
  | returned owner =>
    rw [howner] at hattach
    refine ⟨?_, forall₂_modify (fun _ _ => fits_onEntity hid hentity) _ h.fits,
      forall₂_modify ?_ _ h.readsAs, h.ids, ?_, ?_⟩
    · rw [map_modify_eq (identity_onEntity hid hentity)]
      exact h.identities
    · rintro returned _ ⟨read, change, hread, rfl⟩
      exact ⟨read, fetch.attach _ ∘ change, hread, by cases read <;> rfl⟩
    · intro number' found hfound
      rw [getElem?_modify] at hfound
      by_cases hnumber : owner = number'
      · subst hnumber
        simp only [if_pos] at hfound
        obtain ⟨value, hvalue, hfound⟩ := Option.map_eq_some_iff.mp hfound
        cases value with
        | entity before =>
          obtain rfl := Outcome.entity.inj hfound
          exact hattach (h.returned hvalue)
        | _ => cases hfound
      · refine hkeeps.skip hfetch ?_ (h.returned ?_)
        · rw [howner]
          exact fun heq => hnumber (FetchOwner.returned.inj heq).symm
        · simpa [hnumber] using hfound
    · intro number' found hfound
      exact hkeeps.skip hfetch (by rw [howner]; exact (nomatch ·)) (h.fetched hfound)

/-- All fetches from a number on are attached, the last one first. -/
theorem foldr (hkeeps : row.AttachKeeps P returns fetches)
    (h : AttachedFrom P returns fetches row fetches.length loaded) :
    ∀ {rest : List Fetch} {start : Nat}, start ≤ fetches.length → fetches.drop start = rest →
      AttachedFrom P returns fetches row start ((rest.zipIdx start).foldr
        (fun (fetch, number) loaded => fetch.attachTo number loaded) loaded)
  | [], start, hle, hrest => by
    have hlength := congrArg List.length hrest
    rw [length_drop, length_nil] at hlength
    obtain rfl : start = fetches.length := by omega
    exact h
  | fetch :: rest, start, hle, hrest => by
    have hfetch : fetches[start]? = some fetch := by
      rw [← List.head?_drop, hrest]
      rfl
    have hlt := (List.getElem?_eq_some_iff.mp hfetch).1
    have hdrop : fetches.drop (start + 1) = rest := by
      rw [← drop_drop, hrest]
      rfl
    exact (foldr hkeeps h hlt hdrop).step hkeeps hfetch

end AttachedFrom

/-- The values that are read from a row, with a relation between the row and each
entity that is loaded for a return. -/
structure Row.Reads (G : Nat → List Row → Instance → Prop) (returns : List Return) (row : Row)
    (values : List ResultValue) : Prop where
  identities : row.identity? returns = some (values.map ResultValue.identity)
  fits : Forall₂ KeyShape.Fits (returns.map Return.keyShape) values
  readsAs : row.ReadsAs returns values
  related : ∀ {number found}, values[number]? = some (.entity found) → G number [row] found

/-- What attaching keeps holds of the values of a row. -/
theorem Row.values_reads {P : Nat → FetchOwner → Instance → Prop}
    {G : Nat → List Row → Instance → Prop} {row : Row} (hkeeps : row.AttachKeeps P returns fetches)
    (hreturned : ∀ {number found}, P 0 (.returned number) found → G number [row] found)
    (h : row.values returns fetches = .ok values) : row.Reads G returns values := by
  obtain ⟨read, hread, h⟩ := bind_eq_ok.mp h
  obtain ⟨fetched, hfetched, h⟩ := bind_eq_ok.mp h
  obtain rfl := ok.inj h
  have hattached := (AttachedFrom.of_read hkeeps hread hfetched).foldr hkeeps (Nat.zero_le _)
    drop_zero
  exact ⟨hattached.identities, hattached.fits, hattached.readsAs,
    fun hfound => hreturned (hattached.returned hfound)⟩

end EntityQuery
