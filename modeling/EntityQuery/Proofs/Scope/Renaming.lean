import EntityQuery.Proofs.Closed
import EntityQuery.Proofs.Query.Renaming
import EntityQuery.Proofs.Scope.Path

/-!
# Scopes with other names for the aliases

The names of aliases are in one place of a scope only, the list that leads from
them to tables. So a step of the compilation that is run for a renamed query, in a
scope with the renamed list, does what the same step does for the query as it
was: it fails, or it gives the same value and leaves the scope with the renamed
list behind. `Scoped.Agrees` is the judgement for this, with a rule for each way
of putting steps together.

The one place where a name decides is the start of a path. A name that is an alias
of the scope leads to the same table before and after (`lookup_renamed`). Any other
name has to be a property of the only root. An alias that is not declared yet is
none, neither by its old name nor by its new one, so that both paths fail
(`resolve_agrees`). A join path of one name never starts at an alias; there it is
the join that fails (`joinOwner_agrees`, `addJoin_agrees`).

The judgement also says which names of entities a failing step may report as
unknown. In a scope of tables of the model the lookups of joins and paths are all
of association targets, so that they report none but these.
-/

namespace EntityQuery

open List Query Metamodel

variable {name : String} {alias? : Option String} {owner : Element} {path : List String}

def Scope.renamed (rename : String → String) (scope : Scope) : Scope :=
  { scope with aliases := scope.aliases.map fun entry => (rename entry.1, entry.2) }

def Context.withQuery (context : Context) (query : String) : Context :=
  { context with query }

/-- An entity of this name is in the model, or else the name may be blamed. -/
def Metamodel.Vouches (model : Metamodel) (blamed : String → Prop) (name : String) : Prop :=
  model.entity? name = none → blamed name

/-- New names for the aliases that a query declares, all different, and the names that may be
blamed when an entity is unknown. The model vouches for its entities and for the targets of their
associations. -/
structure AliasRenaming where
  context : Context
  /-- The text with the new names. -/
  query : String
  declared : List String
  rename : String → String
  blamed : String → Prop
  apart : ∀ name ∈ declared, ∀ other ∈ declared, rename name = rename other → name = other
  own : ∀ entity ∈ context.model.entities, context.model.Vouches blamed entity.name
  targets : ∀ entity ∈ context.model.entities, ∀ property ∈ entity.properties, ∀ association,
    property.kind = .association association →
      context.model.Vouches blamed association.target

namespace AliasRenaming

variable (naming : AliasRenaming)

abbrev model : Metamodel :=
  naming.context.model

/-- What the query with the new names is compiled against. -/
abbrev context' : Context :=
  naming.context.withQuery naming.query

abbrev Vouches (name : String) : Prop :=
  naming.model.Vouches naming.blamed name

/-- The table is one of an entity of the model. -/
abbrev Knows (element : Element) : Prop :=
  element.entity ∈ naming.model.entities

/-- At the start of a path the name is not mistaken for another alias. It stays as it
is, or else no entity has a property of the old name or of the new one. -/
structure Safe (name : String) : Prop where
  apart : ∀ other ∈ naming.declared, naming.rename name = naming.rename other → name = other
  kept : naming.rename name = name ∨ ∀ entity ∈ naming.model.entities,
    entity.hasProperty name = false ∧ entity.hasProperty (naming.rename name) = false

/-- The start of the path is safe. -/
def Covers (path : List String) : Prop :=
  ∀ first ∈ path.head?, naming.Safe first

/-- All aliases of the scope are declared, and its tables are those of entities of the
model. -/
structure Fits (scope : Scope) : Prop where
  elements : ∀ element ∈ scope.elements, naming.Knows element
  aliases : ∀ entry ∈ scope.aliases, entry.1 ∈ naming.declared ∧ naming.Knows entry.2
  implicit : ∀ entry ∈ scope.implicit, naming.Knows entry.2

/-- The meaning of a path that ends in this name. The entities that it leads to are in the model,
or the model vouches for them, and a column is one of that name. -/
def Mapped (last : Option String) : Meaning → Prop
  | .column _ _ type => ∃ name ∈ last, (name, type) ∈ naming.model.columns
  | .component _ _ fields => ∀ field ∈ fields, (field.name, field.type) ∈ naming.model.columns
  | .entity element => naming.Knows element
  | .reference owner _ target _ => naming.Knows owner ∧ naming.Vouches target
  | .collection _ association => naming.Vouches association.target

variable {naming}

theorem Fits.empty (bulk : Bool) : naming.Fits { bulk := bulk } :=
  ⟨forall_mem_nil _, forall_mem_nil _, forall_mem_nil _⟩

/-- The aliases lead to the same tables under their new names. -/
theorem Fits.lookup_renamed {s : Scope} (h : naming.Fits s)
    (hapart : ∀ other ∈ naming.declared, naming.rename name = naming.rename other → name = other) :
    (s.renamed naming.rename).aliases.lookup (naming.rename name)
      = s.aliases.lookup name := by
  have hall : ∀ entries : List (String × Element), (∀ entry ∈ entries, entry.1 ∈ naming.declared) →
      (entries.map fun entry => (naming.rename entry.1, entry.2)).lookup (naming.rename name)
        = entries.lookup name := by
    intro entries hdeclared
    induction entries with
    | nil => rfl
    | cons entry rest ih =>
      obtain ⟨hentry, hrest⟩ := forall_mem_cons.mp hdeclared
      rw [map_cons, lookup_cons, lookup_cons, ih hrest]
      have hsame : (naming.rename name == naming.rename entry.1) = (name == entry.1) := by
        rw [Bool.eq_iff_iff, beq_iff_eq, beq_iff_eq]
        exact ⟨hapart entry.1 hentry, congrArg naming.rename⟩
      rw [hsame]
  exact hall s.aliases fun entry hentry => (h.aliases entry hentry).1

/-- Two outcomes that differ in the names of aliases alone: both are failures, and if an entity
is unknown it is to blame, or the values are related and so are the scopes. -/
inductive Same (naming : AliasRenaming) {α β : Type} (R : α → β → Prop) :
    Except Error (α × Scope) → Except Error (β × Scope) → Prop where
  | failed {error error' : Error}
      (hname : ∀ name, error = .mapping (.unknownEntity name) → naming.blamed name) :
      Same naming R (.error error) (.error error')
  | done {a : α} {b : β} {s : Scope} (hvalue : R a b) (hfits : naming.Fits s) :
      Same naming R (.ok (a, s)) (.ok (b, s.renamed naming.rename))

end AliasRenaming

/-- In a scope with the new names the second does what the first does in the scope with
the old ones. -/
def Scoped.Agrees (naming : AliasRenaming) {α β : Type} (R : α → β → Prop) (x : Scoped α)
    (y : Scoped β) : Prop :=
  ∀ ⦃s : Scope⦄, naming.Fits s →
    naming.Same R (x.run s) (y.run (s.renamed naming.rename))

/-- The same value, of which something is known. -/
abbrev Scoped.Common {α : Type} (P : α → Prop) (a b : α) : Prop :=
  a = b ∧ P a

namespace Scoped.Agrees

variable {α β γ δ : Type} {naming : AliasRenaming} {R : α → β → Prop} {S : γ → δ → Prop}
  {P : α → Prop}

variable {f : α → Scoped γ} {x y : Scoped α} {g : α → Scoped δ}

theorem pure {a : α} {b : β} (h : R a b) : Agrees naming R (Pure.pure a) (Pure.pure b) :=
  fun _ hfits => .done h hfits

theorem bind {x : Scoped α} {y : Scoped β} {g : β → Scoped δ} (hx : Agrees naming R x y)
    (hf : ∀ a b, R a b → Agrees naming S (f a) (g b)) :
    Agrees naming S (x >>= f) (y >>= g) := by
  intro s hfits
  rw [StateT.run_bind, StateT.run_bind]
  have hfirst := hx hfits
  generalize x.run s = first at hfirst
  generalize y.run (s.renamed naming.rename) = first' at hfirst
  cases hfirst with
  | failed hname => exact .failed hname
  | done hvalue hfits' => exact hf _ _ hvalue hfits'

/-- A sequence whose first step gives the same value. -/
theorem andThen (hx : Agrees naming Eq x y) (hf : ∀ a, Agrees naming S (f a) (g a)) :
    Agrees naming S (x >>= f) (y >>= g) := by
  refine hx.bind ?_
  rintro a _ rfl
  exact hf a

/-- A sequence in which something is known of the value of the first step. -/
theorem knowing (hx : Agrees naming (Common P) x y) (hf : ∀ a, P a → Agrees naming S (f a) (g a)) :
    Agrees naming S (x >>= f) (y >>= g) := by
  refine hx.bind ?_
  rintro a _ ⟨rfl, ha⟩
  exact hf a ha

theorem mono {R' : α → β → Prop} {x : Scoped α} {y : Scoped β} (h : Agrees naming R x y)
    (himp : ∀ a b, R a b → R' a b) : Agrees naming R' x y := by
  intro s hfits
  have hsame := h hfits
  generalize x.run s = found at hsame
  generalize y.run (s.renamed naming.rename) = found' at hsame
  cases hsame with
  | failed hname => exact .failed hname
  | done hvalue hfits' => exact .done (himp _ _ hvalue) hfits'

theorem fail {fault fault' : QueryFault} :
    Agrees naming R (Scoped.fail fault) (Scoped.fail fault') :=
  fun _ _ => .failed fun _ h => nomatch h

theorem misuse {context context' : Context} {fault fault' : Misuse} :
    Agrees naming R (Scoped.misuse context fault) (Scoped.misuse context' fault') :=
  fail

theorem ofMapping {result : Except MappingFault α} (hok : ∀ a, result = .ok a → P a)
    (herror : ∀ name, result = .error (.unknownEntity name) → naming.blamed name) :
    Agrees naming (Common P) (Scoped.ofMapping result) (Scoped.ofMapping result) := by
  intro s hfits
  cases result with
  | ok a => exact .done ⟨rfl, hok a rfl⟩ hfits
  | error fault =>
    refine .failed fun name h => herror name ?_
    rw [Error.mapping.inj h]

theorem entity (h : naming.Vouches name) :
    Agrees naming (Common (· ∈ naming.model.entities)) (Scoped.ofMapping (naming.model.entity name))
      (Scoped.ofMapping (naming.model.entity name)) := by
  refine .ofMapping (fun _ => mem_entities) fun missing hmissing => ?_
  obtain ⟨rfl, hnone⟩ := entity_eq_error hmissing
  exact h hnone

theorem map (f : α → γ) (h : Agrees naming Eq x y) :
    Agrees naming Eq (f <$> x) (f <$> y) := by
  rw [← bind_pure_comp, ← bind_pure_comp]
  exact h.andThen fun a => .pure rfl

theorem read {f : Scope → Scoped γ} {g : Scope → Scoped δ}
    (hf : ∀ s, naming.Fits s → Agrees naming S (f s) (g (s.renamed naming.rename))) :
    Agrees naming S (get >>= f) (get >>= g) :=
  bind (R := fun s s' => naming.Fits s ∧ s' = s.renamed naming.rename)
    (fun _ hfits => .done ⟨hfits, rfl⟩ hfits) fun s _ h => h.2 ▸ hf s h.1

theorem write {s : Scope} (hfits : naming.Fits s) :
    Agrees naming Eq (set s) (set (s.renamed naming.rename)) :=
  fun _ _ => .done rfl hfits

/-- A change of the scope that has nothing to do with aliases. -/
theorem change {f : Scope → Scope}
    (hcomm : ∀ s, f (s.renamed naming.rename) = (f s).renamed naming.rename)
    (hkept : ∀ s, naming.Fits s → naming.Fits (f s)) : Agrees naming Eq (modify f) (modify f) := by
  intro s hfits
  rw [StateT.run_modify, StateT.run_modify, hcomm]
  exact .done rfl (hkept s hfits)

theorem addTable (table : String) :
    Agrees naming Eq (modify (·.addTable table)) (modify (·.addTable table)) :=
  .change (fun _ => rfl) fun _ hfits => ⟨hfits.elements, hfits.aliases, hfits.implicit⟩

theorem nextAlias (stem : String) :
    Agrees naming Eq (Scope.nextAlias stem) (Scope.nextAlias stem) :=
  fun s hfits => .done (s := s.countAlias) rfl ⟨hfits.elements, hfits.aliases, hfits.implicit⟩

/-! ## Lists -/

theorem mapM {f g : γ → Scoped α} :
    ∀ {items : List γ}, (∀ item ∈ items, Agrees naming Eq (f item) (g item)) →
      Agrees naming Eq (items.mapM f) (items.mapM g)
  | [], _ => .pure rfl
  | item :: rest, h => by
    obtain ⟨hitem, hrest⟩ := forall_mem_cons.mp h
    rw [mapM_cons, mapM_cons]
    exact hitem.andThen fun first => (mapM hrest).andThen fun others => .pure rfl

/-- A fold whose rounds keep what is known of the value. -/
theorem foldlM {f g : α → γ → Scoped α} :
    ∀ {items : List γ},
      (∀ item ∈ items, ∀ a, P a → Agrees naming (Common P) (f a item) (g a item)) →
      ∀ {a : α}, P a → Agrees naming (Common P) (items.foldlM f a) (items.foldlM g a)
  | [], _, _, ha => .pure ⟨rfl, ha⟩
  | item :: rest, h, a, ha => by
    obtain ⟨hitem, hrest⟩ := forall_mem_cons.mp h
    rw [foldlM_cons, foldlM_cons]
    exact (hitem a ha).knowing fun _ => foldlM hrest

end Scoped.Agrees

/-! ## Tables that come in -/

namespace Scope

open Scoped

variable {naming : AliasRenaming}

/-- The table comes in under the new name of its alias. -/
theorem push_agrees {entry : ScopeEntry} (hentry : naming.Knows entry.element)
    (hdeclared : ∀ name ∈ alias?, name ∈ naming.declared) :
    Agrees naming (Common naming.Knows) (push naming.context entry alias?)
      (push naming.context' entry (alias?.map naming.rename)) := by
  refine .read fun s hfits => ?_
  have helements : ∀ element ∈ (s.entries ++ [entry]).map (·.element), naming.Knows element := by
    rw [map_append]
    exact forall_mem_append.mpr ⟨hfits.elements, forall_mem_singleton.mpr hentry⟩
  cases alias? with
  | none => exact .andThen (.write (s := { s with entries := s.entries ++ [entry] })
      ⟨helements, hfits.aliases, hfits.implicit⟩) fun _ => .pure ⟨rfl, hentry⟩
  | some name =>
    have hname := hdeclared name rfl
    have hlookup := hfits.lookup_renamed (naming.apart name hname)
    simp only [Option.map_some, hlookup]
    split
    · exact .andThen .misuse fun _ => .pure ⟨rfl, hentry⟩
    · refine .andThen ?_ fun _ => .pure ⟨rfl, hentry⟩
      have haliases : ∀ known ∈ s.aliases ++ [(name, entry.element)],
          known.1 ∈ naming.declared ∧ naming.Knows known.2 :=
        forall_mem_append.mpr ⟨hfits.aliases, forall_mem_singleton.mpr ⟨hname, hentry⟩⟩
      have hpushed : naming.Fits { s with
          entries := s.entries ++ [entry], aliases := s.aliases ++ [(name, entry.element)] } :=
        ⟨helements, haliases, hfits.implicit⟩
      simpa only [renamed, map_append, map_singleton] using Agrees.write hpushed

/-- The entity of a root is the one that is written in the query. -/
theorem addRoot_agrees {entityName : String} (hname : naming.Vouches entityName)
    (hdeclared : ∀ name ∈ alias?, name ∈ naming.declared) :
    Agrees naming (Common naming.Knows) (addRoot naming.context entityName alias?)
      (addRoot naming.context' entityName (alias?.map naming.rename)) := by
  refine .knowing (.entity hname) fun entity hentity => .read fun s _ => ?_
  have hrest : ∀ tableAlias : Option String, Agrees naming (Common naming.Knows)
      (do modify (·.addTable entity.table)
          let index := (← get).entries.length
          push naming.context ⟨⟨index, index, entity, tableAlias⟩, none⟩ alias?)
      (do modify (·.addTable entity.table)
          let index := (← get).entries.length
          push naming.context' ⟨⟨index, index, entity, tableAlias⟩, none⟩
            (alias?.map naming.rename)) :=
    fun tableAlias => .andThen (.addTable _) fun _ => .read fun s _ => push_agrees hentity hdeclared
  have hbulk : (s.renamed naming.rename).bulk = s.bulk := rfl
  rw [hbulk]
  split
  · exact .andThen (.pure rfl) hrest
  · exact .andThen (.map some (.nextAlias _)) hrest

theorem joinOrigin_agrees (kind : JoinKind) (parent : Element) (property : String)
    (association : Association) (target : Entity) :
    Agrees naming Eq (joinOrigin kind parent property association target)
      (joinOrigin kind parent property association target) := by
  cases association with
  | manyToOne targetName column | oneToMany targetName keyColumn =>
    exact .andThen (.nextAlias _) fun _ => .pure rfl
  | manyToMany targetName table keyColumn elementColumn =>
    exact .andThen (.addTable _) fun _ => .andThen (.nextAlias _) fun _ =>
      .andThen (.nextAlias _) fun _ => .pure rfl

theorem addJoin_agrees {parent : Element} (hparent : naming.Knows parent) (property : String)
    (kind : JoinKind) (hdeclared : ∀ name ∈ alias?, name ∈ naming.declared) :
    Agrees naming (Common naming.Knows) (addJoin naming.context parent property kind alias?)
      (addJoin naming.context' parent property kind (alias?.map naming.rename)) := by
  have hlookup : Agrees naming (Common (· ∈ parent.entity.properties))
      (ofMapping (parent.entity.property property))
      (ofMapping (parent.entity.property property)) :=
    .ofMapping (fun _ => Entity.mem_of_property) fun missing h =>
      absurd h (parent.entity.property_ne_unknownEntity property missing)
  refine .knowing hlookup fun found hfound => ?_
  cases hkind : found.kind with
  | association association =>
    exact .knowing (.entity (naming.targets _ hparent found hfound association hkind))
      fun target htarget => .andThen (joinOrigin_agrees ..) fun origin =>
        .andThen (.addTable _) fun _ => .read fun s _ => push_agrees htarget hdeclared
  | _ => exact .ofMapping (fun _ h => nomatch h) fun _ h => nomatch h

theorem implicitJoin_agrees (howner : naming.Knows owner) (property : String)
    (path path' : List String) :
    Agrees naming (Common naming.Knows) (implicitJoin naming.context owner property path)
      (implicitJoin naming.context' owner property path') := by
  refine .read fun s hfits => ?_
  have hbulk : (s.renamed naming.rename).bulk = s.bulk := rfl
  have himplicit : (s.renamed naming.rename).implicit = s.implicit := rfl
  rw [hbulk, himplicit]
  split
  · exact .misuse
  · cases hknown : s.implicit.lookup (owner.index, property) with
    | some element => exact .pure ⟨rfl, hfits.implicit _ (Keyed.lookup_mem hknown)⟩
    | none =>
      refine .knowing (addJoin_agrees howner _ _ nofun) fun element helement => .andThen ?_
        fun _ => .pure ⟨rfl, helement⟩
      exact .change (fun _ => rfl) fun _ hfits => ⟨hfits.elements, hfits.aliases,
        forall_mem_append.mpr ⟨hfits.implicit, forall_mem_singleton.mpr helement⟩⟩

/-! ## Paths -/

theorem property_of_hasProperty_eq_false (h : owner.entity.hasProperty name = false) :
    owner.entity.property name = .error (.unknownProperty owner.entity.name name)
      ∧ property owner name = .error (.unknownProperty owner.entity.name name) := by
  obtain ⟨hidentifier, hproperties⟩ := Bool.or_eq_false_iff.mp h
  have hnone : owner.entity.property? name = none := by
    rw [Entity.property?, find?_eq_none]
    simpa using hproperties
  have hmissing : owner.entity.property name
      = .error (.unknownProperty owner.entity.name name) := by
    rw [Entity.property, hnone]
  refine ⟨hmissing, ?_⟩
  rw [property, if_neg (by simpa using hidentifier), hmissing]

/-- There is nothing to join along two names that are no properties. -/
theorem addJoin_astray {name' : String} (h : owner.entity.hasProperty name = false)
    (h' : owner.entity.hasProperty name' = false) (kind : JoinKind)
    (alias? alias?' : Option String) :
    Agrees naming (fun _ _ => False) (addJoin naming.context owner name kind alias?)
      (addJoin naming.context' owner name' kind alias?') := by
  rw [addJoin, addJoin, (property_of_hasProperty_eq_false h).1,
    (property_of_hasProperty_eq_false h').1]
  exact fun _ _ => .failed fun _ h => by cases h

theorem property_mapped (howner : naming.Knows owner) {meaning : Meaning}
    (h : property owner name = .ok meaning) : naming.Mapped (some name) meaning := by
  simp only [property] at h
  split at h
  · rename_i hname
    obtain rfl := Except.ok.inj h
    exact ⟨name, rfl, hname ▸ identifier_mem_columns howner⟩
  · cases hfound : owner.entity.property name with
    | error fault =>
      rw [hfound] at h
      cases h
    | ok found =>
      have hmem := Entity.mem_of_property hfound
      simp only [hfound] at h
      cases hkind : found.kind with
      | basic column type =>
        rw [hkind] at h
        obtain rfl := Except.ok.inj h
        refine ⟨name, rfl, mem_columns howner hmem ?_⟩
        rw [Property.columns, hkind, ← Entity.name_of_property hfound]
        exact .head _
      | component component fields =>
        rw [hkind] at h
        obtain rfl := Except.ok.inj h
        refine fun field hfield => mem_columns howner hmem ?_
        rw [Property.columns, hkind]
        exact mem_map_of_mem hfield
      | association association =>
        have htarget := naming.targets _ howner found hmem association hkind
        rw [hkind] at h
        cases association with
        | manyToOne targetName column =>
          obtain rfl := Except.ok.inj h
          exact ⟨howner, htarget⟩
        | oneToMany targetName keyColumn | manyToMany targetName table keyColumn elementColumn =>
          obtain rfl := Except.ok.inj h
          exact htarget

theorem property_ne_unknownEntity (owner : Element) (name missing : String) :
    property owner name ≠ .error (.unknownEntity missing) := by
  intro h
  simp only [property] at h
  split at h
  · cases h
  · split at h
    · rename_i hfault
      cases Except.error.inj h
      exact Entity.property_ne_unknownEntity owner.entity name missing hfault
    · split at h <;> cases h

theorem property_agrees (howner : naming.Knows owner) (name : String) :
    Agrees naming (Common (naming.Mapped (some name))) (ofMapping (property owner name))
      (ofMapping (property owner name)) :=
  .ofMapping (fun _ h => property_mapped howner h)
    fun missing h => absurd h (property_ne_unknownEntity owner name missing)

theorem step_agrees (path path' : List String) {last : Option String} {meaning : Meaning}
    (hmeaning : naming.Mapped last meaning) (name : String) :
    Agrees naming (Common (naming.Mapped (some name))) (step naming.context path meaning name)
      (step naming.context' path' meaning name) := by
  cases meaning with
  | entity element => exact property_agrees hmeaning name
  | reference owner association targetName column =>
    refine .knowing (.entity hmeaning.2) fun target htarget => ?_
    split
    · rename_i hname
      exact .pure ⟨rfl, name, rfl, hname ▸ identifier_mem_columns htarget⟩
    · exact .knowing (implicitJoin_agrees hmeaning.1 ..) fun joined hjoined =>
        property_agrees hjoined name
  | component owner component fields =>
    simp only [step]
    cases hfound : fields.find? (·.name == name) with
    | some field =>
      have hname : field.name = name := by simpa using find?_some hfound
      exact .pure ⟨rfl, name, rfl, hname ▸ hmeaning field (mem_of_find?_eq_some hfound)⟩
    | none => exact .ofMapping (fun _ h => nomatch h) fun _ h => nomatch h
  | collection owner association | column owner column type => exact .misuse

/-- What is left of a path leads to the same, and its last name is the last one that was gone. -/
theorem steps_agrees (path path' : List String) : ∀ (rest : List String) {last : Option String}
    {meaning : Meaning}, naming.Mapped last meaning →
      Agrees naming (Common (naming.Mapped (rest.getLast?.or last)))
        (rest.foldlM (step naming.context path) meaning)
        (rest.foldlM (step naming.context' path') meaning)
  | [], _, _, hmeaning => .pure ⟨rfl, hmeaning⟩
  | name :: rest, last, meaning, hmeaning => by
    have hlast : (name :: rest).getLast?.or last = rest.getLast?.or (some name) := by
      rw [getLast?_cons]
      cases rest.getLast? <;> rfl
    rw [foldlM_cons, foldlM_cons, hlast]
    exact .knowing (step_agrees path path' hmeaning name) fun _ => steps_agrees path path' rest

/-- Two paths that start with names that are no properties fail. -/
theorem steps_astray {path' rest : List String} {element : Element} {name' : String}
    {last : Option String} (h : element.entity.hasProperty name = false)
    (h' : element.entity.hasProperty name' = false) :
    Agrees naming (Common (naming.Mapped last))
      ((name :: rest).foldlM (step naming.context path) (.entity element))
      ((name' :: rest).foldlM (step naming.context' path') (.entity element)) := by
  rw [foldlM_cons, foldlM_cons, step, step, (property_of_hasProperty_eq_false h).2,
    (property_of_hasProperty_eq_false h').2]
  exact fun _ _ => .failed fun _ h => nomatch h

/-- The only root is the same, and it is a table of an entity of the model. -/
theorem soleRoot_agrees (path path' : List String) :
    Agrees naming (Common naming.Knows) (soleRoot naming.context path)
      (soleRoot naming.context' path') := by
  refine .read fun s hfits => ?_
  have hroots : (s.renamed naming.rename).roots = s.roots := rfl
  rw [hroots]
  split
  · rename_i root hroot
    exact .pure ⟨rfl, hfits.elements root (s.roots_subset (hroot ▸ mem_singleton.mpr rfl))⟩
  · exact .misuse

/-- Where two paths start: at the same table, with the same names of the path left, or else with
a name next that is no property of the table. -/
inductive SameStart (naming : AliasRenaming) (path : List String) :
    Element × List String → Element × List String → Prop where
  | same {element : Element} {rest : List String} (helement : naming.Knows element)
      (hrest : rest <:+ path) : SameStart naming path (element, rest) (element, rest)
  | astray {element : Element} {name name' : String} {rest : List String}
      (hname : element.entity.hasProperty name = false)
      (hname' : element.entity.hasProperty name' = false) :
      SameStart naming path (element, name :: rest) (element, name' :: rest)

theorem start_agrees (hcovers : naming.Covers path) :
    Agrees naming (SameStart naming path) (start naming.context path)
      (start naming.context' (renamePath naming.rename path)) := by
  cases path with
  | nil => exact .knowing (soleRoot_agrees ..) fun root hroot =>
      .pure (.same hroot (suffix_refl _))
  | cons first rest =>
    have hsafe := hcovers first rfl
    refine .read fun s hfits => ?_
    rw [hfits.lookup_renamed hsafe.apart]
    cases hknown : s.aliases.lookup first with
    | some element =>
      exact .pure (.same (hfits.aliases _ (Keyed.lookup_mem hknown)).2 (suffix_cons first rest))
    | none =>
      refine .knowing (soleRoot_agrees ..) fun root hroot => ?_
      rcases hsafe.kept with hkept | hfree
      · rw [renamePath, hkept]
        exact .pure (.same hroot (suffix_refl _))
      · exact .pure (.astray (hfree root.entity hroot).1 (hfree root.entity hroot).2)

theorem resolve_agrees (hcovers : naming.Covers path) :
    Agrees naming (Common (naming.Mapped path.getLast?)) (resolve naming.context path)
      (resolve naming.context' (renamePath naming.rename path)) := by
  refine .bind (start_agrees hcovers) fun start start' hstart => ?_
  cases hstart with
  | @same element rest helement hrest =>
    have hlast : rest.getLast?.or path.getLast? = path.getLast? := by
      obtain ⟨before, rfl⟩ := hrest
      rw [getLast?_append]
      cases rest.getLast? <;> rfl
    have hmeaning : naming.Mapped path.getLast? (.entity element) := helement
    exact hlast ▸ steps_agrees path _ rest hmeaning
  | astray hname hname' => exact steps_astray hname hname'

/-- Two join paths with the same owner, and the same property of it or none. -/
inductive SameOwner (naming : AliasRenaming) : Element × String → Element × String → Prop where
  | same {owner : Element} {name : String} (howner : naming.Knows owner) :
      SameOwner naming (owner, name) (owner, name)
  | astray {owner : Element} {name name' : String} (hname : owner.entity.hasProperty name = false)
      (hname' : owner.entity.hasProperty name' = false) :
      SameOwner naming (owner, name) (owner, name')

theorem joinOwner_agrees (hcovers : naming.Covers path) :
    Agrees naming (SameOwner naming) (joinOwner naming.context path)
      (joinOwner naming.context' (renamePath naming.rename path)) := by
  cases path with
  | nil => exact .misuse
  | cons first rest =>
    have hsafe := hcovers first rfl
    cases rest with
    | nil =>
      refine .knowing (soleRoot_agrees ..) fun root hroot => ?_
      rcases hsafe.kept with hkept | hfree
      · rw [hkept]
        exact .pure (.same hroot)
      · exact .pure (.astray (hfree root.entity hroot).1 (hfree root.entity hroot).2)
    | cons second rest =>
      have hlast : ∀ name : String, (name :: second :: rest).getLast?
          = some ((second :: rest).getLast (cons_ne_nil _ _)) := by
        intro name
        rw [getLast?_cons_cons, getLast?_eq_some_getLast]
      have hprefix : naming.Covers (first :: (second :: rest).dropLast) := by
        rintro _ ⟨rfl⟩
        exact hsafe
      simp only [joinOwner, renamePath, dropLast_cons_cons, hlast]
      refine .knowing (resolve_agrees hprefix) fun meaning hmeaning => ?_
      cases meaning with
      | entity element => exact .pure (.same hmeaning)
      | reference owner association target column =>
        exact .knowing (implicitJoin_agrees hmeaning.1 ..) fun joined hjoined =>
          .pure (.same hjoined)
      | column _ _ _ | component _ _ _ | collection _ _ => exact .misuse

end Scope

end EntityQuery
