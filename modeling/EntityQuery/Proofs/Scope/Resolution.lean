import Mathlib.Data.List.Perm.Basic
import EntityQuery.Proofs.Query.Parts
import EntityQuery.Proofs.Scope.Path
import EntityQuery.Proofs.Sql.Atoms

/-!
# What resolving does, piece by piece

Resolving expressions comes down to a few things, done one after the other: a
parameter is taken over, a column of a table is named, rows of a collection are
looked up under an alias of their own, and tables are joined. `Resolves` puts
these together. It tells which expressions were resolved and to what, but not in
which order: where one of two operands has to wait for the type of the other,
the order is not that of the text.

What is true of each of the pieces is true of all that is put together from
them. The scope grows (`Resolves.steps`), each parameter is asked for once
(`Resolves.sources_perm`), all columns are those of tables of the scope
(`Resolves.refers`), and the rows that are looked up are the elements of the
collections that the expressions test (`Resolves.lookups`).
-/

namespace EntityQuery

open List Query

open Sql (Atom)

/-- The elements of the collection are the rows of the table, which have the
owner's key in the column. -/
inductive Metamodel.Holds (model : Metamodel) : Association → String → String → Prop where
  | oneToMany {target keyColumn : String} {entity : Entity}
      (hentity : model.entity target = .ok entity) :
      Holds model (.oneToMany target keyColumn) entity.table keyColumn
  | manyToMany {target table keyColumn elementColumn : String} :
      Holds model (.manyToMany target table keyColumn elementColumn) table keyColumn

/-- From a scope, expressions are resolved to atoms, and another scope is left. -/
inductive Resolves (context : Context) : Scope → List Expr → List Atom → Scope → Prop where
  | nothing {s : Scope} : Resolves context s [] [] s
  | parameter {s : Scope} {expr : Expr} {source : ParameterSource} {type : SemanticType}
      {expandable : Bool} (hsource : expr.parameter? = some source) :
      Resolves context s [expr] [.slot ⟨source, type, expandable⟩] s
  | column {s : Scope} {owner : Element} {column : String} (howner : owner ∈ s.elements) :
      Resolves context s [] [.column (owner.column column)] s
  /-- The rows are looked up under an alias that is given out for it. -/
  | lookup {s : Scope} {owner : Element} {path : List String} {negated : Bool}
      {association : Association} {table keyColumn : String} (howner : owner ∈ s.elements)
      (hdeclares : owner.entity.Declares path association)
      (hholds : context.model.Holds association table keyColumn) :
      Resolves context s [.isEmpty (.path path) negated]
        [.lookup ⟨table, s.freshAlias (aliasStem Char.isAlphanum table), keyColumn,
          owner.outerColumn owner.entity.identifier.column⟩] (s.addTable table).countAlias
  | joins {s s' : Scope} (h : Scope.Joins context s s') : Resolves context s [] [] s'
  /-- An expression that is neither a parameter nor a test of a collection is what
  it is made of. -/
  | children {s s' : Scope} {expr : Expr} {atoms : List Atom}
      (hparameter : expr.parameter? = none) (htested : expr.tested? = none)
      (h : Resolves context s expr.children atoms s') : Resolves context s [expr] atoms s'
  | append {s s₁ s' : Scope} {exprs exprs' : List Expr} {atoms atoms' : List Atom}
      (hfirst : Resolves context s exprs atoms s₁)
      (hsecond : Resolves context s₁ exprs' atoms' s') :
      Resolves context s (exprs ++ exprs') (atoms ++ atoms') s'
  | perm {s s' : Scope} {exprs exprs' : List Expr} {atoms atoms' : List Atom}
      (hexprs : exprs.Perm exprs') (hatoms : atoms.Perm atoms')
      (h : Resolves context s exprs atoms s') : Resolves context s exprs' atoms' s'

/-- The table that the atom refers to, if it refers to one, is among those. -/
def Sql.Atom.Refers (P : Element → Prop) : Atom → Prop
  | .slot _ => True
  | .column ref => ∃ owner, P owner ∧ ref.qualifier = owner.tableAlias
  | .lookup found => ∃ owner, P owner ∧ ∃ column, found.owner = owner.outerColumn column

theorem Sql.Atom.Refers.mono {P Q : Element → Prop} {atom : Atom} (h : atom.Refers P)
    (himp : ∀ owner, P owner → Q owner) : atom.Refers Q := by
  cases atom with
  | slot parameter => trivial
  | column ref =>
    obtain ⟨owner, howner, hqualifier⟩ := h
    exact ⟨owner, himp owner howner, hqualifier⟩
  | lookup found =>
    obtain ⟨owner, howner, hcolumn⟩ := h
    exact ⟨owner, himp owner howner, hcolumn⟩

/-- The lookup finds the elements of the collection that the path ends with, which
belongs to one of the tables. Its alias is numbered. -/
structure Sql.KeyLookup.Finds (model : Metamodel) (elements : List Element)
    (path : List String) (lookup : Sql.KeyLookup) : Prop where
  collection : ∃ owner ∈ elements, lookup.owner = owner.outerColumn owner.entity.identifier.column
    ∧ ∃ association, owner.entity.Declares path association
      ∧ model.Holds association lookup.table lookup.keyColumn
  numbered : ∃ number : Nat,
    lookup.tableAlias = aliasStem Char.isAlphanum lookup.table ++ toString number ++ "_"

theorem Sql.KeyLookup.Finds.mono {model : Metamodel} {elements elements' : List Element}
    {path : List String} {lookup : Sql.KeyLookup} (h : lookup.Finds model elements path)
    (hsubset : elements ⊆ elements') : lookup.Finds model elements' path := by
  obtain ⟨owner, howner, hfound⟩ := h.collection
  exact ⟨⟨owner, hsubset howner, hfound⟩, h.numbered⟩

namespace Resolves

variable {context : Context} {s s' : Scope} {exprs : List Expr} {atoms : List Atom}

theorem steps (h : Resolves context s exprs atoms s') : Scope.Steps context s s' := by
  induction h with
  | nothing | parameter | column => exact .refl
  | lookup => exact .tail (.single .table) .giveAlias
  | joins hjoins => exact hjoins.steps
  | children _ _ _ ih => exact ih
  | append _ _ ihfirst ihsecond => exact ihfirst.trans ihsecond
  | perm _ _ _ ih => exact ih

/-- In a bulk statement no table comes in. -/
theorem entries_of_bulk (h : Resolves context s exprs atoms s') (hbulk : s.bulk) :
    s'.entries = s.entries := by
  induction h with
  | nothing | parameter | column | lookup => rfl
  | @joins s s' hjoins =>
    refine (hjoins.induction (P := fun s₁ => s₁.bulk = true ∧ s₁.entries = s.entries)
      (fun hstep hkept => ?_) ⟨hbulk, rfl⟩).2
    cases hstep with
    | join _ _ _ _ _ _ hjoined => cases hkept.1.symm.trans hjoined
    | remember helement => exact hkept
  | children _ _ _ ih => exact ih hbulk
  | append hfirst _ ihfirst ihsecond =>
    rw [ihsecond (hfirst.steps.bulk_eq.trans hbulk), ihfirst hbulk]
  | perm _ _ _ ih => exact ih hbulk

theorem parameters_of_parameter? {expr : Expr} {source : ParameterSource}
    (h : expr.parameter? = some source) : parameters [expr] = [source] := by
  cases expr with
  | named name | ordinal position =>
    obtain rfl := Option.some.inj h
    rfl
  | _ => cases h

theorem parameters_of_children {expr : Expr} (h : expr.parameter? = none) :
    parameters [expr] = parameters expr.children := by
  rw [parameters, flatMap_singleton, expr.parameters_eq, h]
  rfl

/-- Each parameter is asked for in one place. -/
theorem sources_perm (h : Resolves context s exprs atoms s') :
    ((Atom.slots atoms).map (·.source)).Perm (parameters exprs) := by
  induction h with
  | nothing | column | lookup | joins => exact .refl _
  | parameter hsource =>
    rw [parameters_of_parameter? hsource]
    exact .refl _
  | children hparameter _ _ ih => rwa [parameters_of_children hparameter]
  | append _ _ ihfirst ihsecond =>
    rw [Atom.slots_append, map_append, parameters_append]
    exact ihfirst.append ihsecond
  | perm hexprs hatoms _ ih =>
    exact (((hatoms.filterMap _).map _).symm.trans ih).trans (hexprs.flatMap_right _)

/-- The parameters of a query are not those of filters. -/
theorem isFilter_eq_false {source : ParameterSource} (h : source ∈ parameters exprs) :
    source.isFilter = false := by
  obtain ⟨expr, -, hsource⟩ := mem_flatMap.mp h
  obtain ⟨part, -, hpart⟩ := mem_filterMap.mp hsource
  cases part with
  | named name | ordinal position =>
    obtain rfl := Option.some.inj hpart
    rfl
  | _ => cases hpart

/-- What is referred to are tables of the scope that is left. -/
theorem refers (h : Resolves context s exprs atoms s') :
    ∀ atom ∈ atoms, atom.Refers (· ∈ s'.elements) := by
  induction h with
  | nothing | joins => exact forall_mem_nil _
  | parameter => exact forall_mem_singleton.mpr trivial
  | column howner => exact forall_mem_singleton.mpr ⟨_, howner, rfl⟩
  | lookup howner => exact forall_mem_singleton.mpr ⟨_, howner, _, rfl⟩
  | children _ _ _ ih => exact ih
  | append _ hsecond ihfirst ihsecond =>
    refine forall_mem_append.mpr ⟨fun atom hatom => ?_, ihsecond⟩
    exact (ihfirst atom hatom).mono fun _ howner => hsecond.steps.elements_subset howner
  | perm _ hatoms _ ih => exact fun atom hatom => ih atom (hatoms.mem_iff.mpr hatom)

/-- Each test of a collection looks its elements up, and nothing else is looked
up. -/
theorem lookups (h : Resolves context s exprs atoms s') :
    ∃ tests : List (List String × Sql.KeyLookup), (tests.map (·.1)).Perm (tested exprs)
      ∧ (tests.map (·.2)).Perm (Atom.lookups atoms)
      ∧ ∀ test ∈ tests, test.2.Finds context.model s'.elements test.1 := by
  induction h with
  | nothing | column | joins => exact ⟨[], .refl _, .refl _, forall_mem_nil _⟩
  | @parameter s expr source type expandable hsource =>
    have htested : tested [expr] = [] := by
      cases expr with
      | named name | ordinal position => rfl
      | _ => cases hsource
    rw [htested]
    exact ⟨[], .refl _, .refl _, forall_mem_nil _⟩
  | @lookup s owner path negated association table keyColumn howner hdeclares hholds =>
    refine ⟨[(path, _)], .refl _, .refl _, forall_mem_singleton.mpr ⟨?_, s.counter, rfl⟩⟩
    exact ⟨owner, howner, rfl, association, hdeclares, hholds⟩
  | @children s s' expr atoms _ htested _ ih =>
    have hchildren : tested [expr] = tested expr.children := by
      rw [tested_singleton, htested]
      rfl
    rwa [hchildren]
  | append _ hsecond ihfirst ihsecond =>
    obtain ⟨tests, htested, hlookups, hfinds⟩ := ihfirst
    obtain ⟨tests', htested', hlookups', hfinds'⟩ := ihsecond
    refine ⟨tests ++ tests', ?_, ?_, forall_mem_append.mpr ⟨fun test htest => ?_, hfinds'⟩⟩
    · rw [map_append, tested, flatMap_append]
      exact htested.append htested'
    · rw [map_append, Atom.lookups_append]
      exact hlookups.append hlookups'
    · exact (hfinds test htest).mono hsecond.steps.elements_subset
  | perm hexprs hatoms _ ih =>
    obtain ⟨tests, htested, hlookups, hfinds⟩ := ih
    exact ⟨tests, htested.trans (hexprs.flatMap_right _), hlookups.trans (hatoms.filterMap _),
      hfinds⟩

/-- No parameter of a filter is asked for. -/
theorem unfiltered (h : Resolves context s exprs atoms s') :
    ∀ parameter ∈ Atom.slots atoms, parameter.source.isFilter = false := by
  intro parameter hparameter
  exact isFilter_eq_false (h.sources_perm.mem_iff.mp (mem_map_of_mem hparameter))

theorem columns {owner : Element} (howner : owner ∈ s.elements) :
    ∀ {refs : List Sql.ColumnRef}, (∀ ref ∈ refs, ∃ column, ref = owner.column column) →
      Resolves context s [] (refs.map .column) s
  | [], _ => .nothing
  | ref :: rest, h => by
    obtain ⟨⟨column, hcolumn⟩, hrest⟩ := forall_mem_cons.mp h
    have hfirst : Resolves context s [] [.column ref] s := hcolumn ▸ .column howner
    exact .append hfirst (columns howner hrest)

end Resolves

end EntityQuery
