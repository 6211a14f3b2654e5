import Mathlib
import EntityQuery.Proofs.Renaming
import EntityQuery.Proofs.Sample
import EntityQuery.Proofs.Scope.Filter
import EntityQuery.Proofs.Select

/-!
# The names of aliases do not matter

A query is compiled to the same plan whatever its aliases are called
(`compile_alias_names`). The new names have to be as different from each other as
the old ones, neither may be the name of a property, and no path may start with a
new name that was not an alias before; aliases may trade their names.

Compiling a clause under the new names agrees with compiling it under the old
ones, from the joins of a range up to the whole statement (`ofStatement_agrees`).
-/

namespace EntityQuery

open List Query

def Query.Statement.entityNames : Statement → List String
  | .select statement => statement.ranges.map (·.entity)
  | .update statement => [statement.entity]
  | .delete statement => [statement.entity]

/-- The expressions of the statement, each with those that a parameter there may take its type
from: the value of an assignment has the column that it is assigned to. -/
def Query.Statement.guided : Statement → List (Expr × List Expr)
  | .update statement =>
    (statement.assignments.map fun assignment => (assignment.value, [.path assignment.path]))
      ++ statement.condition.toList.map (·, [])
  | statement => statement.exprs.map (·, [])

theorem Query.Statement.mem_exprs_of_guided {statement : Statement} {entry : Expr × List Expr}
    (h : entry ∈ statement.guided) : entry.1 ∈ statement.exprs := by
  cases statement with
  | update statement =>
    rcases mem_append.mp h with hvalue | hcondition
    · obtain ⟨assignment, hassignment, rfl⟩ := mem_map.mp hvalue
      exact mem_append_left _ (mem_map_of_mem hassignment)
    · obtain ⟨expr, hexpr, rfl⟩ := mem_map.mp hcondition
      exact mem_append_right _ hexpr
  | select statement | delete statement =>
    obtain ⟨expr, hexpr, rfl⟩ := mem_map.mp h
    exact hexpr

namespace Scope

open Scoped

variable {naming : AliasRenaming}

theorem addCondition_agrees (index : Nat) (condition : Sql.Condition) :
    Agrees naming Eq (modify (·.addCondition index condition))
      (modify (·.addCondition index condition)) := by
  refine .change (fun _ => rfl) fun s hfits => ⟨?_, hfits.aliases, hfits.implicit⟩
  rw [elements_addCondition]
  exact hfits.elements

theorem filtered_renamed (rename : String → String) (enabled : EnabledFilters) (s : Scope) :
    (s.renamed rename).filtered enabled
      = s.filtered enabled >>= fun found => .ok (found.1.renamed rename, found.2) := by
  have hentries : (s.renamed rename).entries = s.entries := rfl
  rw [filtered, filtered, hentries]
  cases s.entries.mapM (applyFilters enabled) <;> rfl

end Scope

/-! ## Statements that are safe to rename -/

namespace AliasRenaming

variable (naming : AliasRenaming)

/-- The alias of the join is declared, its paths start safely, and the model vouches for what
its condition asks for. -/
structure CoversJoin (join : Join) : Prop where
  path : naming.Covers join.path
  declared : ∀ name ∈ join.alias?, name ∈ naming.declared
  condition : ∀ expr ∈ join.condition, naming.CoversExpr [] expr

structure CoversRange (range : Range) : Prop where
  written : naming.Vouches range.entity
  declared : ∀ name ∈ range.alias?, name ∈ naming.declared
  joins : ∀ join ∈ range.joins, naming.CoversJoin join

/-- All aliases of the statement are declared, all its paths start safely, and the model
vouches for the entities that are written in the statement or asked for. -/
structure CoversStatement (statement : Statement) : Prop where
  written : ∀ name ∈ statement.entityNames, naming.Vouches name
  declared : statement.aliases ⊆ naming.declared
  bare : ∀ path ∈ statement.barePaths, naming.Covers path
  exprs : ∀ entry ∈ statement.guided, naming.CoversExpr entry.2 entry.1

variable {naming}

theorem CoversStatement.range {select : Select} (h : naming.CoversStatement (.select select))
    {range : Range} (hrange : range ∈ select.ranges) : naming.CoversRange range := by
  have hdeclared : ∀ name ∈ range.aliases, name ∈ naming.declared := fun name hname =>
    h.declared (mem_flatMap.mpr ⟨range, hrange, hname⟩)
  constructor
  · exact h.written _ (mem_map_of_mem hrange)
  · intro name hname
    exact hdeclared name (mem_append_left _ (Option.mem_toList.mpr hname))
  · intro join hjoin
    constructor
    · exact h.bare _ (mem_flatMap.mpr ⟨range, hrange, mem_map_of_mem hjoin⟩)
    · intro name hname
      exact hdeclared name (mem_append_right _ (mem_filterMap.mpr ⟨join, hjoin, hname⟩))
    · intro expr hexpr
      have hmem : expr ∈ select.ranges.flatMap Range.exprs :=
        mem_flatMap.mpr ⟨range, hrange, mem_flatMap.mpr ⟨join, hjoin, Option.mem_toList.mpr hexpr⟩⟩
      exact forall_mem_map.mp h.exprs expr (by simp [Statement.exprs, Select.exprs, hmem])

end AliasRenaming

namespace Lowered

open Scoped

variable {naming : AliasRenaming}

/-! ## Selects -/

/-- The tables of the from clause are those of entities of the model. -/
structure KnownClause (naming : AliasRenaming) (clause : FromClause) : Prop where
  elements : ∀ element ∈ clause.elements, naming.Knows element
  fetches : ∀ join ∈ clause.fetches, naming.Knows join.element

theorem addJoin_agrees {join : Join} (hcovers : naming.CoversJoin join) {clause : FromClause}
    (hclause : KnownClause naming clause) :
    Agrees naming (Common (KnownClause naming)) (addJoin naming.context clause join)
      (addJoin naming.context' clause (join.renamed naming.rename)) := by
  refine .bind (Scope.joinOwner_agrees hcovers.path) fun owner owner' howner => ?_
  cases howner with
  | astray hname hname' =>
    exact .bind (R := fun _ _ => False) (Scope.addJoin_astray hname hname' ..) fun _ _ h => h.elim
  | @same owner name howner =>
    refine .knowing (Scope.addJoin_agrees howner _ _ hcovers.declared) fun element helement =>
      .andThen (Typed.condition_agrees hcovers.condition) fun condition => ?_
    have hreturn : Agrees naming (Common (KnownClause naming))
        (if join.fetch && !naming.context.shallow then
          pure { clause with fetches := clause.fetches ++ [⟨element, owner, name⟩] }
        else pure { clause with elements := clause.elements ++ [element] })
        (if join.fetch && !naming.context.shallow then
          pure { clause with fetches := clause.fetches ++ [⟨element, owner, name⟩] }
        else pure { clause with elements := clause.elements ++ [element] }) := by
      split
      · exact .pure ⟨rfl, hclause.elements,
          forall_mem_append.mpr ⟨hclause.fetches, forall_mem_singleton.mpr helement⟩⟩
      · exact .pure ⟨rfl, forall_mem_append.mpr
          ⟨hclause.elements, forall_mem_singleton.mpr helement⟩, hclause.fetches⟩
    cases condition with
    | some term => exact .andThen (Scope.addCondition_agrees ..) fun _ => hreturn
    | none => exact hreturn

theorem addRange_agrees {range : Range} (hcovers : naming.CoversRange range)
    {clause : FromClause} (hclause : KnownClause naming clause) :
    Agrees naming (Common (KnownClause naming)) (addRange naming.context clause range)
      (addRange naming.context' clause (range.renamed naming.rename)) := by
  refine .knowing (Scope.addRoot_agrees hcovers.written hcovers.declared) fun root hroot => ?_
  simp only [Range.renamed, foldlM_map]
  exact .foldlM (fun join hjoin _ => addJoin_agrees (hcovers.joins join hjoin))
    ⟨forall_mem_append.mpr ⟨hclause.elements, forall_mem_singleton.mpr hroot⟩, hclause.fetches⟩

theorem items_renamed (rename : String → String) (clause : Option SelectClause)
    (elements : List Element) :
    items (clause.map (SelectClause.renamed rename)) elements
      = (items clause elements).map fun item => (item.1.renamed rename, item.2) := by
  cases clause with
  | none =>
    simp only [items, Option.map_none, map_map]
    rfl
  | some clause =>
    simp only [items, Option.map_some, SelectClause.renamed, map_map]
    rfl

theorem covers_items {clause : Option SelectClause}
    (h : ∀ expr ∈ clause.toList.flatMap SelectClause.exprs, naming.CoversExpr [] expr)
    {elements : List Element} (helements : ∀ element ∈ elements, naming.Knows element) :
    ∀ item ∈ items clause elements, naming.CoversTarget item.1 := by
  cases clause with
  | none => exact forall_mem_map.mpr helements
  | some clause =>
    refine forall_mem_map.mpr fun item hitem => h item.expr ?_
    rw [Option.toList_some, flatMap_singleton]
    exact mem_map_of_mem hitem

theorem terms_agrees {exprs : List Expr} (hcovers : ∀ expr ∈ exprs, naming.CoversExpr [] expr) :
    Agrees naming Eq (terms naming.context exprs)
      (terms naming.context' (exprs.map (Expr.renamed naming.rename))) := by
  simp only [terms, mapM_map]
  exact .mapM fun expr hexpr =>
    .andThen (Typed.ofExpr_agrees (hcovers expr hexpr) nofun) fun _ => .pure rfl

theorem orderTerms_agrees {items : List OrderItem}
    (hcovers : ∀ item ∈ items, naming.CoversExpr [] item.expr) :
    Agrees naming Eq (orderTerms naming.context items)
      (orderTerms naming.context' (items.map (OrderItem.renamed naming.rename))) := by
  simp only [orderTerms, mapM_map]
  exact .mapM fun item hitem =>
    .andThen (Typed.ofExpr_agrees (hcovers item hitem) nofun) fun _ => .pure rfl

/-- A filter that cannot be written is a defect of the mapping, never an unknown entity. -/
theorem filtered_ne_unknownEntity {s : Scope} {enabled : EnabledFilters} {name : String} :
    s.filtered enabled ≠ .error (.unknownEntity name) := by
  intro hmissing
  obtain ⟨entry, -, filter, -, tableAlias, hfault⟩ := Scope.exists_template_error hmissing
  obtain ⟨undeclared, -, -, hdefect⟩ := Filter.exists_undeclared hfault
  cases hdefect

theorem ofSelect_agrees {select : Select} (hcovers : naming.CoversStatement (.select select)) :
    Agrees naming Eq (ofSelect naming.context select)
      (ofSelect naming.context' (select.renamed naming.rename)) := by
  have hexprs : ∀ expr ∈ select.exprs, naming.CoversExpr [] expr :=
    fun expr hexpr => hcovers.exprs (expr, []) (mem_map_of_mem hexpr)
  simp only [Select.exprs, forall_mem_append, forall_mem_map] at hexprs
  obtain ⟨⟨⟨⟨⟨hlist, -⟩, hwhere⟩, hgroup⟩, hhaving⟩, horder⟩ := hexprs
  simp only [ofSelect, Select.renamed, foldlM_map]
  refine .knowing (P := KnownClause naming) (.foldlM (fun range hrange _ =>
    addRange_agrees (hcovers.range hrange)) ⟨forall_mem_nil _, forall_mem_nil _⟩)
    fun clause hclause => ?_
  rw [items_renamed]
  refine .andThen (Projection.select_agrees (covers_items hlist hclause.elements) hclause.fetches)
    fun projection => .andThen (Typed.condition_agrees fun expr hexpr =>
      hwhere expr (Option.mem_toList.mpr hexpr)) fun condition =>
    .andThen (terms_agrees hgroup) fun groupBy =>
    .andThen (Typed.condition_agrees fun expr hexpr =>
      hhaving expr (Option.mem_toList.mpr hexpr)) fun having =>
    .andThen (orderTerms_agrees horder) fun orderBy => .read fun s _ => ?_
  have hdistinct : (select.clause.map (SelectClause.renamed naming.rename)).any (·.distinct)
      = select.clause.any (·.distinct) := by
    cases select.clause <;> rfl
  have hshape : (select.clause.map (SelectClause.renamed naming.rename)).bind (·.shape)
      = select.clause.bind (·.shape) := by
    cases select.clause <;> rfl
  have hfilters : naming.context'.filters = naming.context.filters := rfl
  simp only [hdistinct, hshape, hfilters, Scope.filtered_renamed]
  cases hfiltered : s.filtered naming.context.filters with
  | error fault =>
    refine fun _ _ => .failed fun name h => absurd hfiltered ?_
    rw [Error.mapping.inj h]
    exact filtered_ne_unknownEntity
  | ok found => exact .pure rfl

/-! ## Bulk statements -/

theorem makeBulk_agrees :
    Agrees naming Eq (modify ({ · with bulk := true })) (modify ({ · with bulk := true })) :=
  .change (fun _ => rfl) fun _ hfits => ⟨hfits.elements, hfits.aliases, hfits.implicit⟩

/-- The column of an assignment hints at the type of its value. -/
theorem assignment_agrees {assigned : Assignment} (hpath : naming.Covers assigned.path)
    (hvalue : naming.CoversExpr [.path assigned.path] assigned.value) :
    Agrees naming Eq (assignment naming.context assigned)
      (assignment naming.context' (assigned.renamed naming.rename)) := by
  have hcolumn : Agrees naming 
      (Common fun found => naming.Explains [.path assigned.path] (some found.2))
      (assignedColumn naming.context assigned.path)
      (assignedColumn naming.context' (renamePath naming.rename assigned.path)) := by
    refine .knowing (Scope.resolve_agrees hpath) fun meaning hmeaning => ?_
    cases meaning with
    | column owner column type => exact .pure ⟨rfl, naming.explains_column hmeaning⟩
    | reference owner property target column =>
      exact .pure ⟨rfl, naming.explains_entity hmeaning.2⟩
    | _ => exact .misuse
  exact .knowing hcolumn fun found hfound =>
    .andThen (Typed.ofExpr_agrees hvalue hfound) fun typed => .pure rfl

theorem ofUpdate_agrees {update : Update} (hcovers : naming.CoversStatement (.update update)) :
    Agrees naming Eq (ofUpdate naming.context update)
      (ofUpdate naming.context' (update.renamed naming.rename)) := by
  obtain ⟨hvalues, hwhere⟩ := forall_mem_append.mp hcovers.exprs
  rw [forall_mem_map] at hvalues hwhere
  have hdeclared : ∀ name ∈ update.alias?, name ∈ naming.declared := fun name hname =>
    hcovers.declared (Option.mem_toList.mpr hname)
  simp only [ofUpdate, Update.renamed, mapM_map]
  exact .andThen makeBulk_agrees fun _ =>
    .knowing (Scope.addRoot_agrees (hcovers.written _ (.head _)) hdeclared) fun root _ =>
    .andThen (.mapM fun assigned hassigned => assignment_agrees
      (hcovers.bare _ (mem_map_of_mem hassigned)) (hvalues assigned hassigned))
    fun assignments => .andThen (Typed.condition_agrees fun expr hexpr =>
      hwhere expr (Option.mem_toList.mpr hexpr)) fun condition => .read fun s _ => .pure rfl

theorem ofDelete_agrees {delete : Delete} (hcovers : naming.CoversStatement (.delete delete)) :
    Agrees naming Eq (ofDelete naming.context delete)
      (ofDelete naming.context' (delete.renamed naming.rename)) := by
  have hdeclared : ∀ name ∈ delete.alias?, name ∈ naming.declared := fun name hname =>
    hcovers.declared (Option.mem_toList.mpr hname)
  have hcondition : Agrees naming Eq (Typed.condition naming.context delete.condition)
      (Typed.condition naming.context' (delete.condition.map (Expr.renamed naming.rename))) :=
    Typed.condition_agrees fun expr hexpr =>
      forall_mem_map.mp hcovers.exprs expr (Option.mem_toList.mpr hexpr)
  have hunlink : ∀ (root : Element) (property : Property), Agrees naming Eq
      (unlink? naming.context root delete.condition property)
      (unlink? naming.context' root
        (delete.condition.map (Expr.renamed naming.rename)) property) := by
    intro root property
    unfold unlink?
    split
    · exact .andThen (.addTable _) fun _ => .andThen hcondition fun term => .pure rfl
    · exact .pure rfl
  exact .andThen makeBulk_agrees fun _ =>
    .knowing (Scope.addRoot_agrees (hcovers.written _ (.head _)) hdeclared) fun root _ =>
    .andThen (.mapM fun property _ => hunlink root property) fun unlinks =>
    .andThen hcondition fun condition => .read fun s _ => .pure rfl

theorem ofStatement_agrees {statement : Statement} (hcovers : naming.CoversStatement statement) :
    Agrees naming Eq (ofStatement naming.context statement)
      (ofStatement naming.context' (statement.renamed naming.rename)) := by
  cases statement with
  | select select => exact ofSelect_agrees hcovers
  | update update => exact ofUpdate_agrees hcovers
  | delete delete => exact ofDelete_agrees hcovers

end Lowered

/-! ## Plans -/

namespace Query.Statement

variable {model : Metamodel} {statement : Statement} {rename : String → String}

/-- The aliases of the statement can be given these names: they stay different, neither
an old nor a new name is one of a property, and no path starts with a new name that
was not an alias before. -/
structure Renames (model : Metamodel) (statement : Statement) (rename : String → String) :
    Prop where
  injective : ∀ name ∈ statement.aliases, ∀ other ∈ statement.aliases,
    rename name = rename other → name = other
  old_free : ∀ name ∈ statement.aliases, ∀ entity ∈ model.entities, entity.hasProperty name = false
  new_free : ∀ name ∈ statement.aliases, ∀ entity ∈ model.entities,
    entity.hasProperty (rename name) = false
  unused : ∀ name ∈ statement.aliases, rename name ∉ statement.aliases →
    rename name ∉ statement.starts

/-- The renaming of the aliases that the statement declares. Any name may be blamed. -/
def Renames.naming {context : Context} (h : statement.Renames context.model rename)
    (query : String) : AliasRenaming where
  context
  query
  declared := statement.aliases
  rename := statement.newName rename
  apart := by
    intro name hname other hother heq
    rw [newName, newName, if_pos hname, if_pos hother] at heq
    exact h.injective name hname other hother heq
  blamed _ := True
  own _ _ _ := trivial
  targets _ _ _ _ _ _ _ := trivial

theorem Renames.safe {context : Context} (h : statement.Renames context.model rename)
    {query name : String} (hstart : name ∈ statement.starts) : (h.naming query).Safe name := by
  by_cases hdeclared : name ∈ statement.aliases
  · refine ⟨(h.naming query).apart name hdeclared, .inr fun entity hentity => ?_⟩
    have hnew : (h.naming query).rename name = rename name := if_pos hdeclared
    rw [hnew]
    exact ⟨h.old_free name hdeclared entity hentity, h.new_free name hdeclared entity hentity⟩
  · have hkept : (h.naming query).rename name = name := if_neg hdeclared
    refine ⟨fun other hother heq => ?_, .inl hkept⟩
    have hnew : (h.naming query).rename other = rename other := if_pos hother
    rw [hkept, hnew] at heq
    -- The name is the new name of an alias without being an alias itself.
    subst heq
    exact absurd hstart (h.unused other hother hdeclared)

theorem Renames.covers {context : Context} (h : statement.Renames context.model rename)
    (query : String) : (h.naming query).CoversStatement statement := by
  have hpaths : ∀ path ∈ statement.paths, (h.naming query).Covers path :=
    fun path hpath _ hfirst => h.safe (mem_filterMap.mpr ⟨path, hpath, hfirst⟩)
  obtain ⟨hbare, hexprs⟩ := forall_mem_append.mp hpaths
  exact ⟨fun _ _ _ => trivial, List.Subset.refl _, hbare, fun entry hentry =>
    ⟨fun path hpath => hexprs path (mem_flatMap.mpr ⟨entry.1, mem_exprs_of_guided hentry, hpath⟩),
      fun _ _ _ _ _ _ => trivial⟩⟩

end Query.Statement

namespace Sample

/-- The totals of the orders that the persons of some age have placed. -/
def totals (person order : String) : Statement :=
  .select {
    clause := some ⟨false, none, [⟨.path [order, "total"], none⟩]⟩
    ranges := [⟨"Person", some person, [⟨.inner, false, [person, "orders"], some order, none⟩]⟩]
    condition := some (.compare .gt (.path [person, "age"]) (.named "age"))
    groupBy := []
    having := none
    orderBy := [] }

def totalsQuery : String :=
  "select o.total from Person p join p.orders o where p.age > :age"

/-- The same with the names of the two aliases traded. -/
def tradedQuery : String :=
  "select p.total from Person o join o.orders p where o.age > :age"

end Sample

namespace Plan

variable {compiler : Compiler} {statement : Statement} {rename : String → String}

/-- A statement is resolved to the same under the new names, or it is not resolved under
either. -/
theorem lower_withAliases (h : statement.Renames compiler.model rename) (text text' : String) :
    (lower compiler text' (statement.withAliases rename)).toOption
      = (lower compiler text statement).toOption := by
  have hrenames : statement.Renames (compiler.context text).model rename := h
  let naming := hrenames.naming text'
  have hagrees : naming.Same Eq ((Lowered.ofStatement (compiler.context text) statement).run {})
      ((Lowered.ofStatement naming.context' (statement.renamed naming.rename)).run
        (({} : Scope).renamed naming.rename)) :=
    Lowered.ofStatement_agrees (hrenames.covers text') (.empty false)
  change Except.toOption ((Lowered.ofStatement naming.context'
      (statement.renamed naming.rename)).run (({} : Scope).renamed naming.rename) >>= _)
    = Except.toOption ((Lowered.ofStatement (compiler.context text) statement).run {} >>= _)
  generalize (Lowered.ofStatement (compiler.context text) statement).run {} = found at hagrees
  generalize (Lowered.ofStatement naming.context' (statement.renamed naming.rename)).run
    (({} : Scope).renamed naming.rename) = found' at hagrees
  cases hagrees with
  | failed _ => rfl
  | done hvalue _ =>
    subst hvalue
    rfl

/-- A statement compiles under new names for its aliases exactly if it does under the
old ones, and to the same: read from a text, the two plans differ in that text alone. -/
theorem compile_alias_names (h : statement.Renames compiler.model rename) :
    (∀ text text', (lower compiler text' (statement.withAliases rename)).toOption
      = (lower compiler text statement).toOption)
    ∧ ∀ {identifier query query' text text' : String}
        {substitutions substitutions' : List (String × String)},
      substituted substitutions query = .ok text → parsed text = .ok statement →
      substituted substitutions' query' = .ok text' →
      parsed text' = .ok (statement.withAliases rename) →
      (compile compiler identifier query' substitutions').toOption
        = (compile compiler identifier query substitutions).toOption.map
          ({ · with query := query' }) := by
  refine ⟨lower_withAliases h, fun htext hparsed htext' hparsed' => ?_⟩
  rw [compile_eq htext hparsed, compile_eq htext' hparsed', toOption_bind, toOption_bind,
    lower_withAliases h _ _]
  cases (lower compiler _ statement).toOption <;> rfl

theorem compile_alias_names_traded : ∃ plan,
    compile Sample.compiler "q" Sample.totalsQuery [] = .ok plan
      ∧ compile Sample.compiler "q" Sample.tradedQuery []
        = .ok { plan with query := Sample.tradedQuery } := by
  have hrenames : (Sample.totals "p" "o").Renames Sample.compiler.model
      (fun name => if name = "p" then "o" else "p") := by
    constructor <;> decide +kernel
  have hparsed : parsed Sample.totalsQuery = .ok (Sample.totals "p" "o") := by cbv
  have hparsed' : parsed Sample.tradedQuery
      = .ok ((Sample.totals "p" "o").withAliases fun name => if name = "p" then "o" else "p") := by
    cbv
  have htext : substituted [] Sample.totalsQuery = .ok Sample.totalsQuery := by decide +kernel
  have htext' : substituted [] Sample.tradedQuery = .ok Sample.tradedQuery := by decide +kernel
  obtain ⟨lowered, hlower⟩ := exists_ok_of_isSome
    (x := lower Sample.compiler Sample.totalsQuery (Sample.totals "p" "o")) (by decide +kernel)
  have hplan : compile Sample.compiler "q" Sample.totalsQuery []
      = .ok (ofLowered Sample.compiler "q" Sample.totalsQuery lowered) := by
    rw [compile_eq htext hparsed, hlower]
    rfl
  have hsame : (compile Sample.compiler "q" Sample.tradedQuery []).toOption = _ :=
    (compile_alias_names hrenames).2 htext hparsed htext' hparsed'
  rw [hplan] at hsame
  exact ⟨_, hplan, toOption_eq_some.mp hsame⟩

end Plan

end EntityQuery
