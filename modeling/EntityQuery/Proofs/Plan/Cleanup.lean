import EntityQuery.Proofs.Plan.Deletes
import EntityQuery.Proofs.Sql.Bulk
import EntityQuery.Proofs.Sql.TableNames

/-!
# What a delete cleans up and what it still reads

The statements of a delete are run one after the other, and each of them selects
the rows of the entity anew. Where the condition tests a collection, it looks for
rows of the table that holds the elements (`Metamodel.Tested`), and when that is
the table of a many-to-many association of the entity, an earlier statement has
removed rows from it by then. That is the only way in which one statement can
disturb another: when no such collection is tested, all statements select the
same rows (`DeleteRun.selections_eq`).
-/

namespace EntityQuery

open List Sql Sample Statement

open Sql (Atom)

theorem Entity.Declares.unique {entity : Entity} {path : List String}
    {association association' : Association} (h : entity.Declares path association)
    (h' : entity.Declares path association') : association = association' := by
  obtain ⟨name, property, hname, hproperty, hkind⟩ := h
  obtain ⟨name', property', hname', hproperty', hkind'⟩ := h'
  obtain rfl := Option.some.inj (hname.symm.trans hname')
  obtain rfl := Except.ok.inj (hproperty.symm.trans hproperty')
  exact PropertyKind.association.inj (hkind.symm.trans hkind')

theorem Metamodel.Holds.unique {model : Metamodel} {association : Association}
    {table keyColumn table' keyColumn' : String} (h : model.Holds association table keyColumn)
    (h' : model.Holds association table' keyColumn') : table = table' := by
  cases h with
  | oneToMany hentity =>
    cases h' with
    | oneToMany hentity' => rw [Except.ok.inj (hentity.symm.trans hentity')]
  | manyToMany =>
    cases h' with
    | manyToMany => rfl

/-- The table holds the elements of a collection of the entity that the condition
tests for being empty. -/
def Metamodel.Tested (model : Metamodel) (entity : Entity) (condition : Option Query.Expr)
    (table : String) : Prop :=
  ∃ path ∈ Query.tested condition.toList, ∃ association keyColumn,
    entity.Declares path association ∧ model.Holds association table keyColumn

/-- No statement reads a table from which one before it has removed rows. -/
def Sql.Statement.Undisturbed (statements : List Statement) : Prop :=
  statements.Pairwise fun before later =>
    ∀ table ∈ before.linkTable?, table ∉ Atom.tables later.atoms

instance (statements : List Statement) : Decidable (Undisturbed statements) :=
  inferInstanceAs (Decidable (statements.Pairwise _))

namespace Lowered.DeleteRun

variable {context : Context} {delete : Query.Delete} {run : DeleteRun context delete}

/-- A condition reads the tables of the collections that it tests. -/
theorem Renders.mem_tables {found : Option Term} (h : run.Renders found) (table : String) :
    table ∈ Atom.tables (optionAtoms found)
      ↔ context.model.Tested run.root.entity delete.condition table := by
  constructor
  · intro htable
    obtain ⟨lookup, hlookup, rfl⟩ := mem_map.mp htable
    obtain ⟨atom, hatom, hfound⟩ := mem_filterMap.mp hlookup
    cases atom with
    | lookup other =>
      obtain rfl := Option.some.inj hfound
      obtain ⟨path, hpath, hfinds⟩ := h.finds hatom
      obtain ⟨owner, howner, -, association, hdeclares, hholds⟩ := hfinds.collection
      obtain rfl := mem_singleton.mp howner
      exact ⟨path, hpath, association, _, hdeclares, hholds⟩
    | _ => cases hfound
  · rintro ⟨path, hpath, association, keyColumn, hdeclares, hholds⟩
    obtain ⟨s, s', hresolves, helements⟩ := h.resolves
    obtain ⟨tests, htested, hlookups, hfinds⟩ := hresolves.lookups
    obtain ⟨test, htest, rfl⟩ := mem_map.mp (htested.mem_iff.mpr hpath)
    obtain ⟨owner, howner, -, association', hdeclares', hholds'⟩ := (hfinds test htest).collection
    rw [helements] at howner
    obtain rfl := mem_singleton.mp howner
    obtain rfl := hdeclares.unique hdeclares'
    rw [hholds.unique hholds']
    exact mem_map_of_mem (hlookups.mem_iff.mp (mem_map_of_mem htest))

variable (run)

theorem unlink_table {unlink : Unlink} (h : unlink ∈ run.unlinks) :
    unlink.table = run.root.entity.table := by
  have hchain := (run.unlinking.chain run.valid_afterRoot).1
  exact Option.some.inj (hchain.resolves _ (mem_map_of_mem h)).1

/-- The condition of each statement is one of those that the delete was resolved
to. -/
theorem exists_renders {statement : Statement} (h : statement ∈ run.lowered.statements) :
    ∃ found, run.Renders found ∧ statement.atoms = optionAtoms found
      ∧ ∀ {Row Value : Type} (engine : Engine Row Value) (database : Database Row),
        statement.selected engine database
          = restrict engine database run.root.entity.table found := by
  rcases mem_append.mp h with hunlink | hdelete
  · obtain ⟨unlink, hmem, rfl⟩ := mem_map.mp hunlink
    refine ⟨unlink.condition, run.renders _ (mem_append_left _ (mem_map_of_mem hmem)),
      rfl, fun engine database => ?_⟩
    rw [selected, run.unlink_table hmem]
  · obtain rfl := mem_singleton.mp hdelete
    exact ⟨run.condition, run.renders _ (mem_append_right _ (.head _)), rfl, fun _ _ => rfl⟩

theorem exists_link {unlink : Unlink} (h : unlink ∈ run.unlinks) :
    ∃ link ∈ run.root.entity.links, link.1 = unlink.linkTable := by
  refine ⟨(unlink.linkTable, unlink.keyColumn), ?_, rfl⟩
  rw [Entity.links, ← run.unlinking.links_eq]
  exact mem_map_of_mem h

/-- No statement is disturbed exactly if no collection is tested whose elements are
in the table of a many-to-many association of the entity. -/
theorem undisturbed_iff : Undisturbed run.lowered.statements
    ↔ ∀ link ∈ run.root.entity.links,
      ¬context.model.Tested run.root.entity delete.condition link.1 := by
  constructor
  · intro h link hlink htested
    rw [Entity.links, ← run.unlinking.links_eq] at hlink
    obtain ⟨unlink, hmem, rfl⟩ := mem_map.mp hlink
    have hlast := (pairwise_append.mp h).2.2 _ (mem_map_of_mem hmem) _ (.head _)
    have hrenders := run.renders _ (mem_append_right _ (.head _))
    exact hlast unlink.linkTable rfl ((hrenders.mem_tables _).mpr htested)
  · intro h
    refine pairwise_of_forall_mem_list fun before hbefore later hlater table hlink htable => ?_
    obtain ⟨found, hrenders, hatoms, -⟩ := run.exists_renders hlater
    rw [hatoms, hrenders.mem_tables] at htable
    rcases mem_append.mp hbefore with hunlink | hdelete
    · obtain ⟨unlink, hmem, rfl⟩ := mem_map.mp hunlink
      obtain rfl := Option.some.inj hlink
      obtain ⟨link, hlinks, heq⟩ := run.exists_link hmem
      exact h link hlinks (heq ▸ htable)
    · rw [mem_singleton.mp hdelete] at hlink
      cases hlink

/-- When the tables of the many-to-many associations are none that the statements
read, each of them selects the rows that any of them would have selected at the
start. -/
theorem selections_eq {Row Value : Type} (engine : Engine Row Value) (database : Database Row)
    (hlinks : ∀ link ∈ run.root.entity.links, link.1 ≠ run.root.entity.table
      ∧ ¬context.model.Tested run.root.entity delete.condition link.1) :
    ∀ rows ∈ Statement.selections engine database run.lowered.statements,
      ∀ statement ∈ run.lowered.statements, rows = statement.selected engine database := by
  let kept (table : String) : Prop := table = run.root.entity.table
    ∨ context.model.Tested run.root.entity delete.condition table
  have hunlinks : ∀ unlink ∈ run.unlinks, ¬kept unlink.linkTable := by
    intro unlink hmem
    obtain ⟨link, hlink, heq⟩ := run.exists_link hmem
    rw [← heq]
    exact not_or.mpr (hlinks link hlink)
  have hlocal : ∀ statement ∈ run.lowered.statements, ∀ {other : Database Row},
      (∀ table, kept table → other table = database table) →
        statement.selected engine other = statement.selected engine database := by
    intro statement hstatement other hagree
    obtain ⟨found, hrenders, -, hselected⟩ := run.exists_renders hstatement
    rw [hselected, hselected]
    refine restrict_congr (hagree _ (.inl rfl)) fun lookup hlookup => hagree _ (.inr ?_)
    refine (hrenders.mem_tables _).mp (mem_map_of_mem ?_)
    exact mem_filterMap.mpr ⟨_, hlookup, rfl⟩
  intro rows hrows statement hstatement
  have hselections : Statement.selections engine database run.lowered.statements
      = run.lowered.statements.map (Statement.selected engine database) :=
    Statement.selections_eq hunlinks hlocal fun _ _ => rfl
  rw [hselections] at hrows
  obtain ⟨other, hother, rfl⟩ := mem_map.mp hrows
  obtain ⟨found, hrenders, -, hselected⟩ := run.exists_renders hstatement
  obtain ⟨found', hrenders', -, hselected'⟩ := run.exists_renders hother
  rw [hselected, hselected', restrict_bare (hrenders.bare_eq hrenders')]

end Lowered.DeleteRun

namespace Plan

variable {compiler : Compiler} {identifier query : String}
  {substitutions : List (String × String)} {plan : Plan}

/-- The statements of a delete read exactly the tables of the collections that its
condition tests. None is disturbed by another exactly if no table of a many-to-many
association of the entity is among those. Then all statements select the same rows,
in every database and whatever an engine makes of the values, unless such a table is
that of the entity itself. -/
theorem compile_cleanup_undisturbed
    (h : compile compiler identifier query substitutions = .ok plan) (hkind : plan.kind = .delete) :
    ∃ text delete entity lowered, substituted substitutions query = .ok text
      ∧ parsed text = .ok (.delete delete)
      ∧ compiler.model.entity delete.entity = .ok entity
      ∧ lower compiler text (.delete delete) = .ok lowered
      ∧ plan = ofLowered compiler identifier query lowered
      ∧ (∀ statement ∈ lowered.statements, ∀ table, table ∈ Atom.tables statement.atoms
        ↔ compiler.model.Tested entity delete.condition table)
      ∧ (Undisturbed lowered.statements
        ↔ ∀ link ∈ entity.links, ¬compiler.model.Tested entity delete.condition link.1)
      ∧ (Undisturbed lowered.statements →
        (∀ link ∈ entity.links, link.1 ≠ entity.table) →
        ∀ {Row Value : Type} (engine : Engine Row Value) (database : Database Row),
          ∀ rows ∈ selections engine database lowered.statements,
            ∀ statement ∈ lowered.statements, rows = statement.selected engine database) := by
  obtain ⟨text, delete, run, htext, hparsed, hlower, rfl⟩ := exists_deleteRun_of_compile h hkind
  refine ⟨text, delete, run.root.entity, _, htext, hparsed, run.entity_eq, hlower, rfl, ?_,
    run.undisturbed_iff, ?_⟩
  · intro statement hstatement table
    obtain ⟨found, hrenders, hatoms, -⟩ := run.exists_renders hstatement
    rw [hatoms]
    exact hrenders.mem_tables table
  · intro hundisturbed htables Row Value engine database
    have htested := run.undisturbed_iff.mp hundisturbed
    exact run.selections_eq engine database fun link hlink =>
      ⟨htables link hlink, htested link hlink⟩

end Plan

namespace Sample

/-- Computes with numbers, of which one is true and zero is false. -/
def engine : Engine (List (String × Nat)) Nat where
  column row name := (row.lookup name).getD 0
  assign row name value := (name, value) :: row
  parameter _ := 0
  literal _ := 0
  negate value := value
  not value := 1 - value
  logical op left right := match op with
    | .and => min left right
    | .or => max left right
  compare _ left right := (left == right).toNat
  arithmetic _ left right := left + right
  concat _ := 0
  like _ _ _ _ := 0
  inList value items negated := (items.contains value != negated).toNat
  between _ _ _ _ := 0
  isNull _ negated := negated.toNat
  areNull _ negated := negated.toNat
  call _ _ := 0
  aggregate _ _ _ := 0
  truth := Bool.toNat
  sameKey := (· == ·)
  accepts := (· == 1)

/-- Two persons, the first of them with a tag. -/
def database : Database (List (String × Nat))
  | "person" => [[("id", 1)], [("id", 2)]]
  | "person_tag" => [[("person_id", 1), ("tag_id", 7)]]
  | _ => []

end Sample

namespace Plan

/-- A condition on the orders, which no statement removes. -/
theorem compile_cleanup_undisturbed_orders : ∃ plan lowered,
    compile compiler "d" "delete from Person p where p.orders is empty" [] = .ok plan
      ∧ plan.kind = .delete
      ∧ plan = ofLowered compiler "d" "delete from Person p where p.orders is empty" lowered
      ∧ Undisturbed lowered.statements
      ∧ selections engine database lowered.statements
        = [[[("id", 1)], [("id", 2)]], [[("id", 1)], [("id", 2)]]]
      ∧ ∀ rows ∈ selections engine database lowered.statements,
        ∀ statement ∈ lowered.statements,
          rows = statement.selected engine database := by
  obtain ⟨text, statement, computed, htext, hparsed, hlower, hkind, hundisturbed, hselections⟩ :=
    exists_lowered_of_any (show Lowers compiler "delete from Person p where p.orders is empty" []
      (fun lowered => lowered.kind = .delete ∧ Undisturbed lowered.statements
        ∧ selections engine database lowered.statements
          = [[[("id", 1)], [("id", 2)]], [[("id", 1)], [("id", 2)]]]) = true by decide +kernel)
  have hplan : compile compiler "d" "delete from Person p where p.orders is empty" []
      = .ok _ := (compile_eq htext hparsed).trans (bind_eq_ok.mpr ⟨computed, hlower, rfl⟩)
  obtain ⟨text', delete, entity, lowered, htext', hparsed', hentity, hlower', -, -, -, hselected⟩ :=
    compile_cleanup_undisturbed hplan hkind
  obtain rfl := Except.ok.inj (htext.symm.trans htext')
  obtain rfl := Except.ok.inj (hparsed.symm.trans hparsed')
  obtain rfl := Except.ok.inj (hlower.symm.trans hlower')
  have htables : ∀ entity ∈ model.entities, ∀ link ∈ entity.links, link.1 ≠ entity.table := by
    decide
  exact ⟨_, computed, hplan, hkind, rfl, hundisturbed, hselections,
    hselected hundisturbed (htables entity (Metamodel.mem_entities hentity)) _ _⟩

/-- The tags of a person are gone when the persons with tags are to be deleted, so
the person stays. -/
theorem tagged_person_stays : ∃ plan lowered,
    compile compiler "d" "delete from Person p where p.tags is not empty" [] = .ok plan
      ∧ plan = ofLowered compiler "d" "delete from Person p where p.tags is not empty" lowered
      ∧ ¬Undisturbed lowered.statements
      ∧ selections engine database lowered.statements
        = [[[("id", 1)]], []] :=
  exists_plan_of_any (by decide +kernel)

end Plan

end EntityQuery
