import EntityQuery.Proofs.Plan.Filters
import EntityQuery.Proofs.Scope.Conditions

/-!
# Templates in normal form

No text in a template is empty, and no two texts stand side by side: these are
the templates that stay as they are with the empty one behind them
(`normal_iff`). So what templates are put together to is in normal form where the
last of them is, whatever stands before it. Terms make such templates whatever
they are, and so do the conditions of filters.
-/

namespace EntityQuery

open List Sql

/-- No text is empty, and no two stand side by side. What is not a text is
`none`. -/
structure NormalTexts (texts : List (Option String)) : Prop where
  nonempty : some "" ∉ texts
  apart : texts.IsChain fun first second => first = none ∨ second = none

namespace Sql

def Piece.text? : Piece → Option String
  | .text sql => some sql
  | .slot _ => none

namespace Template

variable {template : Template}

def Normal (template : Template) : Prop :=
  NormalTexts (template.pieces.map Piece.text?)

theorem normal_empty : ({} : Template).Normal :=
  ⟨not_mem_nil, .nil⟩

theorem normal_cons {piece : Piece} {rest : List Piece} : Normal ⟨piece :: rest⟩
    ↔ Piece.text? piece ≠ some ""
      ∧ (∀ next ∈ (rest.map Piece.text?).head?, piece.text? = none ∨ next = none)
      ∧ Normal ⟨rest⟩ := by
  constructor
  · rintro ⟨hnonempty, hapart⟩
    obtain ⟨hpiece, hrest⟩ := not_or.mp (mt mem_cons.mpr hnonempty)
    obtain ⟨hnext, hapart⟩ := isChain_cons.mp hapart
    exact ⟨Ne.symm hpiece, hnext, hrest, hapart⟩
  · rintro ⟨hpiece, hnext, hrest, hapart⟩
    exact ⟨mt mem_cons.mp (not_or.mpr ⟨Ne.symm hpiece, hrest⟩), isChain_cons.mpr ⟨hnext, hapart⟩⟩

theorem normal_prepend (piece : Piece) {pieces : List Piece} (h : Normal ⟨pieces⟩) :
    Normal ⟨prepend piece pieces⟩ := by
  match piece, pieces with
  | .slot slot, pieces => exact normal_cons.mpr ⟨(Option.some_ne_none _).symm, fun _ _ => .inl rfl, h⟩
  | .text first, .text second :: rest =>
    simp_all [prepend, normal_cons, Piece.text?]
  | .text first, [] | .text first, .slot slot :: rest =>
    by_cases hfirst : first = ""
    · rwa [hfirst, prepend_empty]
    · simp [prepend, hfirst, normal_cons, h, Piece.text?]

theorem prepend_of_normal {piece : Piece} {rest : List Piece} (h : Normal ⟨piece :: rest⟩) :
    prepend piece rest = piece :: rest := by
  rw [normal_cons] at h
  match piece, rest with
  | .slot slot, rest => rfl
  | .text first, .text second :: rest => simp [Piece.text?] at h
  | .text first, [] | .text first, .slot slot :: rest =>
    exact if_neg fun hfirst => h.1 (congrArg some hfirst)

/-- A template is in normal form where nothing changes when its texts are merged. -/
theorem normal_iff : template.Normal ↔ template ++ {} = template := by
  obtain ⟨pieces⟩ := template
  constructor
  · intro h
    refine congrArg Template.mk ?_
    induction pieces with
    | nil => rfl
    | cons piece rest ih =>
      have hrest : rest.foldr prepend [] = rest := ih (normal_cons.mp h).2.2
      exact (congrArg _ hrest).trans (prepend_of_normal h)
  · intro h
    rw [← h]
    clear h
    induction pieces with
    | nil => exact normal_empty
    | cons piece rest ih => exact normal_prepend piece ih

theorem Normal.append (h : template.Normal) (before : Template) : (before ++ template).Normal :=
  normal_iff.mpr (by rw [append_assoc, normal_iff.mp h])

theorem normal_text (sql : String) : (text sql).Normal :=
  normal_prepend _ normal_empty

theorem normal_join {separator : String} : ∀ {templates : List Template},
    (∀ template ∈ templates, template.Normal) → (join separator templates).Normal
  | [], _ => normal_empty
  | [_], h => forall_mem_singleton.mp h
  | _ :: _ :: _, h => .append (normal_join (forall_mem_cons.mp h).2) _

/-! ## The text of joined templates -/

theorem spell_text (spelling : Slot → String) (sql : String) : (text sql).spell spelling = sql := by
  rw [spell, text, spellPieces_prepend, spellPieces, spellPieces, String.append_empty]

theorem spell_join (spelling : Slot → String) (separator : String) :
    ∀ templates : List Template, (join separator templates).spell spelling
      = separator.intercalate (templates.map (spell spelling))
  | [] => rfl
  | [_] => String.intercalate_singleton.symm
  | first :: second :: rest => by
    rw [join, spell_append, spell_append, spell_text, spell_join spelling separator (second :: rest),
      map_cons, map_cons, map_cons, String.intercalate_cons_cons]
    intro h
    cases h

/-- What templates are put together to says what they say, in their order, and
takes the same parameters. -/
structure Laws (dialect : Dialect) : Prop where
  assoc : ∀ first second third : Template, first ++ second ++ third = first ++ (second ++ third)
  identity : ∀ template : Template, template.Normal → {} ++ template = template
    ∧ template ++ {} = template
  append : ∀ first second : Template, (first ++ second).slots = first.slots ++ second.slots
    ∧ ∀ spelling, (first ++ second).spell spelling = first.spell spelling ++ second.spell spelling
  wrap : ∀ before after template, (text before ++ template ++ text after).slots = template.slots
    ∧ ∀ spelling, (text before ++ template ++ text after).spell spelling
      = before ++ template.spell spelling ++ after
  join : ∀ separator templates, (join separator templates).slots = templates.flatMap slots
    ∧ ∀ spelling, (join separator templates).spell spelling
      = separator.intercalate (templates.map (spell spelling))
  concat : ∀ templates, (concatenated dialect templates).slots = templates.flatMap slots
    ∧ ∀ spelling, (concatenated dialect templates).spell spelling
      = dialect.concat (templates.map (spell spelling))

theorem laws (dialect : Dialect) : Laws dialect where
  assoc := append_assoc
  identity template h := ⟨empty_append template, normal_iff.mp h⟩
  append first second := ⟨slots_append .., fun _ => spell_append ..⟩
  wrap before after template := ⟨by simp, fun _ => by simp [spell_text]⟩
  join separator templates := ⟨slots_join .., fun _ => spell_join ..⟩
  concat templates := ⟨by simp [concatenated], fun _ => by
    simp [concatenated, spell_text, spell_join, Dialect.concat]⟩

end Template

/-! ## Terms and statements -/

open Template

theorem Term.normal_template (dialect : Dialect) : ∀ term : Term, (term.template dialect).Normal
  | .literal _ | .column _ | .areNull _ _ | .noneFound _ _ | .aggregate _ _ none => normal_text _
  | .slot parameter => normal_prepend (.slot parameter) normal_empty
  | .group _ | .concat _ | .inList _ _ _ | .isNull _ _ | .call _ _ | .aggregate _ _ (some _) =>
    .append (normal_text _) _
  | .negate inner | .not inner => .append (inner.normal_template dialect) _
  | .logical _ _ right | .compare _ _ right | .arithmetic _ _ right | .like _ right none _
  | .like _ _ (some right) _ | .between _ _ right _ => .append (right.normal_template dialect) _

/-- The templates that a statement is put together from. -/
def Statement.parts (dialect : Dialect) : Statement → List Template
  | .select statement =>
    let joins := statement.ranges.flatMap (·.joins)
    joins.flatMap (·.conditions.map (·.template dialect)) ++ joins.map (·.template dialect)
      ++ statement.ranges.map (·.template dialect) ++ statement.columns.map (·.template dialect)
      ++ statement.filters ++ (statement.restriction dialect).toList
      ++ statement.orderBy.map (orderTemplate dialect)
  | .update statement => statement.assignments.map fun assignment =>
    text (assignment.1.text ++ " = ") ++ assignment.2.template dialect
  | .unlink _ | .delete _ => []

section Parts

variable {dialect : Dialect}

theorem JoinedTable.normal_template {joined : JoinedTable}
    (h : ∀ condition ∈ joined.conditions, (condition.template dialect).Normal) :
    (joined.template dialect).Normal :=
  .append (normal_join (forall_mem_map.mpr fun condition hcondition =>
    (h condition hcondition).append _)) _

theorem TableRange.normal_template {range : TableRange}
    (h : ∀ joined ∈ range.joins, (joined.template dialect).Normal) :
    (range.template dialect).Normal :=
  .append (normal_join (forall_mem_map.mpr h)) _

theorem normal_clause {intro : String} {template : Option Template}
    (h : ∀ found ∈ template, found.Normal) : (clause intro template).Normal := by
  cases template with
  | none => exact normal_empty
  | some found => exact (h found rfl).append _

theorem normal_listClause {intro : String} {templates : List Template}
    (h : ∀ template ∈ templates, template.Normal) : (listClause intro templates).Normal := by
  cases templates with
  | nil => exact normal_empty
  | cons first rest => exact (normal_join h).append _

theorem normal_whereClause (condition : Option Term) : (whereClause dialect condition).Normal := by
  refine normal_clause fun found hfound => ?_
  obtain ⟨term, -, rfl⟩ := Option.map_eq_some_iff.mp hfound
  exact term.normal_template dialect

/-- The conditions of filters in a select are in normal form. -/
structure Select.NormalFilters (dialect : Dialect) (select : Select) : Prop where
  joined : ∀ joined ∈ select.ranges.flatMap (·.joins), ∀ condition ∈ joined.conditions,
    (condition.template dialect).Normal
  rows : ∀ template ∈ select.filters, template.Normal

theorem Select.normal_restriction {select : Select}
    (h : ∀ template ∈ select.filters, template.Normal) :
    ∀ template ∈ select.restriction dialect, template.Normal := by
  intro template htemplate
  unfold restriction at htemplate
  split at htemplate
  · cases htemplate
  · obtain rfl := Option.some.inj htemplate
    exact Term.normal_template ..
  · obtain rfl := Option.some.inj htemplate
    exact normal_join h
  · obtain rfl := Option.some.inj htemplate
    exact (normal_join h).append _

/-- A statement and all that it is put together from is in normal form where the
conditions of filters in it are. -/
theorem Statement.normal_parts {statement : Statement}
    (h : ∀ select, statement = .select select → select.NormalFilters dialect) :
    ∀ template ∈ statement.template dialect :: statement.parts dialect, template.Normal := by
  cases statement with
  | select select =>
    obtain ⟨hjoined, hrows⟩ := h select rfl
    have horder : ∀ item ∈ select.orderBy, (orderTemplate dialect item).Normal :=
      fun item _ => (normal_text _).append _
    have hjoins : ∀ joined ∈ select.ranges.flatMap (·.joins), (joined.template dialect).Normal :=
      fun joined hmem => JoinedTable.normal_template (hjoined joined hmem)
    rw [forall_mem_cons, parts]
    simp only [forall_mem_append, forall_mem_map]
    refine ⟨(normal_listClause (forall_mem_map.mpr horder)).append _,
      ⟨⟨⟨⟨⟨?_, hjoins⟩, ?_⟩, fun column _ => (normal_text _).append _⟩, hrows⟩, ?_⟩, horder⟩
    · exact forall_mem_flatMap.mpr fun joined hmem => forall_mem_map.mpr (hjoined joined hmem)
    · exact fun range hrange => TableRange.normal_template fun joined hmem =>
        hjoins joined (mem_flatMap.mpr ⟨range, hrange, hmem⟩)
    · simpa using Select.normal_restriction hrows
  | update update =>
    refine forall_mem_cons.mpr ⟨(normal_whereClause _).append _, forall_mem_map.mpr ?_⟩
    exact fun assignment _ => (assignment.2.normal_template dialect).append _
  | unlink unlink => exact forall_mem_singleton.mpr ((normal_text _).append _)
  | delete delete => exact forall_mem_singleton.mpr ((normal_whereClause _).append _)

end Parts

end Sql

/-! ## Plans -/

theorem Element.normal_filters {enabled : EnabledFilters} {element : Element}
    {filters : List Template} (h : element.filters enabled = .ok filters) :
    ∀ template ∈ filters, template.Normal := by
  intro template htemplate
  obtain ⟨filter, -, hfilter⟩ := exists_left_of_forall₂ (mapM_eq_ok_iff.mp h) htemplate
  obtain ⟨pieces, -, hfilter⟩ := bind_eq_ok.mp hfilter
  obtain rfl := Except.ok.inj hfilter
  exact Template.normal_empty.append ⟨pieces⟩

theorem Lowered.SelectRun.normalFilters {context : Context} {select : Query.Select}
    (run : SelectRun context select) (dialect : Dialect) : run.sql.NormalFilters dialect := by
  obtain ⟨tables, hentries, hfilters, hfiltered, hrooted⟩ := Scope.filtered_eq_ok run.filterRun
  have hnormal : ∀ table ∈ tables, ∀ template ∈ table.filters, template.Normal :=
    fun table htable => Element.normal_filters (hfilters table htable)
  constructor
  · intro joined hjoined condition hcondition
    have hmem := run.valid_filtered.ranges_joins_perm.mem_iff.mp hjoined
    rw [hfiltered, flatMap_map] at hmem
    obtain ⟨table, htable, hjoined⟩ := mem_flatMap.mp hmem
    rcases ScopeEntry.mem_conditions_restrict hjoined hcondition with
      ⟨old, hold, hcondition⟩ | ⟨hnew, -⟩
    · obtain ⟨marks, haccounted, -⟩ := run.exists_marks
      obtain ⟨mark, -, hmark⟩ := exists_right_of_forall₂ haccounted
        (hentries ▸ mem_map_of_mem htable)
      obtain ⟨term, rfl, -⟩ := hmark.unfiltered old hold condition hcondition
      exact term.normal_template dialect
    · obtain ⟨template, htemplate, rfl⟩ := mem_map.mp hnew
      exact hnormal table htable template htemplate
  · intro template htemplate
    rw [show run.sql.filters = _ from hrooted] at htemplate
    obtain ⟨table, htable, htemplate⟩ := mem_flatMap.mp htemplate
    unfold FilteredEntry.rooted at htemplate
    split at htemplate
    · exact hnormal table htable template htemplate
    · cases htemplate

def Fragment.text? : Fragment → Option String
  | .text sql => some sql
  | .placeholder _ => none

theorem Fragment.texts_number : ∀ (pieces : List Piece) (start : Nat),
    (number start pieces).map text? = pieces.map Piece.text?
  | [], _ => rfl
  | .text sql :: rest, start => congrArg (some sql :: ·) (texts_number rest start)
  | .slot _ :: rest, start => congrArg (none :: ·) (texts_number rest (start + 1))

namespace Plan

variable {compiler : Compiler} {identifier query : String}
  {substitutions : List (String × String)} {plan : Plan}

theorem normal_of_lowered {context : Context} {statement : Query.Statement} {lowered : Lowered}
    {s : Scope} (h : (Lowered.ofStatement context statement).run {} = .ok (lowered, s))
    (dialect : Dialect) : ∀ written ∈ lowered.statements,
      ∀ template ∈ written.template dialect :: written.parts dialect, template.Normal := by
  have hbulk : (∀ written ∈ lowered.statements, ∀ select, written ≠ .select select) →
      ∀ written ∈ lowered.statements,
        ∀ template ∈ written.template dialect :: written.parts dialect, template.Normal :=
    fun h written hwritten => Statement.normal_parts fun select hselect =>
      (h written hwritten select hselect).elim
  cases statement with
  | select select =>
    obtain ⟨run, rfl, -⟩ := Lowered.exists_selectRun h
    refine forall_mem_singleton.mpr (Statement.normal_parts fun select hselect => ?_)
    obtain rfl := Statement.select.inj hselect
    exact run.normalFilters dialect
  | update update => exact hbulk (Lowered.ofUpdate_run h).manipulates
  | delete delete => exact hbulk (Lowered.ofDelete_run h).manipulates

/-- All templates of a plan and the fragments of its statements are in normal
form, and putting templates together loses nothing. -/
theorem compile_normalForm (h : compile compiler identifier query substitutions = .ok plan) :
    (∀ term : Term, (term.template compiler.dialect).Normal)
      ∧ (∃ text statement lowered s, substituted substitutions query = .ok text
        ∧ parsed text = .ok statement
        ∧ (Lowered.ofStatement (compiler.context text) statement).run {} = .ok (lowered, s)
        ∧ plan = ofLowered compiler identifier query lowered
        ∧ ∀ written ∈ lowered.statements, ∀ template ∈ written.template compiler.dialect
          :: written.parts compiler.dialect, template.Normal)
      ∧ (∀ planned ∈ plan.statements, NormalTexts (planned.fragments.map Fragment.text?))
      ∧ Template.Laws compiler.dialect := by
  obtain ⟨text, statement, lowered, s, htext, hparsed, hrun, rfl⟩ := compile_eq_ok h
  have hnormal := normal_of_lowered hrun compiler.dialect
  refine ⟨Term.normal_template _, ⟨text, statement, lowered, s, htext, hparsed, hrun, rfl, hnormal⟩,
    ?_, Template.laws _⟩
  intro planned hplanned
  obtain ⟨written, hwritten, first, rfl⟩ := exists_left_of_forall₂
    (PlannedStatement.forall₂_ofTemplates compiler.dialect lowered.statements 0) hplanned
  show NormalTexts ((Fragment.number first _).map Fragment.text?)
  rw [Fragment.texts_number]
  exact hnormal written hwritten _ (.head _)

theorem compile_normalForm_concat : ∃ plan,
    compile Sample.compiler "q"
        "select concat(o.customer.name, :mark) from Person p left join p.orders o" [] = .ok plan
      ∧ ∀ planned ∈ plan.statements, NormalTexts (planned.fragments.map Fragment.text?) := by
  exact exists_ok_and (fun _ => True) (by decide +kernel)
    fun plan hplan _ => (compile_normalForm hplan).2.2.1

end Plan

end EntityQuery
