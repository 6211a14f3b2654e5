import Mathlib.Data.List.Infix
import EntityQuery.Proofs.Scoped
import EntityQuery.Proofs.Sql.Template
import EntityQuery.Scope.Filter

/-!
# What becomes of the condition of a filter

`Filter.Renders` says what the condition of a filter has to be in a statement:
its text with every `{alias}` replaced, in which each `:name` is a parameter of
the filter and all else stands as it was. A condition that can be written at all
is written like that (`renders_of_template`).

Both halves are said without the scanner: `Filled` is about splitting at
`{alias}`, and `names` looks for a `:name` at every position of the text.
-/

namespace EntityQuery

open List Sql FilterPiece Filter

namespace Text

variable {text word : List Char} {fault : MappingFault}

theorem append_of_splitWord? {rest : List Char} (h : splitWord? text = some (word, rest)) :
    word ++ rest = text := by
  cases text with
  | nil => cases h
  | cons first tail =>
    rw [splitWord?] at h
    split at h
    · obtain ⟨rfl, rfl⟩ := Prod.mk.inj (Option.some.inj h)
      rw [cons_append, takeWhile_append_dropWhile]
    · cases h

theorem colon_notMem_of_splitWord? {rest : List Char} (h : splitWord? text = some (word, rest)) :
    ':' ∉ word := by
  cases text with
  | nil => cases h
  | cons first tail =>
    rw [splitWord?] at h
    split at h
    · rename_i hfirst
      obtain ⟨rfl, rfl⟩ := Prod.mk.inj (Option.some.inj h)
      rintro (_ | ⟨_, htail⟩)
      · exact absurd hfirst (by decide)
      · exact absurd (all_eq_true.mp all_takeWhile ':' htail) (by decide)
    · cases h

end Text

namespace Filter

/-! ## The names in a text -/

/-- The name after a `:` that the text starts with. -/
def name? : List Char → Option (List Char)
  | ':' :: rest => (Text.splitWord? rest).map (·.1)
  | _ => none

/-- All names that stand after a `:`, wherever in the text. -/
def names (text : List Char) : List (List Char) :=
  text.tails.filterMap name?

theorem names_cons (c : Char) (rest : List Char) :
    names (c :: rest) = (name? (c :: rest)).toList ++ names rest := by
  rw [names, tails_cons, filterMap_cons]
  cases name? (c :: rest) <;> rfl

theorem names_append (h : ':' ∉ word) (rest : List Char) : names (word ++ rest) = names rest := by
  induction word with
  | nil => rfl
  | cons c word ih =>
    obtain ⟨hc, hword⟩ := not_or.mp fun hor => h (mem_cons.mpr hor)
    have hnone : name? (c :: (word ++ rest)) = none := by
      unfold name?
      split
      · rename_i heq
        exact absurd (List.cons.inj heq).1.symm hc
      · rfl
    rw [cons_append, names_cons, hnone, ih hword]
    rfl

end Filter

namespace FilterPiece

def parameter? : FilterPiece → Option (List Char)
  | .plain _ => none
  | .parameter name => some name

/-- The first piece takes its own text and its own name. -/
theorem next_eq (c : Char) (rest : List Char) :
    (next c rest).1.chars ++ (next c rest).2 = c :: rest
      ∧ names (c :: rest)
        = (next c rest).1.parameter?.toList ++ names (next c rest).2 := by
  unfold next
  split
  · rename_i hc
    subst hc
    have hname : name? (':' :: rest) = (Text.splitWord? rest).map (·.1) := rfl
    split
    · rename_i name after hsplit
      have happend := Text.append_of_splitWord? hsplit
      refine ⟨congrArg (':' :: ·) happend, ?_⟩
      rw [names_cons, hname, hsplit, ← happend,
        names_append (Text.colon_notMem_of_splitWord? hsplit)]
      rfl
    · rename_i hsplit
      refine ⟨rfl, ?_⟩
      rw [names_cons, hname, hsplit]
      rfl
  · rename_i hc
    have hnotMem : ':' ∉ [c] := fun h => hc (mem_singleton.mp h).symm
    exact ⟨rfl, names_append hnotMem rest⟩

theorem flatMap_chars_scan (text : List Char) : (scan text).flatMap chars = text := by
  fun_induction scan text with
  | case1 => rfl
  | case2 c rest ih => rw [flatMap_cons, ih, (next_eq c rest).1]

theorem filterMap_parameter?_scan (text : List Char) :
    (scan text).filterMap parameter? = names text := by
  fun_induction scan text with
  | case1 => rfl
  | case2 c rest ih =>
    rw [(next_eq c rest).2, ← ih, filterMap_cons]
    cases (next c rest).1.parameter? <;> rfl

end FilterPiece

namespace Filter

variable {template : Template} {name : List Char}

/-! ## The alias in a text -/

/-- What gives way to the alias of the table. -/
def mark : List Char :=
  "{alias}".toList

/-- The text is the condition with the alias at every mark. -/
def Filled (tableAlias condition text : List Char) : Prop :=
  ∃ first rest, (∀ part ∈ first :: rest, ¬mark <:+: part)
    ∧ condition = mark.intercalate (first :: rest)
    ∧ text = tableAlias.intercalate (first :: rest)

theorem intercalate_cons_head (separator first : List Char) (c : Char) (rest : List (List Char)) :
    separator.intercalate ((c :: first) :: rest) = c :: separator.intercalate (first :: rest) := by
  cases rest with
  | nil => rfl
  | cons second rest => simp only [intercalate_cons_cons, cons_append]

theorem filled_fillAlias (tableAlias condition : List Char) :
    Filled tableAlias condition (fillAlias tableAlias condition) := by
  fun_induction fillAlias tableAlias condition with
  | case1 condition ih =>
    obtain ⟨first, rest, hparts, hcondition, htext⟩ := ih
    refine ⟨[], first :: rest, forall_mem_cons.mpr ⟨by decide, hparts⟩, ?_, ?_⟩
    · rw [intercalate_cons_cons, ← hcondition]
      rfl
    · rw [intercalate_cons_cons, ← htext]
      rfl
  | case2 c condition hnone ih =>
    obtain ⟨first, rest, hparts, hcondition, htext⟩ := ih
    obtain ⟨hfirst, hrest⟩ := forall_mem_cons.mp hparts
    refine ⟨c :: first, rest, forall_mem_cons.mpr ⟨?_, hrest⟩, ?_, ?_⟩
    · rw [infix_cons_iff, not_or]
      refine ⟨?_, hfirst⟩
      rintro ⟨after, hafter⟩
      -- A mark at the start of the part would stand at the start of the text.
      have hprefix : first <+: condition := by
        rw [hcondition]
        cases rest with
        | nil => exact ⟨[], by simp⟩
        | cons second rest =>
          rw [intercalate_cons_cons, append_assoc]
          exact prefix_append ..
      obtain ⟨more, rfl⟩ := hprefix
      obtain ⟨rfl, rfl⟩ := List.cons.inj hafter
      exact hnone (after ++ more) rfl rfl
    · rw [intercalate_cons_head, ← hcondition]
    · rw [intercalate_cons_head, ← htext]
  | case3 =>
    exact ⟨[], [], forall_mem_singleton.mpr (by decide), rfl, rfl⟩

/-! ## The condition in a statement -/

/-- A parameter as it stands in the condition of a filter. -/
def written (slot : Slot) : String :=
  match slot.source with
  | .filter _ name => ":" ++ name
  | source => source.text

/-- The parameter that a name in the condition stands for. -/
structure Declares (filter : Filter) (name : List Char) (slot : Slot) : Prop where
  source_eq : slot.source = .filter filter.name (String.ofList name)
  type_eq : filter.parameters.lookup (String.ofList name) = some slot.type
  single : slot.expandable = false

def Renders (tableAlias : String) (filter : Filter) (template : Template) : Prop :=
  ∃ text, Filled tableAlias.toList filter.condition.toList text
    ∧ template.spell written = String.ofList text
    ∧ List.Forall₂ filter.Declares (names text) template.slots

theorem spellPieces_of_forall₂ {entity : Entity} {filter : Filter} {scanned : List FilterPiece}
    {pieces : List Piece}
    (h : List.Forall₂ (fun piece found => filter.piece entity piece = .ok found) scanned pieces) :
    Template.spellPieces written pieces = String.ofList (scanned.flatMap chars)
      ∧ List.Forall₂ filter.Declares (scanned.filterMap parameter?) (Template.slots ⟨pieces⟩) := by
  induction h with
  | nil => exact ⟨rfl, .nil⟩
  | @cons piece found scanned pieces hpiece _ ih =>
    obtain ⟨htext, hslots⟩ := ih
    rw [flatMap_cons, String.ofList_append, ← htext]
    cases piece with
    | plain c =>
      obtain rfl := Except.ok.inj hpiece
      exact ⟨rfl, hslots⟩
    | parameter name =>
      rw [piece] at hpiece
      split at hpiece
      · rename_i type htype
        obtain rfl := Except.ok.inj hpiece
        refine ⟨?_, .cons ⟨rfl, htype, rfl⟩ hslots⟩
        rw [Template.spellPieces, chars, String.ofList_cons]
        rfl
      · cases hpiece

theorem renders_of_template {entity : Entity} {filter : Filter} {tableAlias : String}
    (h : filter.template entity tableAlias = .ok template) :
    filter.Renders tableAlias template := by
  obtain ⟨pieces, hpieces, h⟩ := bind_eq_ok.mp h
  obtain rfl := Except.ok.inj h
  obtain ⟨htext, hslots⟩ := spellPieces_of_forall₂ (mapM_eq_ok_iff.mp hpieces)
  -- Merging the texts of neighbours is putting the empty template behind them.
  have hmerged : (⟨pieces.foldr Template.prepend []⟩ : Template) = ⟨pieces⟩ ++ {} := rfl
  refine ⟨_, filled_fillAlias tableAlias.toList filter.condition.toList, ?_, ?_⟩
  · rw [hmerged, Template.spell_append, Template.spell_empty, String.append_empty,
      Template.spell, htext, flatMap_chars_scan]
  · rwa [hmerged, Template.slots_append, Template.slots_empty, append_nil,
      ← filterMap_parameter?_scan]

theorem Renders.filterSlots_eq {filter : Filter} (h : filter.Renders tableAlias template) :
    template.filterSlots = template.slots := by
  obtain ⟨text, -, -, hslots⟩ := h
  refine filter_eq_self.mpr fun slot hslot => ?_
  obtain ⟨name, -, hdeclares⟩ := exists_left_of_forall₂ hslots hslot
  rw [hdeclares.source_eq]
  rfl

/-! ## Conditions that cannot be written -/

/-- The names in the condition do not depend on the alias of the table. -/
def Steady (filter : Filter) : Prop :=
  ∀ tableAlias other : List Char, names (fillAlias tableAlias filter.condition.toList)
    = names (fillAlias other filter.condition.toList)

theorem mem_names_iff : name ∈ names text ↔ parameter name ∈ scan text := by
  rw [← filterMap_parameter?_scan, mem_filterMap]
  constructor
  · rintro ⟨piece, hpiece, hname⟩
    cases piece with
    | plain c => cases hname
    | parameter found =>
      obtain rfl := Option.some.inj hname
      exact hpiece
  · exact fun h => ⟨_, h, rfl⟩

variable {entity : Entity} {filter : Filter} {tableAlias other : String}

theorem declared_of_template (h : filter.template entity tableAlias = .ok template)
    (hname : name ∈ names (fillAlias tableAlias.toList filter.condition.toList)) :
    filter.parameters.lookup (String.ofList name) ≠ none := by
  obtain ⟨pieces, hpieces, -⟩ := bind_eq_ok.mp h
  obtain ⟨piece, -, hpiece⟩ :=
    exists_right_of_forall₂ (mapM_eq_ok_iff.mp hpieces) (mem_names_iff.mp hname)
  intro hnone
  rw [Filter.piece, hnone] at hpiece
  cases hpiece

/-- A condition that cannot be written has a name that is not declared. -/
theorem exists_undeclared (h : filter.template entity tableAlias = .error fault) :
    ∃ name ∈ names (fillAlias tableAlias.toList filter.condition.toList),
      filter.parameters.lookup (String.ofList name) = none
        ∧ fault = .defect entity.name (.undeclaredParameter filter.name (String.ofList name)) := by
  rcases bind_eq_error h with hpieces | ⟨pieces, -, hpieces⟩
  · obtain ⟨piece, hmem, hpiece⟩ := exists_error_of_mapM hpieces
    cases piece with
    | plain c => cases hpiece
    | parameter name =>
      refine ⟨name, mem_names_iff.mpr hmem, ?_⟩
      rw [piece] at hpiece
      split at hpiece
      · cases hpiece
      · exact ⟨‹_›, (Except.error.inj hpiece).symm⟩
  · cases hpieces

/-- A condition that can be written for one table and not for another one of the
same entity depends on the alias. -/
theorem not_steady_of_template (hok : filter.template entity tableAlias = .ok template)
    (herror : filter.template entity other = .error fault) : ¬filter.Steady := by
  intro hsteady
  obtain ⟨name, hname, hnone, -⟩ := exists_undeclared herror
  rw [hsteady other.toList tableAlias.toList] at hname
  exact declared_of_template hok hname hnone

end Filter

/-- The filters that restrict a table. -/
def EnabledFilters.on (enabled : EnabledFilters) (entity : Entity) : List Filter :=
  entity.filters.filter fun filter => enabled.isEnabled filter.name

/-- Each filter that is switched on for a table is rendered once. -/
theorem Element.renders_of_filters {enabled : EnabledFilters} {element : Element}
    {found : List Template} {tableAlias : String}
    (halias : element.tableAlias = some tableAlias) (h : element.filters enabled = .ok found) :
    List.Forall₂ (Renders tableAlias) (enabled.on element.entity) found := by
  rw [Element.filters, halias] at h
  exact (mapM_eq_ok_iff.mp h).imp fun _ _ => renders_of_template

/-- Filters that cannot be put on the tables of a scope have one that cannot be written. -/
theorem Scope.exists_template_error {enabled : EnabledFilters} {scope : Scope}
    (h : scope.filtered enabled = .error fault) :
    ∃ entry ∈ scope.entries, ∃ filter ∈ enabled.on entry.element.entity, ∃ tableAlias,
      filter.template entry.element.entity tableAlias = .error fault := by
  rcases bind_eq_error h with happlied | ⟨applied, -, happlied⟩
  · obtain ⟨entry, hentry, hentryFault⟩ := exists_error_of_mapM happlied
    have hfault : entry.element.filters enabled = .error fault := by
      rcases bind_eq_error hentryFault with hfilters | ⟨filters, -, hfilters⟩
      · exact hfilters
      · cases hfilters
    obtain ⟨filter, hfilter, htemplate⟩ := exists_error_of_mapM hfault
    exact ⟨entry, hentry, filter, hfilter, _, htemplate⟩
  · cases happlied

end EntityQuery
