import EntityQuery.Sql.Template

/-!
# The algebra of templates

Putting templates together is associative, whatever the texts that meet and
merge (`append_assoc`), and two readings of a template go through it: the
parameters in the order of the text (`slots_append`), and the text with
every parameter spelled out (`spell_append`). What a statement is written
from can so be followed into the finished statement.
-/

namespace EntityQuery

open List

/-- Whether the value comes from a filter and not from the query. -/
def ParameterSource.isFilter : ParameterSource → Bool
  | .filter _ _ => true
  | .named _ | .ordinal _ => false

namespace Sql.Template

def spellPieces (spelling : Slot → String) : List Piece → String
  | [] => ""
  | .text sql :: rest => sql ++ spellPieces spelling rest
  | .slot slot :: rest => spelling slot ++ spellPieces spelling rest

def spell (spelling : Slot → String) (template : Template) : String :=
  spellPieces spelling template.pieces

theorem append_pieces (first second : Template) :
    (first ++ second).pieces = first.pieces.foldr prepend second.pieces := rfl

/-! ## Texts that meet -/

theorem prepend_empty (pieces : List Piece) : prepend (.text "") pieces = pieces := by
  match pieces with
  | [] => rfl
  | .text sql :: rest => simp [prepend]
  | .slot slot :: rest => rfl

theorem prepend_text_prepend (first second : String) (pieces : List Piece) :
    prepend (.text first) (prepend (.text second) pieces)
      = prepend (.text (first ++ second)) pieces := by
  match pieces with
  | .text third :: rest => simp [prepend, String.append_assoc]
  | [] | .slot slot :: rest =>
    by_cases hsecond : second = "" <;> simp [prepend, hsecond]

/-- A piece may be put in front before or after the rest is put behind. -/
theorem foldr_prepend_prepend (piece : Piece) (pieces behind : List Piece) :
    (prepend piece pieces).foldr prepend behind
      = prepend piece (pieces.foldr prepend behind) := by
  match piece, pieces with
  | .slot slot, pieces => rfl
  | .text first, .text second :: rest =>
    exact (prepend_text_prepend first second (rest.foldr prepend behind)).symm
  | .text first, [] | .text first, .slot slot :: rest =>
    by_cases hfirst : first = ""
    · rw [hfirst, prepend_empty, prepend_empty]
    · simp [prepend, hfirst]

theorem append_assoc (a b c : Template) : a ++ b ++ c = a ++ (b ++ c) := by
  obtain ⟨pieces⟩ := a
  apply congrArg Template.mk
  simp only [append_pieces]
  induction pieces with
  | nil => rfl
  | cons piece rest ih => rw [foldr_cons, foldr_prepend_prepend, ih, foldr_cons]

theorem text_append_text (first second : String) :
    text first ++ text second = text (first ++ second) := by
  apply congrArg Template.mk
  rw [text, text, foldr_prepend_prepend]
  exact prepend_text_prepend first second []

@[simp] theorem empty_append (template : Template) : ({} : Template) ++ template = template :=
  rfl

theorem text_empty : text "" = {} := rfl

/-- A separator may be written in front of each further template. -/
theorem append_join (separator : String) : ∀ (before first : Template) (rest : List Template),
    before ++ join "" ((first :: rest).map (text separator ++ ·))
      = join separator (before :: first :: rest)
  | before, first, [] => (append_assoc ..).symm
  | before, first, second :: rest => by
    have ih := append_join separator first second rest
    simp only [map_cons, join, text_empty, append_assoc, empty_append] at ih ⊢
    rw [ih]

/-! ## The parameters of a template -/

theorem slots_mk_prepend (piece : Piece) (pieces : List Piece) :
    slots ⟨prepend piece pieces⟩ = slots ⟨piece :: pieces⟩ := by
  match piece, pieces with
  | .slot slot, pieces | .text first, .text second :: rest => rfl
  | .text first, [] | .text first, .slot slot :: rest =>
    by_cases hfirst : first = "" <;> simp [prepend, slots, hfirst]

@[simp] theorem slots_append (a b : Template) : (a ++ b).slots = a.slots ++ b.slots := by
  obtain ⟨pieces⟩ := a
  induction pieces with
  | nil => rfl
  | cons piece rest ih =>
    have hcons : (⟨piece :: rest⟩ ++ b : Template)
        = ⟨prepend piece (⟨rest⟩ ++ b : Template).pieces⟩ := rfl
    rw [hcons, slots_mk_prepend]
    cases piece with
    | text sql => exact ih
    | slot slot => exact congrArg (slot :: ·) ih

@[simp] theorem slots_text (sql : String) : (text sql).slots = [] := by
  rw [text, slots_mk_prepend]
  rfl

@[simp] theorem slots_slot (parameter : Slot) : (slot parameter).slots = [parameter] := rfl

@[simp] theorem slots_empty : ({} : Template).slots = [] := rfl

@[simp] theorem slots_join (separator : String) :
    ∀ templates : List Template, (join separator templates).slots = templates.flatMap slots
  | [] => rfl
  | [template] => by simp [join]
  | first :: second :: rest => by
    have ih := slots_join separator (second :: rest)
    simp only [join, slots_append, slots_text, append_nil, ih, flatMap_cons]

/-- The parameters of filters, in the order of the text. -/
def filterSlots (template : Template) : List Slot :=
  template.slots.filter (·.source.isFilter)

@[simp] theorem filterSlots_append (a b : Template) :
    (a ++ b).filterSlots = a.filterSlots ++ b.filterSlots := by
  simp [filterSlots]

@[simp] theorem filterSlots_text (sql : String) : (text sql).filterSlots = [] := by
  simp [filterSlots]

@[simp] theorem filterSlots_join (separator : String) (templates : List Template) :
    (join separator templates).filterSlots = templates.flatMap filterSlots := by
  rw [filterSlots, slots_join, filter_flatMap]
  rfl

/-! ## The text of a template -/

theorem spellPieces_prepend (spelling : Slot → String) (piece : Piece) (pieces : List Piece) :
    spellPieces spelling (prepend piece pieces) = spellPieces spelling (piece :: pieces) := by
  match piece, pieces with
  | .slot slot, pieces => rfl
  | .text first, .text second :: rest => simp [prepend, spellPieces, String.append_assoc]
  | .text first, [] | .text first, .slot slot :: rest =>
    by_cases hfirst : first = "" <;> simp [prepend, spellPieces, hfirst]

@[simp] theorem spell_append (spelling : Slot → String) (a b : Template) :
    (a ++ b).spell spelling = a.spell spelling ++ b.spell spelling := by
  obtain ⟨pieces⟩ := a
  simp only [spell, append_pieces]
  induction pieces with
  | nil => simp [spellPieces]
  | cons piece rest ih =>
    rw [foldr_cons, spellPieces_prepend]
    cases piece with
    | text sql | slot slot => simp only [spellPieces, ih, String.append_assoc]

@[simp] theorem spell_empty (spelling : Slot → String) : ({} : Template).spell spelling = "" :=
  rfl

end Sql.Template

end EntityQuery
