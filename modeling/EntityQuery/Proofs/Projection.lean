import Mathlib.Data.List.Nodup
import EntityQuery.Proofs.Loading
import EntityQuery.Proofs.Number.Digits
import EntityQuery.Proofs.Typing

/-!
# The select list and the layout of its rows

The select list grows by one returned value or one fetched association at a
time, and the layout grows with it. `Projection.Agrees` is what both keep:
the parts of the layout take up the columns one after the other without a
gap, each entity of the layout stands where its columns were put, and the
names of the columns are those of the parts, numbered through.

The names are all different (`nodup_labels`): a number is written with digits
only, so the parts of a name can be told apart again.
-/

namespace EntityQuery

open List Sql

open Sql (Atom)

variable {part : String} {columns : List SelectColumn} {refs : List ColumnRef}
  {layout : EntityLayout} {owner : FetchOwner} {join : FetchJoin} {projection' : Projection}

/-! ## The names of columns -/

namespace Projection

def label (part : String) (number column : Nat) : String :=
  s!"{part}_{number}_{column}_"

theorem labels_eq (part : String) (number width : Nat) :
    labels part number width = (range width).map (label part number) := rfl

@[simp] theorem length_labels (part : String) (number width : Nat) :
    (labels part number width).length = width := by
  simp [labels_eq]

theorem underscore_notMem_digits (n : Nat) : '_' ∉ (toString n).toList := by
  intro h
  exact absurd (isDigit_of_mem_toString h) (by decide)

theorem label_toList (part : String) (number column : Nat) :
    (label part number column).toList
      = part.toList ++ '_' :: ((toString number).toList ++ '_' ::
        ((toString column).toList ++ ['_'])) := by
  have hlabel : label part number column
      = part ++ "_" ++ toString number ++ "_" ++ toString column ++ "_" := rfl
  simp [hlabel, String.toList_append]

/-- Two texts are cut in the same place where they first show a character. -/
theorem cut_inj {c : Char} : ∀ {before before' after after' : List Char},
    c ∉ before → c ∉ before' → before ++ c :: after = before' ++ c :: after' →
      before = before' ∧ after = after'
  | [], [], _, _, _, _, h => ⟨rfl, (cons.inj h).2⟩
  | [], d :: _, _, _, _, h', h => by
    rw [nil_append, cons_append] at h
    exact (h' (mem_cons.mpr (.inl (cons.inj h).1))).elim
  | d :: _, [], _, _, h', _, h => by
    rw [nil_append, cons_append] at h
    exact (h' (mem_cons.mpr (.inl (cons.inj h).1.symm))).elim
  | d :: rest, d' :: rest', _, _, hd, hd', h => by
    rw [cons_append, cons_append] at h
    obtain ⟨rfl, htail⟩ := cons.inj h
    obtain ⟨rfl, hafter⟩ := cut_inj (fun hc => hd (.tail _ hc)) (fun hc => hd' (.tail _ hc)) htail
    exact ⟨rfl, hafter⟩

theorem label_inj {part' : String} {number number' column column' : Nat} (hpart : '_' ∉ part.toList)
    (hpart' : '_' ∉ part'.toList) (h : label part number column = label part' number' column') :
    part = part' ∧ number = number' ∧ column = column' := by
  have hchars := congrArg String.toList h
  rw [label_toList, label_toList] at hchars
  obtain ⟨hparts, hrest⟩ := cut_inj hpart hpart' hchars
  obtain ⟨hnumbers, hcolumns⟩ :=
    cut_inj (underscore_notMem_digits _) (underscore_notMem_digits _) hrest
  exact ⟨String.toList_inj.mp hparts, toString_nat_inj hnumbers,
    toString_nat_inj (append_cancel_right hcolumns)⟩

/-- The names of the columns of parts of given widths. -/
def partLabels (part : String) (widths : List Nat) : List String :=
  widths.zipIdx.flatMap fun (width, number) => labels part number width

theorem partLabels_append (part : String) (widths : List Nat) (width : Nat) :
    partLabels part (widths ++ [width])
      = partLabels part widths ++ labels part widths.length width := by
  simp [partLabels, zipIdx_append]

theorem mem_partLabels {name : String} {widths : List Nat} (h : name ∈ partLabels part widths) :
    ∃ number column, name = label part number column := by
  obtain ⟨⟨width, number⟩, -, hname⟩ := mem_flatMap.mp h
  obtain ⟨column, -, rfl⟩ := mem_map.mp hname
  exact ⟨number, column, rfl⟩

theorem nodup_partLabels (hpart : '_' ∉ part.toList) (widths : List Nat) :
    (partLabels part widths).Nodup := by
  refine nodup_flatMap.mpr ⟨?_, ?_⟩
  · rintro ⟨width, number⟩ -
    exact Nodup.map (fun _ _ h => (label_inj hpart hpart h).2.2) nodup_range
  · -- Two different parts have different numbers.
    have hnumbers : (widths.zipIdx.map (·.2)).Nodup := by
      rw [zipIdx_map_snd]
      exact nodup_range'
    refine (pairwise_map.mp hnumbers).imp ?_
    rintro ⟨width, number⟩ ⟨width', number'⟩ hne name hname hname'
    obtain ⟨column, -, rfl⟩ := mem_map.mp hname
    obtain ⟨column', -, hlabel⟩ := mem_map.mp hname'
    exact hne (label_inj hpart hpart hlabel).2.1.symm

theorem nodup_labels (returns fetches : List Nat) :
    (partLabels "col" returns ++ partLabels "fetch" fetches).Nodup := by
  refine (nodup_partLabels (by decide) returns).append (nodup_partLabels (by decide) fetches) ?_
  intro name hreturn hfetch
  obtain ⟨number, column, rfl⟩ := mem_partLabels hreturn
  obtain ⟨number', column', hlabel⟩ := mem_partLabels hfetch
  exact absurd (label_inj (by decide) (by decide) hlabel).1 (by decide)

end Projection

/-! ## The columns of the parts -/

/-- The columns stand in the select list one after the other, from a position
on. -/
def Sql.StandAt (columns : List SelectColumn) (first : Nat) (refs : List ColumnRef) : Prop :=
  ∃ before after, columns.map (·.term) = before ++ refs.map .column ++ after
    ∧ before.length = first

theorem Sql.StandAt.append {first : Nat} (h : StandAt columns first refs)
    (more : List SelectColumn) : StandAt (columns ++ more) first refs := by
  obtain ⟨before, after, hcolumns, hlength⟩ := h
  refine ⟨before, after ++ more.map (·.term), ?_, hlength⟩
  rw [map_append, hcolumns, append_assoc _ after]

/-- The layout is that of an entity of the given tables, and stands where its
columns are. -/
def EntityLayout.Placed (model : Metamodel) (elements : List Element)
    (columns : List SelectColumn) (layout : EntityLayout) (first : Nat) : Prop :=
  ∃ element ∈ elements, ∃ refs, Selected.entityColumns model element = .ok (refs, layout)
    ∧ StandAt columns first refs

theorem EntityLayout.Placed.mono {model : Metamodel} {elements elements' : List Element}
    {first : Nat} (h : layout.Placed model elements columns first) (hsubset : elements ⊆ elements')
    (more : List SelectColumn) : layout.Placed model elements' (columns ++ more) first := by
  obtain ⟨element, helement, refs, hrefs, hstand⟩ := h
  exact ⟨element, hsubset helement, refs, hrefs, hstand.append more⟩

/-- The parts of a row with their first columns and their widths: the returned
values, then the fetched entities. -/
def spans (returns : List Return) (fetches : List Fetch) : List (Nat × Nat) :=
  returns.map (fun value => (value.first, value.shape.width))
    ++ fetches.map fun fetch => (fetch.first, fetch.layout.width)

/-- The columns of a span, in order. -/
def spanColumns (span : Nat × Nat) : List Nat :=
  range' span.1 span.2

/-- The layout agrees with the select list. -/
structure Projection.Agrees (model : Metamodel) (elements : List Element)
    (projection : Projection) : Prop where
  covered : (spans projection.returns projection.fetches).flatMap spanColumns
    = range projection.columns.length
  returned : ∀ value ∈ projection.returns, ∀ layout, value.shape = .entity layout →
    layout.Placed model elements projection.columns value.first
  fetched : ∀ fetch ∈ projection.fetches,
    fetch.layout.Placed model elements projection.columns fetch.first
  numbered : ∀ number value, projection.returns[number]? = some value →
    value.labels = labels "col" number value.shape.width
  named : projection.columns.map (·.label)
    = partLabels "col" (projection.returns.map (·.shape.width))
      ++ partLabels "fetch" (projection.fetches.map (·.layout.width))

/-- A selected value: it is as wide as its shape says, and an entity is selected
by all its columns, but not in a shallow query. Only such an entity can be the
owner of a fetch. -/
structure Selected.Sound (context : Context) (elements : List Element)
    (selected : Selected) : Prop where
  width : selected.columns.length = selected.shape.width
  entity : ∀ layout, selected.shape = .entity layout → context.shallow = false
    ∧ ∃ element ∈ elements, ∃ refs,
      Selected.entityColumns context.model element = .ok (refs, layout)
        ∧ selected.columns = refs.map .column
  whole : ∀ table, selected.element = some table → ∃ layout, selected.shape = .entity layout

namespace Projection

variable {model : Metamodel} {elements elements' : List Element} {projection : Projection}

variable {terms : List Term} {part : String} {number width : Nat}

theorem labelled_terms (h : terms.length = width) :
    (labelled terms (labels part number width)).map (·.term) = terms := by
  rw [labelled, map_map]
  exact map_fst_zip (by simp [h])

theorem labelled_labels (h : terms.length = width) :
    (labelled terms (labels part number width)).map (·.label) = labels part number width := by
  rw [labelled, map_map]
  exact map_snd_zip (by simp [h])

theorem length_labelled (h : terms.length = width) :
    (labelled terms (labels part number width)).length = width := by
  simp [labelled, h]

/-- New columns at the end are where their part starts. -/
theorem standAt_end {more : List SelectColumn} (h : more.map (·.term) = refs.map .column) :
    StandAt (columns ++ more) columns.length refs :=
  ⟨columns.map (·.term), [], by simp [h], length_map ..⟩

theorem range_append (width more : Nat) :
    range width ++ range' width more = range (width + more) := by
  have hrange : range' 0 width ++ range' (0 + width) more
      = range' 0 (width + more) := range'_append_1
  rwa [Nat.zero_add, ← range_eq_range', ← range_eq_range'] at hrange

theorem agrees_empty (model : Metamodel) (elements : List Element) : Agrees model elements {} :=
  ⟨rfl, forall_mem_nil _, forall_mem_nil _, fun _ _ h => (nomatch h), rfl⟩

theorem Agrees.mono (h : projection.Agrees model elements) (hsubset : elements ⊆ elements') :
    projection.Agrees model elements' := by
  refine ⟨h.covered, ?_, ?_, h.numbered, h.named⟩
  · intro value hvalue layout hlayout
    simpa using (h.returned value hvalue layout hlayout).mono hsubset []
  · intro fetch hfetch
    simpa using (h.fetched fetch hfetch).mono hsubset []

/-- One more returned value, as long as nothing is fetched. -/
theorem Agrees.addReturn {context : Context} {selected : Selected}
    (h : projection.Agrees context.model elements)
    (hfetches : projection.fetches = []) (hselected : selected.Sound context elements)
    (alias? : Option String) :
    (projection.addReturn selected alias?).Agrees context.model elements := by
  have hwidth := hselected.width
  constructor
  · have hcovered := h.covered
    simp only [spans, hfetches, map_nil, append_nil] at hcovered
    simp only [Projection.addReturn, spans, hfetches, map_nil, append_nil,
      map_append, flatMap_append, hcovered, length_append, length_labelled rfl]
    simp only [map_cons, map_nil, flatMap_singleton, spanColumns, ← hwidth]
    exact range_append ..
  · refine forall_mem_append.mpr ⟨?_, forall_mem_singleton.mpr ?_⟩
    · intro value hvalue layout hlayout
      exact (h.returned value hvalue layout hlayout).mono (Subset.refl _) _
    · intro layout hlayout
      obtain ⟨-, element, helement, refs, hrefs, hcolumns⟩ := hselected.entity layout hlayout
      refine ⟨element, helement, refs, hrefs, standAt_end ?_⟩
      rw [labelled_terms rfl, hcolumns]
  · intro fetch hfetch
    simp only [Projection.addReturn, hfetches] at hfetch
    cases hfetch
  · intro number value hvalue
    rcases Nat.lt_or_ge number projection.returns.length with hlt | hge
    · exact h.numbered number value (by
        rwa [Projection.addReturn, getElem?_append_left hlt] at hvalue)
    · rw [Projection.addReturn, getElem?_append_right hge, getElem?_singleton] at hvalue
      split at hvalue
      · obtain rfl := Option.some.inj hvalue
        rw [show number = projection.returns.length by omega, ← hwidth]
      · cases hvalue
  · have hnamed := h.named
    simp only [hfetches, map_nil] at hnamed
    simp only [Projection.addReturn, hfetches, map_append, map_nil, hnamed,
      labelled_labels rfl, map_cons, partLabels_append, length_map, ← hwidth]
    simp [partLabels]

/-- One more fetched entity of a table. -/
theorem Agrees.addFetch (h : projection.Agrees model elements) (hmem : join.element ∈ elements)
    (hrefs : Selected.entityColumns model join.element = .ok (refs, layout)) :
    (projection.addFetch owner join refs layout).Agrees model elements := by
  have hlength : (refs.map Term.column).length = refs.length := length_map ..
  have hwidth := Selected.entityColumns_length hrefs
  constructor
  · have hcovered := h.covered
    simp only [spans] at hcovered
    simp only [Projection.addFetch, spans, map_append, ← append_assoc,
      length_append, length_labelled hlength]
    rw [flatMap_append, hcovered]
    simp only [map_cons, map_nil, flatMap_singleton, spanColumns, ← hwidth]
    exact range_append ..
  · intro value hvalue layout' hlayout
    exact (h.returned value hvalue layout' hlayout).mono (Subset.refl _) _
  · refine forall_mem_append.mpr ⟨?_, forall_mem_singleton.mpr ?_⟩
    · intro fetch hfetch
      exact (h.fetched fetch hfetch).mono (Subset.refl _) _
    · exact ⟨join.element, hmem, refs, hrefs, standAt_end (labelled_terms hlength)⟩
  · exact h.numbered
  · simp only [Projection.addFetch, map_append, h.named, labelled_labels hlength,
      map_cons, map_nil, partLabels_append, length_map, ← hwidth,
      append_assoc]

end Projection

/-! ## The owners of fetches -/

/-- What is fetched for a fetched entity comes after it. -/
def Fetch.OwnersFirst (fetches : List Fetch) : Prop :=
  ∀ ⦃number owner : Nat⦄ ⦃fetch : Fetch⦄, fetches[number]? = some fetch →
    fetch.owner = .fetched owner → owner < number

/-- The value with this number is an entity with all its columns. -/
def Return.IsEntity (returns : List Return) (number : Nat) : Prop :=
  ∃ value layout, returns[number]? = some value ∧ value.shape = .entity layout

/-- The selected and the fetched tables have numbers of values and fetches that
are there, and owners come first. -/
structure Projection.Owned (projection : Projection) : Prop where
  selected : ∀ entry ∈ projection.selected, Return.IsEntity projection.returns entry.2
  numbered : ∀ entry ∈ projection.fetched, entry.2 < projection.fetches.length
  owners : Fetch.OwnersFirst projection.fetches
  returned : ∀ fetch ∈ projection.fetches, ∀ number, fetch.owner = .returned number →
    Return.IsEntity projection.returns number

namespace Projection

variable {projection : Projection}

theorem owned_empty : Owned {} :=
  ⟨forall_mem_nil _, forall_mem_nil _, fun _ _ _ h => (nomatch h), forall_mem_nil _⟩

theorem Owned.addReturn (h : projection.Owned) {selected : Selected}
    (hwhole : ∀ table, selected.element = some table → ∃ layout, selected.shape = .entity layout)
    (alias? : Option String) : (projection.addReturn selected alias?).Owned := by
  have hkept : ∀ {number}, Return.IsEntity projection.returns number →
      Return.IsEntity (projection.addReturn selected alias?).returns number := by
    rintro number ⟨value, layout, hvalue, hshape⟩
    have hlt := (List.getElem?_eq_some_iff.mp hvalue).1
    exact ⟨value, layout, (getElem?_append_left hlt).trans hvalue, hshape⟩
  refine ⟨forall_mem_append.mpr ⟨fun entry hentry => hkept (h.selected entry hentry), ?_⟩,
    h.numbered, h.owners, fun fetch hfetch _ howner => hkept (h.returned fetch hfetch _ howner)⟩
  intro entry hentry
  obtain ⟨table, htable, rfl⟩ := mem_map.mp hentry
  obtain ⟨layout, hlayout⟩ := hwhole _ (Option.mem_toList.mp htable)
  exact ⟨_, layout, getElem?_concat_length, hlayout⟩

theorem Owned.of_owner? (h : projection.Owned) {element : Element} {owner : FetchOwner}
    (howner : projection.owner? element = some owner) :
    (∃ number, owner = .returned number ∧ Return.IsEntity projection.returns number)
      ∨ ∃ number, owner = .fetched number ∧ number < projection.fetches.length := by
  rcases Option.or_eq_some_iff.mp howner with hreturned | ⟨-, hfetched⟩
  · obtain ⟨number, hlookup, rfl⟩ := Option.map_eq_some_iff.mp hreturned
    exact .inl ⟨number, rfl, h.selected _ (Keyed.lookup_mem hlookup)⟩
  · obtain ⟨number, hlookup, rfl⟩ := Option.map_eq_some_iff.mp hfetched
    exact .inr ⟨number, rfl, h.numbered _ (Keyed.lookup_mem hlookup)⟩

theorem Owned.addFetch (h : projection.Owned) (howner : projection.owner? join.owner = some owner)
    (refs : List ColumnRef) (layout : EntityLayout) :
    (projection.addFetch owner join refs layout).Owned := by
  refine ⟨h.selected, ?_, ?_, forall_mem_append.mpr ⟨h.returned, forall_mem_singleton.mpr ?_⟩⟩
  · intro entry hentry
    simp only [Projection.addFetch, length_append, length_singleton] at hentry ⊢
    rcases mem_append.mp hentry with hold | hnew
    · have hlt := h.numbered entry hold
      omega
    · rw [mem_singleton.mp hnew]
      omega
  · intro number earlier fetch hfetch hearlier
    simp only [Projection.addFetch] at hfetch
    rcases Nat.lt_or_ge number projection.fetches.length with hlt | hge
    · rw [getElem?_append_left hlt] at hfetch
      exact h.owners hfetch hearlier
    · rw [getElem?_append_right hge, getElem?_singleton] at hfetch
      split at hfetch
      · obtain rfl := Option.some.inj hfetch
        rcases h.of_owner? (howner.trans (congrArg some hearlier)) with
          ⟨_, hother, -⟩ | ⟨number, hnumber, hlt⟩
        · cases hother
        · obtain rfl := FetchOwner.fetched.inj hnumber
          exact Nat.lt_of_lt_of_le hlt hge
      · cases hfetch
  · rintro number rfl
    rcases h.of_owner? howner with ⟨_, hnumber, hentity⟩ | ⟨_, hother, -⟩
    · obtain rfl := FetchOwner.returned.inj hnumber
      exact hentity
    · cases hother

end Projection

/-! ## What is selected -/

/-- The expressions in what an item of the select clause stands for. -/
def Target.exprs : Target → List Query.Expr
  | .element _ => []
  | .expr written => [written]

def Selected.atoms (selected : Selected) : List Atom :=
  selected.columns.flatMap Term.atoms

namespace Selected

open Scoped

variable {context : Context} {s s' : Scope} {selected : Selected}

theorem sound_of_columns {elements : List Element} {terms : List Term} {shape : ColumnShape}
    {type : SemanticType} (hwidth : terms.length = shape.width) :
    Sound context elements ⟨terms, .columns shape, type, none⟩ where
  width := hwidth
  entity _ h := by cases h
  whole _ h := by cases h

theorem resolves_columns {owner : Element} (howner : owner ∈ s.elements)
    (hown : ∀ ref ∈ refs, ∃ column, ref = owner.column column) {shape : ReturnShape}
    {type : SemanticType} {element : Option Nat} :
    Resolves context s [] (atoms ⟨refs.map .column, shape, type, element⟩) s := by
  rw [atoms, Term.flatMap_atoms_column]
  exact .columns howner hown

theorem ofElement_run {element : Element} (hmem : element ∈ s.elements)
    (h : (ofElement context element).run s = .ok (selected, s')) :
    Resolves context s [] selected.atoms s' ∧ selected.Sound context s'.elements := by
  unfold ofElement at h
  split at h
  · obtain ⟨rfl, rfl⟩ := run_pure.mp h
    exact ⟨.column hmem, sound_of_columns rfl⟩
  · rename_i hshallow
    obtain ⟨⟨refs, layout⟩, s₁, hmapping, h⟩ := run_bind.mp h
    obtain ⟨hrefs, rfl⟩ := run_ofMapping.mp hmapping
    obtain ⟨rfl, rfl⟩ := run_pure.mp h
    refine ⟨resolves_columns hmem (entityColumns_own hrefs), ?_, ?_, fun _ _ => ⟨layout, rfl⟩⟩
    · rw [length_map, entityColumns_length hrefs]
      rfl
    · rintro _ ⟨rfl⟩
      exact ⟨by simpa using hshallow, element, hmem, refs, hrefs, rfl⟩

theorem ofMeaning_run {path : List String} {meaning : Meaning} (hvalid : s.Valid)
    (hmem : meaning.element ∈ s.elements)
    (h : (ofMeaning context path meaning).run s = .ok (selected, s')) :
    Resolves context s [] selected.atoms s' ∧ selected.Sound context s'.elements := by
  cases meaning with
  | column owner column type =>
    obtain ⟨rfl, rfl⟩ := run_pure.mp h
    exact ⟨.column hmem, sound_of_columns rfl⟩
  | entity element => exact ofElement_run hmem h
  | reference owner property targetName column =>
    simp only [ofMeaning] at h
    split at h
    · obtain ⟨target, s₁, htarget, h⟩ := run_bind.mp h
      obtain ⟨-, rfl⟩ := run_ofMapping.mp htarget
      obtain ⟨rfl, rfl⟩ := run_pure.mp h
      exact ⟨.column hmem, sound_of_columns rfl⟩
    · obtain ⟨element, s₁, hjoin, h⟩ := run_bind.mp h
      obtain ⟨hjoins, helement⟩ := Scope.implicitJoin_run hvalid hmem hjoin
      obtain ⟨hresolves, hsound⟩ := ofElement_run helement h
      exact ⟨.append (.joins hjoins) hresolves, hsound⟩
  | component owner component fields =>
    obtain ⟨rfl, rfl⟩ := run_pure.mp h
    refine ⟨?_, sound_of_columns (by simp [ColumnShape.width])⟩
    have hcolumns : (fields.map fun field => Term.column (owner.column field.column))
        = (fields.map fun field => owner.column field.column).map .column := by
      rw [map_map]
      rfl
    rw [hcolumns]
    exact resolves_columns hmem (forall_mem_map.mpr fun field _ => ⟨field.column, rfl⟩)
  | collection owner association => exact (not_run_misuse h).elim

theorem ofTarget_run {target : Target} (hvalid : s.Valid)
    (hmem : ∀ element, target = .element element → element ∈ s.elements)
    (h : (ofTarget context target).run s = .ok (selected, s')) :
    Resolves context s target.exprs selected.atoms s'
      ∧ selected.Sound context s'.elements := by
  unfold ofTarget at h
  split at h
  · exact ofElement_run (hmem _ rfl) h
  · obtain ⟨meaning, s₁, hresolve, h⟩ := run_bind.mp h
    obtain ⟨hjoins, hmeaning⟩ := Scope.resolve_run hvalid hresolve
    obtain ⟨hresolves, hsound⟩ := ofMeaning_run (hvalid.joins hjoins) hmeaning h
    exact ⟨.children rfl rfl (.append (.joins hjoins) hresolves), hsound⟩
  · obtain ⟨⟨term, type⟩, s₁, hterm, h⟩ := run_bind.mp h
    obtain ⟨rfl, rfl⟩ := run_pure.mp h
    refine ⟨?_, sound_of_columns rfl⟩
    rw [atoms, scalar, flatMap_singleton]
    exact (Typed.determined_resolves _).resolves hvalid hterm

end Selected

namespace Projection

open Scoped

variable {context : Context} {s s' : Scope} {projection : Projection}

def atoms (projection : Projection) : List Atom :=
  projection.columns.flatMap fun column => column.term.atoms

theorem atoms_labelled {terms : List Term} {number width : Nat} (h : terms.length = width) :
    ((labelled terms (labels part number width)).flatMap fun column => column.term.atoms)
      = terms.flatMap Term.atoms := by
  have hterms : (labelled terms (labels part number width)).map (·.term) = terms :=
    labelled_terms h
  conv_rhs => rw [← hterms, flatMap_map]

theorem atoms_addReturn (selected : Selected) (alias? : Option String) :
    (projection.addReturn selected alias?).atoms = projection.atoms ++ selected.atoms := by
  rw [atoms, Projection.addReturn, flatMap_append, atoms_labelled rfl]
  rfl

theorem atoms_addFetch :
    (projection.addFetch owner join refs layout).atoms = projection.atoms ++ refs.map .column := by
  rw [atoms, Projection.addFetch, flatMap_append, atoms_labelled (length_map ..),
    Term.flatMap_atoms_column]
  rfl

/-- The select list agrees with its layout, and is resolved from the items. The
owners of fetches are there before them, and a shallow query returns no entity with
all its columns. -/
structure Resolved (context : Context) (s : Scope) (exprs : List Query.Expr)
    (projection : Projection) (s' : Scope) : Prop where
  agrees : projection.Agrees context.model s'.elements
  resolves : Resolves context s exprs projection.atoms s'
  owned : projection.Owned
  deep : ∀ value ∈ projection.returns, ∀ layout, value.shape = .entity layout →
    context.shallow = false

theorem selectTarget_run {item : Target × Option String} {start : Scope} {exprs : List Query.Expr}
    (hvalid : s.Valid) (hdone : projection.Resolved context start exprs s)
    (hfetches : projection.fetches = [])
    (hitem : ∀ element, item.1 = .element element → element ∈ s.elements)
    (h : (selectTarget context projection item).run s = .ok (projection', s')) :
    projection'.Resolved context start (exprs ++ item.1.exprs) s' ∧ projection'.fetches = [] := by
  obtain ⟨selected, s₁, hselected, h⟩ := run_bind.mp h
  obtain ⟨rfl, rfl⟩ := run_pure.mp h
  obtain ⟨hresolves, hsound⟩ := Selected.ofTarget_run hvalid hitem hselected
  have hsubset := hresolves.steps.elements_subset
  refine ⟨⟨(hdone.agrees.mono hsubset).addReturn hfetches hsound _, ?_,
    hdone.owned.addReturn hsound.whole _, ?_⟩, hfetches⟩
  · rw [atoms_addReturn]
    exact hdone.resolves.append hresolves
  · refine forall_mem_append.mpr ⟨hdone.deep, forall_mem_singleton.mpr fun layout hlayout => ?_⟩
    exact (hsound.entity layout hlayout).1

theorem selectFetch_run {start : Scope} {exprs : List Query.Expr}
    (hdone : projection.Resolved context start exprs s) (hjoin : join.element ∈ s.elements)
    (h : (selectFetch context projection join).run s = .ok (projection', s')) :
    s = s' ∧ projection'.Resolved context start exprs s' := by
  unfold selectFetch at h
  split at h
  · exact (not_run_misuse h).elim
  · rename_i owner howner
    obtain ⟨⟨refs, layout⟩, s₁, hmapping, h⟩ := run_bind.mp h
    obtain ⟨hrefs, rfl⟩ := run_ofMapping.mp hmapping
    obtain ⟨rfl, rfl⟩ := run_pure.mp h
    refine ⟨rfl, hdone.agrees.addFetch hjoin hrefs, ?_, hdone.owned.addFetch howner refs layout,
      hdone.deep⟩
    have hcolumns : Resolves context s [] (refs.map .column) s :=
      .columns hjoin (Selected.entityColumns_own hrefs)
    have hboth := hdone.resolves.append hcolumns
    rwa [append_nil, ← atoms_addFetch] at hboth

/-- Every select list agrees with its layout, and is resolved from its items.
The returned values come first, and only then the fetched entities. -/
theorem select_run {items : List (Target × Option String)} {fetches : List FetchJoin}
    (hvalid : s.Valid)
    (hitems : ∀ item ∈ items, ∀ element, item.1 = .element element → element ∈ s.elements)
    (hfetches : ∀ join ∈ fetches, join.element ∈ s.elements)
    (h : (select context items fetches).run s = .ok (projection, s')) :
    projection.Resolved context s (items.flatMap (·.1.exprs)) s' := by
  obtain ⟨returned, s₁, hreturned, hfetched⟩ := run_bind.mp h
  have hreturns : returned.Resolved context s (items.flatMap (·.1.exprs)) s₁
      ∧ returned.fetches = [] := by
    refine foldlM_invariant (motive := fun done projection₁ s₁ =>
        projection₁.Resolved context s (done.flatMap (·.1.exprs)) s₁ ∧ projection₁.fetches = [])
      (fun hitem hdone hround => ?_)
      ⟨⟨agrees_empty .., .nothing, owned_empty, forall_mem_nil _⟩, rfl⟩ hreturned
    obtain ⟨hresolved, hnone⟩ := hdone
    have hsteps := hresolved.resolves.steps
    rw [flatMap_append, flatMap_singleton]
    exact selectTarget_run (hvalid.steps hsteps) hresolved hnone
      (fun element helement => hsteps.elements_subset (hitems _ hitem element helement)) hround
  have hfetch : s₁ = s' ∧ projection.Resolved context s (items.flatMap (·.1.exprs)) s' := by
    refine foldlM_invariant
      (motive := fun _ projection₁ s₂ => s₁ = s₂
        ∧ projection₁.Resolved context s (items.flatMap (·.1.exprs)) s₂)
      (fun hjoin hdone hround => ?_) ⟨rfl, hreturns.1⟩ hfetched
    obtain ⟨rfl, hresolved⟩ := hdone
    have hsubset := hresolved.resolves.steps.elements_subset
    exact selectFetch_run hresolved (hsubset (hfetches _ hjoin)) hround
  exact hfetch.2

end Projection

end EntityQuery
