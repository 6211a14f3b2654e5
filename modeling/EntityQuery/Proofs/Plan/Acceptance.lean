import EntityQuery.Proofs.Plan.Binding
import EntityQuery.Proofs.Plan.Validation

/-!
# When values can be bound

Binding a plan first validates the values against the table of parameters, where
a parameter counts once for all its places, and then goes through the
placeholders one by one. What is left to go wrong in the second round is little:
the table has every parameter that a placeholder stands for, so that its value is
there (`isSome_value?_of_validate`), and only the types of values and the
parameters of filters are still to be checked.

`Binding.Accepts` says when a placeholder takes what is given for it, and
`Binding.Refuses` which fault it is refused with. One of them holds of every
placeholder (`accepts_or_refuses`), and resolving the placeholder follows them.
-/

namespace EntityQuery

open List Option Sample

/-! ## One placeholder -/

namespace Binding

def given? (binding : Binding) (parameters : Parameters) (filters : EnabledFilters) :
    Option (List Value) :=
  match binding.source with
  | .filter owner parameter => (filters.value? owner parameter).map fun value => [value]
  | source => (parameters.value? source).map (·.values)

/-- Each value that is given for the placeholder is of a kind that it takes, and a
parameter of a filter has a value. -/
structure Accepts (binding : Binding) (parameters : Parameters) (filters : EnabledFilters) :
    Prop where
  given : ∀ {value}, parameters.value? binding.source = some value →
    ∀ scalar ∈ value.values, binding.type.accepts scalar = true
  filter : ∀ {owner parameter}, binding.source = .filter owner parameter →
    ∃ scalar, filters.value? owner parameter = some scalar ∧ binding.type.accepts scalar = true

/-- The placeholder cannot be resolved: a value, the first one of its kind, does not
go with its type, or the parameter of a filter has no value. -/
inductive Refuses (binding : Binding) (parameters : Parameters) (filters : EnabledFilters) :
    BindingFault → Prop
  | mismatch {before after : List Value} {value : Value}
    (given : binding.given? parameters filters = some (before ++ value :: after))
    (accepted : ∀ earlier ∈ before, binding.type.accepts earlier = true)
    (refused : binding.type.accepts value = false) :
    Refuses binding parameters filters
      (.typeMismatch binding.source.text binding.type.text value.kind)
  | noFilterValue {owner parameter : String} (source : binding.source = .filter owner parameter)
    (missing : filters.value? owner parameter = none) :
    Refuses binding parameters filters (.missingFilterParameter owner parameter)

variable {binding : Binding} {parameters : Parameters} {filters : EnabledFilters}

theorem supplied_eq_ok {given : List Value} (h : binding.given? parameters filters = some given) :
    binding.supplied parameters filters = .ok given := by
  obtain ⟨source, type, expandable, statement⟩ := binding
  cases source with
  | named name | ordinal position =>
    obtain ⟨value, hvalue, rfl⟩ := map_eq_some_iff.mp h
    simp only [Parameters.value?] at hvalue
    simp only [supplied, hvalue]
  | filter owner parameter =>
    obtain ⟨value, hvalue, rfl⟩ := map_eq_some_iff.mp h
    simp only [supplied, hvalue]

theorem values_eq_ok {given : List Value} (h : binding.given? parameters filters = some given)
    (haccepted : ∀ value ∈ given, binding.type.accepts value = true) :
    binding.values parameters filters = .ok given := by
  have hnone : given.find? (fun value => !binding.type.accepts value) = none := by
    simpa [find?_eq_none] using haccepted
  simp only [values, supplied_eq_ok h, bind, Except.bind, hnone, pure, Except.pure]

theorem Refuses.values_eq_error {fault : BindingFault}
    (h : binding.Refuses parameters filters fault) :
    binding.values parameters filters = .error fault := by
  cases h with
  | @mismatch before after value given accepted refused =>
    have hfound : (before ++ value :: after).find? (fun value => !binding.type.accepts value)
        = some value := by
      rw [find?_append, find?_eq_none.mpr (by simpa using accepted)]
      simp [refused]
    simp only [values, supplied_eq_ok given, bind, Except.bind, hfound]
  | noFilterValue source missing =>
    simp only [values, supplied, source, missing, bind, Except.bind]

section Given

-- A parameter of the query has a value.
variable (hgiven : binding.source.isFilter = false →
  (parameters.value? binding.source).isSome = true)

include hgiven

/-- A placeholder takes what is given for it if something is given and all of it
goes with its type. -/
theorem accepts_iff : binding.Accepts parameters filters
    ↔ ∃ given, binding.given? parameters filters = some given
      ∧ ∀ value ∈ given, binding.type.accepts value = true := by
  obtain ⟨source, type, expandable, statement⟩ := binding
  have hquery : source.isFilter = false →
      (Accepts ⟨source, type, expandable, statement⟩ parameters filters
        ↔ ∃ given, (parameters.value? source).map (·.values) = some given
          ∧ ∀ value ∈ given, type.accepts value = true) := by
    intro hsource
    obtain ⟨value, hvalue⟩ := isSome_iff_exists.mp (hgiven hsource)
    constructor
    · intro h
      exact ⟨value.values, by rw [hvalue]; rfl, h.given hvalue⟩
    · rintro ⟨given, hvalues, haccepted⟩
      refine ⟨fun {value'} hvalue' => ?_, fun {owner parameter} hfilter => ?_⟩
      · rw [hvalue'] at hvalues
        obtain rfl := Option.some.inj hvalues
        exact haccepted
      · obtain rfl : source = .filter owner parameter := hfilter
        cases hsource
  cases source with
  | named name | ordinal position => exact hquery rfl
  | filter owner parameter =>
    constructor
    · intro h
      obtain ⟨value, hvalue, haccepted⟩ := h.filter rfl
      exact ⟨[value], by simp [given?, hvalue], forall_mem_singleton.mpr haccepted⟩
    · rintro ⟨given, hvalues, haccepted⟩
      obtain ⟨value, hvalue, rfl⟩ := map_eq_some_iff.mp hvalues
      refine ⟨fun {value'} hvalue' => ?_, fun {owner' parameter'} hfilter => ?_⟩
      · cases hvalue'
      · cases hfilter
        exact ⟨value, hvalue, haccepted value (.head _)⟩

theorem accepts_or_refuses :
    binding.Accepts parameters filters ∨ ∃ fault, binding.Refuses parameters filters fault := by
  cases hvalues : binding.given? parameters filters with
  | none =>
    obtain ⟨source, type, expandable, statement⟩ := binding
    cases source with
    | named name | ordinal position =>
      have hnone := hgiven rfl
      rw [map_eq_none_iff.mp hvalues] at hnone
      cases hnone
    | filter owner parameter =>
      exact .inr ⟨_, .noFilterValue rfl (map_eq_none_iff.mp hvalues)⟩
  | some given =>
    cases hfound : given.find? fun value => !binding.type.accepts value with
    | none =>
      refine .inl ((accepts_iff hgiven).mpr ⟨given, hvalues, ?_⟩)
      simpa [find?_eq_none] using hfound
    | some value =>
      obtain ⟨hrefused, before, after, rfl, haccepted⟩ :=
        find?_eq_some_iff_append.mp hfound
      exact .inr ⟨_, .mismatch hvalues (by simpa using haccepted) (by simpa using hrefused)⟩

theorem exists_values_iff :
    (∃ given, binding.values parameters filters = .ok given)
      ↔ binding.Accepts parameters filters := by
  constructor
  · rintro ⟨given, hvalues⟩
    refine (accepts_or_refuses hgiven).resolve_right ?_
    rintro ⟨fault, hrefuses⟩
    cases hvalues.symm.trans hrefuses.values_eq_error
  · intro h
    obtain ⟨given, hvalues, haccepted⟩ := (accepts_iff hgiven).mp h
    exact ⟨given, values_eq_ok hvalues haccepted⟩

theorem values_eq_error_iff {fault : BindingFault} :
    binding.values parameters filters = .error fault
      ↔ binding.Refuses parameters filters fault := by
  refine ⟨fun hvalues => ?_, Refuses.values_eq_error⟩
  rcases accepts_or_refuses hgiven with haccepts | ⟨fault', hrefuses⟩
  · obtain ⟨given, hgiven'⟩ := (exists_values_iff hgiven).mpr haccepts
    cases hvalues.symm.trans hgiven'
  · obtain rfl := Except.error.inj (hvalues.symm.trans hrefuses.values_eq_error)
    exact hrefuses

end Given

end Binding

/-! ## Plans -/

namespace ParameterTable

theorem isSome_info?_of_mem {bindings : List Binding} {binding : Binding}
    (h : binding ∈ bindings) (hsource : binding.source.isFilter = false) :
    ((ofBindings bindings).info? binding.source).isSome = true := by
  obtain ⟨position, hposition⟩ := mem_iff_getElem?.mp h
  have huse := mem_uses.mpr ⟨hposition, rfl⟩
  obtain ⟨info, hinfo⟩ : ∃ info, ParameterInfo.ofUses? (uses bindings binding.source)
      = some info := by
    cases huses : uses bindings binding.source with
    | nil =>
      rw [huses] at huse
      cases huse
    | cons first rest => exact ⟨_, rfl⟩
  cases hname : binding.source with
  | named name =>
    rw [hname] at hinfo
    refine Keyed.isSome_lookup_iff.mpr (mem_map.mpr ⟨(name, info), ?_, rfl⟩)
    exact mem_filterMap.mpr ⟨name, mem_names.mpr ⟨binding, h, hname⟩, by rw [hinfo]; rfl⟩
  | ordinal number =>
    rw [hname] at hinfo
    refine Keyed.isSome_lookup_iff.mpr (mem_map.mpr ⟨(number, info), ?_, rfl⟩)
    exact mem_filterMap.mpr ⟨number, mem_positions.mpr ⟨binding, h, hname⟩, by rw [hinfo]; rfl⟩
  | filter owner parameter =>
    rw [hname] at hsource
    cases hsource

theorem isSome_value?_of_validate {table : ParameterTable} {parameters : Parameters}
    {query : String} {source : ParameterSource}
    (hvalidate : table.validate parameters query = .ok ())
    (h : (table.info? source).isSome) : (parameters.value? source).isSome = true := by
  have hmissing : table.missing? parameters query = none := by
    unfold validate at hvalidate
    split at hvalidate
    · cases hvalidate
    · rename_i hnone
      exact (or_eq_none_iff.mp (or_eq_none_iff.mp hnone).1).2
  obtain ⟨hnamed, hordinal⟩ := or_eq_none_iff.mp hmissing
  obtain ⟨info, hinfo⟩ := isSome_iff_exists.mp h
  cases source with
  | named name =>
    have hfound := findSome?_eq_none_iff.mp hnamed (name, info) (Keyed.lookup_mem hinfo)
    by_contra hnone
    simp [show ¬ (parameters.named.lookup name).isSome = true from hnone] at hfound
  | ordinal position =>
    have hfound := findSome?_eq_none_iff.mp hordinal (position, info) (Keyed.lookup_mem hinfo)
    by_contra hnone
    simp [show ¬ (parameters.ordinal.lookup position).isSome = true from hnone] at hfound
  | filter owner parameter => cases hinfo

end ParameterTable

namespace Plan

variable {plan : Plan} {dialect : Sql.Dialect} {parameters : Parameters}
  {filters : EnabledFilters} {paging : Paging}

theorem filterMap_getElem?_range {α : Type} (as : List α) :
    (List.range as.length).filterMap (as[·]?) = as := by
  induction as using List.reverseRecOn with
  | nil => rfl
  | append_singleton as a ih =>
    have hstart : (List.range as.length).filterMap ((as ++ [a])[·]?) = as := by
      conv_rhs => rw [← ih]
      refine filterMap_congr fun i hi => ?_
      rw [getElem?_append_left (mem_range.mp hi)]
    rw [length_append, length_singleton, range_succ, filterMap_append, hstart]
    simp

/-- What the placeholders of a plan are bound to, in the order of the text. -/
def placeholders (plan : Plan) : List Binding :=
  (plan.statements.flatMap (Fragment.bindings ·.fragments)).filterMap (plan.bindings[·]?)

theorem placeholders_of_compile {compiler : Compiler} {identifier query : String}
    {substitutions : List (String × String)}
    (h : compile compiler identifier query substitutions = .ok plan) :
    plan.placeholders = plan.bindings := by
  obtain ⟨text, statement, lowered, s, -, -, -, rfl⟩ := compile_eq_ok h
  rw [placeholders, bindings_ofLowered, filterMap_getElem?_range]

/-- Binding succeeds or fails with the validation and with the values of the bindings. -/
theorem bind_outcome :
    ((∃ bound, plan.bind dialect parameters filters paging = .ok bound)
      ↔ plan.parameters.validate parameters plan.query = .ok ()
        ∧ ∃ resolved, (plan.bindings.mapM fun binding => binding.values parameters filters)
          = .ok resolved)
    ∧ ∀ fault, plan.bind dialect parameters filters paging = .error fault
      ↔ plan.parameters.validate parameters plan.query = .error fault
        ∨ plan.parameters.validate parameters plan.query = .ok ()
          ∧ (plan.bindings.mapM fun binding => binding.values parameters filters)
            = .error fault := by
  unfold bind
  cases plan.parameters.validate parameters plan.query with
  | error fault' => simp [Bind.bind, Except.bind]
  | ok =>
    cases plan.bindings.mapM fun binding => binding.values parameters filters with
    | error fault' => simp [Bind.bind, Except.bind]
    | ok resolved => cases plan.kind.isManipulation <;> simp [Bind.bind, Except.bind, pure, Except.pure]

theorem isSome_value?_of_mem (hvalidate : plan.parameters.validate parameters plan.query = .ok ())
    {binding : Binding} (h : binding ∈ plan.bindings) (hsource : binding.source.isFilter = false) :
    (parameters.value? binding.source).isSome = true :=
  ParameterTable.isSome_value?_of_validate hvalidate (ParameterTable.isSome_info?_of_mem h hsource)

/-- Binding succeeds if the values are validated and each placeholder takes what is
given for it. If the values are not validated, binding fails in the same way;
otherwise it fails at the first placeholder that refuses what is given for it. -/
theorem compile_bind_iff {compiler : Compiler} {identifier query : String}
    {substitutions : List (String × String)}
    (h : compile compiler identifier query substitutions = .ok plan) (dialect : Sql.Dialect)
    (parameters : Parameters) (filters : EnabledFilters) (paging : Paging) :
    ((∃ bound, plan.bind dialect parameters filters paging = .ok bound)
        ↔ plan.parameters.validate parameters plan.query = .ok ()
          ∧ ∀ binding ∈ plan.placeholders, binding.Accepts parameters filters)
      ∧ (∀ fault, plan.parameters.validate parameters plan.query = .error fault →
        plan.bind dialect parameters filters paging = .error fault)
      ∧ (plan.parameters.validate parameters plan.query = .ok () → ∀ fault,
        plan.bind dialect parameters filters paging = .error fault
          ↔ ∃ before binding after, plan.placeholders = before ++ binding :: after
            ∧ (∀ earlier ∈ before, earlier.Accepts parameters filters)
            ∧ binding.Refuses parameters filters fault) := by
  rw [placeholders_of_compile h]
  refine ⟨?_, fun fault hfault => (bind_outcome.2 fault).mpr (.inl hfault), fun hvalidate fault => ?_⟩
  · rw [bind_outcome.1, exists_mapM_eq_ok]
    refine and_congr_right fun hvalidate => forall₂_congr fun binding hbinding => ?_
    exact Binding.exists_values_iff (isSome_value?_of_mem hvalidate hbinding)
  · rw [bind_outcome.2, hvalidate, mapM_eq_error_iff]
    simp only [reduceCtorEq, true_and, false_or]
    refine exists₃_congr fun before binding after => and_congr_right fun hbindings => ?_
    have hmem : ∀ found ∈ before ++ binding :: after, found ∈ plan.bindings :=
      fun found hfound => hbindings ▸ hfound
    refine and_congr (forall₂_congr fun earlier hearlier => ?_) ?_
    · exact Binding.exists_values_iff
        (isSome_value?_of_mem hvalidate (hmem earlier (mem_append_left _ hearlier)))
    · exact Binding.values_eq_error_iff
        (isSome_value?_of_mem hvalidate (hmem binding (mem_append_right _ (.head _))))

/-- A parameter that is compared with a whole number and with a text: as a number it
is refused at the second of its places. -/
theorem compile_bind_iff_mixed : ∃ plan,
    compile compiler "q" "select p.id from Person p where p.age > :a or p.name = :a" []
        = .ok plan
      ∧ plan.parameters.validate ({ named := [("a", .single (.int 40))] }) plan.query = .ok ()
      ∧ ∃ before binding after, plan.placeholders = before ++ binding :: after
        ∧ (∀ earlier ∈ before, earlier.Accepts { named := [("a", .single (.int 40))] }
          compiler.filters)
        ∧ binding.Refuses { named := [("a", .single (.int 40))] } compiler.filters
          (.typeMismatch ":a" "string" "integer") := by
  refine exists_ok_and (fun plan => plan.parameters.validate
        ({ named := [("a", .single (.int 40))] }) plan.query = .ok ()
      ∧ plan.bind .postgres { named := [("a", .single (.int 40))] }
        compiler.filters .off = .error (.typeMismatch ":a" "string" "integer"))
    (by decide +kernel) fun plan hplan htest => ?_
  obtain ⟨hvalidate, hbind⟩ := htest
  have hiff := compile_bind_iff hplan .postgres { named := [("a", .single (.int 40))] }
    compiler.filters .off
  exact ⟨hvalidate, (hiff.2.2 hvalidate _).mp hbind⟩

end Plan

end EntityQuery
