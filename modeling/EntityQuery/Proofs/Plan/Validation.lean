import EntityQuery.Proofs.Plan.Parameters

/-!
# The order of validation

The values for the parameters of a query can be wrong in six ways
(`ParameterDefect`), and several things can be wrong at the same time. Validating
reports one of them. `ParameterTable.checks` lists what is looked at, in the
order in which it is looked at, and validating finds the first of these checks
that fails (`validate_eq`). The list is in order (`pairwise_checks`) and leaves
nothing out (`mem_checks`), so that the fault is that of the first defect there
is.

The documented order goes through the six kinds of defects one after the other.
The last two of them are looked for in one pass over the values, so that a list
without values is reported although a list further on is not allowed at all.
Nothing else departs from the documented order (`first_documented_iff`).
-/

namespace EntityQuery

open List Keyed Parameters

variable {source : ParameterSource} {check : ParameterCheck} {fault : BindingFault}

/-! ## Parameters by their sources -/

def Parameters.value? (parameters : Parameters) : ParameterSource → Option ParameterValue
  | .named name => parameters.named.lookup name
  | .ordinal position => parameters.ordinal.lookup position
  | .filter .. => none

def ParameterTable.info? (table : ParameterTable) : ParameterSource → Option ParameterInfo
  | .named name => table.named.lookup name
  | .ordinal position => table.ordinal.lookup position
  | .filter .. => none

/-- The values are sorted by names and by numbers, each of which comes once. -/
structure Parameters.Ordered (parameters : Parameters) : Prop where
  named : parameters.named.Pairwise (·.1 < ·.1)
  ordinal : parameters.ordinal.Pairwise (·.1 < ·.1)

structure ParameterTable.Ordered (table : ParameterTable) : Prop where
  named : table.named.Pairwise (·.1 < ·.1)
  ordinal : table.ordinal.Pairwise (·.1 < ·.1)

/-- Values are given for exactly the parameters of the query, and the lists among
them stand where lists may stand and have values. -/
structure ParameterTable.Fits (table : ParameterTable) (parameters : Parameters) : Prop where
  named : ∀ name, name ∈ parameters.named.map (·.1) ↔ name ∈ table.named.map (·.1)
  ordinal : ∀ position, position ∈ parameters.ordinal.map (·.1)
    ↔ position ∈ table.ordinal.map (·.1)
  expandable : ∀ {source values}, parameters.value? source = some (.list values) →
    ∃ info, table.info? source = some info ∧ info.expandable = true
  nonempty : ∀ {source values}, parameters.value? source = some (.list values) → values ≠ []

namespace Parameters.Ordered

variable {parameters : Parameters}

theorem empty : Ordered {} :=
  ⟨.nil, .nil⟩

theorem set (h : parameters.Ordered) (name : String) (value : ParameterValue) :
    (parameters.set name value).Ordered :=
  ⟨pairwise_insert name value h.named, h.ordinal⟩

theorem setOrdinal (h : parameters.Ordered) (position : Nat) (value : ParameterValue) :
    (parameters.setOrdinal position value).Ordered :=
  ⟨h.named, pairwise_insert position value h.ordinal⟩

end Parameters.Ordered

/-- The parameters that bindings stand for are sorted. -/
theorem ParameterTable.ofBindings_ordered (bindings : List Binding) :
    (ofBindings bindings).Ordered := by
  have hkeyed : ∀ {κ : Type} [LinearOrder κ] {keys : List κ} {info? : κ → Option ParameterInfo},
      keys.Pairwise (· < ·) →
      (keys.filterMap fun key => (info? key).map fun info => (key, info)).Pairwise (·.1 < ·.1) := by
    intro κ _ keys info? hkeys
    refine pairwise_filterMap.mpr (hkeys.imp fun {key later} hlt entry hentry entry' hentry' => ?_)
    obtain ⟨info, -, rfl⟩ := Option.map_eq_some_iff.mp hentry
    obtain ⟨info', -, rfl⟩ := Option.map_eq_some_iff.mp hentry'
    exact hlt
  refine ⟨hkeyed ?_, hkeyed ?_⟩
  · rw [names_eq]
    exact pairwise_foldl_insertKey _ .nil
  · rw [positions_eq]
    exact pairwise_foldl_insertKey _ .nil

theorem Plan.parameters_ordered (plan : Plan) : plan.parameters.Ordered :=
  ParameterTable.ofBindings_ordered plan.bindings

/-- Names come before numbers, both in their order. -/
def ParameterSource.Before : ParameterSource → ParameterSource → Prop
  | .named name, .named later => name < later
  | .named _, .ordinal _ => True
  | .ordinal position, .ordinal later => position < later
  | _, _ => False

theorem ParameterSource.Before.asymm {later : ParameterSource} (h : source.Before later) :
    ¬ later.Before source := by
  cases source with
  | named name =>
    cases later with
    | named other => exact lt_asymm (show name < other from h)
    | _ => exact id
  | ordinal position =>
    cases later with
    | ordinal other => exact lt_asymm (show position < other from h)
    | _ => exact h.elim
  | filter owner parameter => exact h.elim

/-! ## Defects -/

/-- What can be wrong with the value of a parameter. -/
inductive ParameterDefect where
  | unknownNamed
  | unknownOrdinal
  | missingNamed
  | missingOrdinal
  | unexpectedList
  | emptyList
  deriving Repr, DecidableEq

/-- The place in the documented order. -/
def ParameterDefect.number : ParameterDefect → Nat
  | unknownNamed => 1
  | unknownOrdinal => 2
  | missingNamed => 3
  | missingOrdinal => 4
  | unexpectedList => 5
  | emptyList => 6

/-- The pass in which the defect is looked for: the last two share one. -/
def ParameterDefect.pass (defect : ParameterDefect) : Nat :=
  min defect.number 5

/-- The question whether a parameter has a defect. -/
structure ParameterCheck where
  defect : ParameterDefect
  source : ParameterSource
  deriving Repr, DecidableEq

namespace ParameterCheck

def fault? (table : ParameterTable) (parameters : Parameters) (query : String) :
    ParameterCheck → Option BindingFault
  | ⟨.unknownNamed, .named name⟩ =>
    if name ∈ parameters.named.map (·.1) ∧ name ∉ table.named.map (·.1) then
      some (.unknownNamed name)
    else none
  | ⟨.unknownOrdinal, .ordinal position⟩ =>
    if position ∈ parameters.ordinal.map (·.1) ∧ position ∉ table.ordinal.map (·.1) then
      some (.unknownOrdinal position query)
    else none
  | ⟨.missingNamed, .named name⟩ =>
    if name ∈ table.named.map (·.1) ∧ name ∉ parameters.named.map (·.1) then
      some (.missingNamed name query)
    else none
  | ⟨.missingOrdinal, .ordinal position⟩ =>
    if position ∈ table.ordinal.map (·.1) ∧ position ∉ parameters.ordinal.map (·.1) then
      some (.missingOrdinal position query)
    else none
  | ⟨.unexpectedList, source⟩ =>
    match parameters.value? source with
    | some (.list _) =>
      if (table.info? source).any (·.expandable) then none else some (.unexpectedList source.text)
    | _ => none
  | ⟨.emptyList, source⟩ =>
    match parameters.value? source with
    | some (.list []) => some (.emptyList source.text)
    | _ => none
  | _ => none

/-- The documented order: one kind of defect after the other, and for each of them
one parameter after the other. -/
def Documented (check later : ParameterCheck) : Prop :=
  check.defect.number < later.defect.number
    ∨ check.defect = later.defect ∧ check.source.Before later.source

/-- The order of the checks: one pass after the other, in each of them one
parameter after the other, and for each of these one defect after the other. -/
def Examined (check later : ParameterCheck) : Prop :=
  check.defect.pass < later.defect.pass
    ∨ check.defect.pass = later.defect.pass ∧ (check.source.Before later.source
      ∨ check.source = later.source ∧ check.defect.number < later.defect.number)

theorem Examined.asymm {later : ParameterCheck} (h : check.Examined later) :
    ¬ later.Examined check := by
  rintro (hpass' | ⟨hpass', hrest'⟩)
  · rcases h with hpass | ⟨hpass, -⟩ <;> omega
  · rcases h with hpass | ⟨hpass, hbefore | ⟨hsource, hnumber⟩⟩
    · omega
    · rcases hrest' with hbefore' | ⟨hsource', -⟩
      · exact hbefore.asymm hbefore'
      · rw [hsource'] at hbefore
        exact hbefore.asymm hbefore
    · rcases hrest' with hbefore' | ⟨-, hnumber'⟩
      · rw [hsource] at hbefore'
        exact hbefore'.asymm hbefore'
      · omega

end ParameterCheck

namespace ParameterTable

/-- The fault of a defect that no other one comes before. -/
def First (order : ParameterCheck → ParameterCheck → Prop) (table : ParameterTable)
    (parameters : Parameters) (query : String) (fault : BindingFault) : Prop :=
  ∃ check : ParameterCheck, check.fault? table parameters query = some fault
    ∧ ∀ other : ParameterCheck, (other.fault? table parameters query).isSome = true →
      ¬ order other check

/-! ## The checks of a validation -/

def listChecks (source : ParameterSource) : List ParameterCheck :=
  [⟨.unexpectedList, source⟩, ⟨.emptyList, source⟩]

def checks (table : ParameterTable) (parameters : Parameters) : List ParameterCheck :=
  parameters.named.map (fun entry => ⟨.unknownNamed, .named entry.1⟩)
    ++ (parameters.ordinal.map (fun entry => ⟨.unknownOrdinal, .ordinal entry.1⟩)
    ++ (table.named.map (fun entry => ⟨.missingNamed, .named entry.1⟩)
    ++ (table.ordinal.map (fun entry => ⟨.missingOrdinal, .ordinal entry.1⟩)
    ++ (parameters.named.flatMap (fun entry => listChecks (.named entry.1))
    ++ parameters.ordinal.flatMap (fun entry => listChecks (.ordinal entry.1))))))

variable {table : ParameterTable} {parameters : Parameters} {query : String}

theorem findSome?_flatMap_eq {α β γ : Type} {parts : α → List β} {f : β → Option γ}
    {g : α → Option γ} : ∀ {as : List α}, (∀ a ∈ as, (parts a).findSome? f = g a) →
      (as.flatMap parts).findSome? f = as.findSome? g
  | [], _ => rfl
  | a :: rest, h => by
    rw [flatMap_cons, findSome?_append, h a (.head _),
      findSome?_flatMap_eq fun b hb => h b (.tail _ hb), findSome?_cons]
    cases g a <;> rfl

theorem findSome?_listChecks {value : ParameterValue} (h : parameters.value? source = some value) :
    (listChecks source).findSome? (·.fault? table parameters query)
      = listFault? source (table.info? source) value := by
  cases value with
  | single value => simp [listChecks, ParameterCheck.fault?, listFault?, h]
  | list values =>
    cases values with
    | nil | cons first rest =>
      by_cases hinfo : (table.info? source).any (·.expandable) = true <;>
        simp [listChecks, ParameterCheck.fault?, listFault?, h, hinfo]

/-- A key of one list is looked for in another. -/
theorem absentFault_eq {κ α β : Type} [LinearOrder κ] {keys : List κ} {entries : List (κ × α)}
    {key : κ} {fault : β} (h : key ∈ keys) :
    (if key ∈ keys ∧ key ∉ entries.map (·.1) then some fault else none)
      = if (entries.lookup key).isSome then none else some fault := by
  by_cases hkey : key ∈ entries.map (·.1)
  · rw [if_neg fun habsent => habsent.2 hkey, if_pos (isSome_lookup_iff.mpr hkey)]
  · rw [if_pos ⟨h, hkey⟩, if_neg fun hsome => hkey (isSome_lookup_iff.mp hsome)]

theorem findSome?_checks (hparameters : parameters.Ordered) (query : String) :
    (table.checks parameters).findSome? (·.fault? table parameters query)
      = ((table.unknown? parameters query).or (table.missing? parameters query)).or
        (table.misplacedList? parameters) := by
  simp only [checks, unknown?, missing?, misplacedList?, findSome?_append, Option.or_assoc,
    map_eq_flatMap]
  refine congrArg₂ Option.or (findSome?_flatMap_eq fun entry hentry => ?_)
    (congrArg₂ Option.or (findSome?_flatMap_eq fun entry hentry => ?_)
    (congrArg₂ Option.or (findSome?_flatMap_eq fun entry hentry => ?_)
    (congrArg₂ Option.or (findSome?_flatMap_eq fun entry hentry => ?_)
    (congrArg₂ Option.or (findSome?_flatMap_eq fun entry hentry => ?_)
      (findSome?_flatMap_eq fun entry hentry => ?_)))))
  iterate 4
    rw [findSome?_singleton]
    exact absentFault_eq (mem_map_of_mem hentry)
  · exact findSome?_listChecks (lookup_of_mem hparameters.named hentry)
  · exact findSome?_listChecks (lookup_of_mem hparameters.ordinal hentry)

section Order

variable {κ α : Type} [LinearOrder κ] {entries : List (κ × α)} {source : κ → ParameterSource}

/-- Checks for one defect are made in the order of the parameters. -/
theorem pairwise_map_check (defect : ParameterDefect)
    (hsource : ∀ {key later}, key < later → (source key).Before (source later))
    (h : entries.Pairwise (·.1 < ·.1)) :
    (entries.map fun entry => (⟨defect, source entry.1⟩ : ParameterCheck)).Pairwise
      ParameterCheck.Examined := by
  refine pairwise_map.mpr (h.imp fun {entry later} hlt => ?_)
  exact .inr ⟨rfl, .inl (hsource hlt)⟩

theorem pairwise_listChecks
    (hsource : ∀ {key later}, key < later → (source key).Before (source later))
    (h : entries.Pairwise (·.1 < ·.1)) :
    (entries.flatMap fun entry => listChecks (source entry.1)).Pairwise
      ParameterCheck.Examined := by
  refine pairwise_flatMap.mpr ⟨fun entry _ => ?_, h.imp fun {entry later} hlt => ?_⟩
  · exact pairwise_pair.mpr (.inr ⟨rfl, .inr ⟨rfl, Nat.lt_succ_self 5⟩⟩)
  · simp only [listChecks, forall_mem_cons, not_mem_nil, false_imp_iff, implies_true, and_true]
    have hbefore := hsource hlt
    exact ⟨⟨.inr ⟨rfl, .inl hbefore⟩, .inr ⟨rfl, .inl hbefore⟩⟩,
      .inr ⟨rfl, .inl hbefore⟩, .inr ⟨rfl, .inl hbefore⟩⟩

end Order

theorem pairwise_checks (htable : table.Ordered) (hparameters : parameters.Ordered) :
    (table.checks parameters).Pairwise ParameterCheck.Examined := by
  have hnext : ∀ {part rest : List ParameterCheck} (pass : Nat),
      (∀ check ∈ part, check.defect.pass = pass) → (∀ check ∈ rest, pass < check.defect.pass) →
      ∀ check ∈ part, ∀ later ∈ rest, check.Examined later :=
    fun pass hpart hrest check hcheck later hlater =>
      .inl (hpart check hcheck ▸ hrest later hlater)
  unfold checks
  refine pairwise_append.mpr ⟨?_, pairwise_append.mpr ⟨?_, pairwise_append.mpr ⟨?_,
    pairwise_append.mpr ⟨?_, pairwise_append.mpr ⟨?_, ?_, ?_⟩, hnext 4 ?_ ?_⟩,
    hnext 3 ?_ ?_⟩, hnext 2 ?_ ?_⟩, hnext 1 ?_ ?_⟩
  · exact pairwise_map_check .unknownNamed id hparameters.named
  · exact pairwise_map_check .unknownOrdinal id hparameters.ordinal
  · exact pairwise_map_check .missingNamed id htable.named
  · exact pairwise_map_check .missingOrdinal id htable.ordinal
  · exact pairwise_listChecks id hparameters.named
  · exact pairwise_listChecks id hparameters.ordinal
  · -- Both have the last pass, in which names come before numbers.
    intro check hcheck later hlater
    obtain ⟨entry, -, hcheck⟩ := mem_flatMap.mp hcheck
    obtain ⟨entry', -, hlater⟩ := mem_flatMap.mp hlater
    simp only [listChecks, mem_cons, not_mem_nil, or_false] at hcheck hlater
    rcases hcheck with rfl | rfl <;> rcases hlater with rfl | rfl <;>
      exact .inr ⟨rfl, .inl trivial⟩
  all_goals
    simp only [forall_mem_append, forall_mem_map, forall_mem_flatMap, listChecks,
      forall_mem_cons, ParameterDefect.pass, ParameterDefect.number]
    simp

theorem mem_checks (h : (check.fault? table parameters query).isSome) :
    check ∈ table.checks parameters := by
  obtain ⟨defect, source⟩ := check
  cases defect with
  | unexpectedList | emptyList =>
    have hgiven : (parameters.value? source).isSome := by
      cases hvalue : parameters.value? source with
      | some value => rfl
      | none => simp [ParameterCheck.fault?, hvalue] at h
    cases source with
    | named name | ordinal position =>
      simpa [checks, listChecks] using isSome_lookup_iff.mp hgiven
    | filter owner parameter => cases hgiven
  | unknownNamed | missingNamed =>
    cases source with
    | named name =>
      simpa [checks, listChecks] using (Option.isSome_ite.mp h).1
    | _ => cases h
  | unknownOrdinal | missingOrdinal =>
    cases source with
    | ordinal position =>
      simpa [checks, listChecks] using (Option.isSome_ite.mp h).1
    | _ => cases h

/-! ## What is reported -/

theorem validate_eq (hparameters : parameters.Ordered) :
    table.validate parameters query = Option.elim
      ((table.checks parameters).findSome? (·.fault? table parameters query)) (.ok ()) .error := by
  rw [findSome?_checks hparameters, validate]
  split <;>
    · rename_i hfound
      rw [hfound]
      rfl

theorem validate_eq_ok_iff (hparameters : parameters.Ordered) :
    table.validate parameters query = .ok ()
      ↔ ∀ check : ParameterCheck, check.fault? table parameters query = none := by
  have hfound : table.validate parameters query = .ok ()
      ↔ (table.checks parameters).findSome? (·.fault? table parameters query) = none := by
    rw [validate_eq hparameters]
    cases findSome? _ (table.checks parameters) <;> simp
  rw [hfound, findSome?_eq_none_iff]
  constructor
  · intro h check
    by_contra hsome
    exact hsome (h check (mem_checks (Option.isSome_iff_ne_none.mpr hsome)))
  · exact fun h check _ => h check

theorem validate_eq_error_iff (htable : table.Ordered) (hparameters : parameters.Ordered) :
    table.validate parameters query = .error fault
      ↔ table.First ParameterCheck.Examined parameters query fault := by
  have hfound : table.validate parameters query = .error fault
      ↔ (table.checks parameters).findSome? (·.fault? table parameters query) = some fault := by
    rw [validate_eq hparameters]
    cases findSome? _ (table.checks parameters) <;> simp
  have hpairwise := pairwise_checks htable hparameters
  rw [hfound, findSome?_eq_some_iff]
  constructor
  · rintro ⟨before, check, after, hchecks, hfault, hbefore⟩
    refine ⟨check, hfault, fun other hother hexamined => ?_⟩
    rw [hchecks] at hpairwise
    have hmem := mem_checks hother
    rw [hchecks] at hmem
    rcases mem_append.mp hmem with hmem | hmem
    · rw [hbefore other hmem] at hother
      cases hother
    · rcases mem_cons.mp hmem with rfl | hmem
      · exact hexamined.asymm hexamined
      · have hlater := (pairwise_cons.mp (pairwise_append.mp hpairwise).2.1).1 other hmem
        exact hlater.asymm hexamined
  · rintro ⟨check, hfault, hfirst⟩
    obtain ⟨before, after, hchecks⟩ :=
      append_of_mem (mem_checks (Option.isSome_iff_exists.mpr ⟨fault, hfault⟩))
    refine ⟨before, check, after, hchecks, hfault, fun other hother => ?_⟩
    rw [hchecks] at hpairwise
    by_contra hsome
    exact hfirst other (Option.isSome_iff_ne_none.mpr hsome)
      ((pairwise_append.mp hpairwise).2.2 other hother check (.head _))

/-- The faults of the last two defects. -/
theorem fault?_unexpectedList :
    ParameterCheck.fault? table parameters query ⟨.unexpectedList, source⟩ = none
      ↔ ∀ values, parameters.value? source = some (.list values) →
        ∃ info, table.info? source = some info ∧ info.expandable = true := by
  cases hvalue : parameters.value? source with
  | none => simp [ParameterCheck.fault?, hvalue]
  | some value =>
    cases value with
    | single value => simp [ParameterCheck.fault?, hvalue]
    | list values => simp [ParameterCheck.fault?, hvalue, Option.any_eq_true]

theorem fault?_emptyList :
    ParameterCheck.fault? table parameters query ⟨.emptyList, source⟩
      = if parameters.value? source = some (.list []) then some (.emptyList source.text)
        else none := by
  cases hvalue : parameters.value? source with
  | none => simp [ParameterCheck.fault?, hvalue]
  | some value =>
    cases value with
    | single value => simp [ParameterCheck.fault?, hvalue]
    | list values => cases values <;> simp [ParameterCheck.fault?, hvalue]

theorem fits_iff : table.Fits parameters
    ↔ ∀ check : ParameterCheck, check.fault? table parameters query = none := by
  constructor
  · rintro ⟨hnamed, hordinal, hexpandable, hnonempty⟩ ⟨defect, source⟩
    cases defect with
    | unexpectedList => exact fault?_unexpectedList.mpr fun values h => hexpandable h
    | emptyList => rw [fault?_emptyList, if_neg fun h => hnonempty h rfl]
    | _ =>
      cases source with
      | named name => simp only [ParameterCheck.fault?, hnamed, and_not_self, if_false]
      | ordinal position => simp only [ParameterCheck.fault?, hordinal, and_not_self, if_false]
      | filter owner parameter => rfl
  · intro h
    refine ⟨fun name => ?_, fun position => ?_, fun {source values} hvalue => ?_,
      fun {source values} hvalue => ?_⟩
    · exact ⟨by simpa [ParameterCheck.fault?] using h ⟨.unknownNamed, .named name⟩,
        by simpa [ParameterCheck.fault?] using h ⟨.missingNamed, .named name⟩⟩
    · exact ⟨by simpa [ParameterCheck.fault?] using h ⟨.unknownOrdinal, .ordinal position⟩,
        by simpa [ParameterCheck.fault?] using h ⟨.missingOrdinal, .ordinal position⟩⟩
    · exact fault?_unexpectedList.mp (h ⟨.unexpectedList, source⟩) values hvalue
    · rintro rfl
      have hempty := h ⟨.emptyList, source⟩
      rw [fault?_emptyList, if_pos hvalue] at hempty
      cases hempty

/-- Only the last defect is reported as a list without values. -/
theorem fault_eq_emptyList_iff (h : check.fault? table parameters query = some fault) :
    check.defect = .emptyList ↔ ∃ source : ParameterSource, fault = .emptyList source.text := by
  obtain ⟨defect, source⟩ := check
  cases defect with
  | emptyList =>
    rw [fault?_emptyList] at h
    refine iff_of_true rfl ⟨source, ?_⟩
    split at h
    · exact (Option.some.inj h).symm
    · cases h
  | unexpectedList =>
    refine iff_of_false (nomatch ·) ?_
    rintro ⟨source', rfl⟩
    cases hvalue : parameters.value? source with
    | none => simp [ParameterCheck.fault?, hvalue] at h
    | some value => cases value <;> simp [ParameterCheck.fault?, hvalue] at h
  | _ =>
    refine iff_of_false (nomatch ·) ?_
    rintro ⟨source', rfl⟩
    cases source <;> simp [ParameterCheck.fault?] at h

/-- What is reported is the first defect in the documented order too, unless it is
a list without values while another list is not allowed where it stands. -/
theorem first_documented_iff (h : table.First ParameterCheck.Examined parameters query fault) :
    table.First ParameterCheck.Documented parameters query fault
      ↔ ((∃ source : ParameterSource, fault = .emptyList source.text) → ∀ source',
        ParameterCheck.fault? table parameters query ⟨.unexpectedList, source'⟩ = none) := by
  constructor
  · rintro ⟨check, hfault, hfirst⟩ hempty source'
    by_contra hsome
    refine hfirst ⟨.unexpectedList, source'⟩ (Option.isSome_iff_ne_none.mpr hsome) (.inl ?_)
    rw [(fault_eq_emptyList_iff hfault).mpr hempty]
    exact Nat.lt_succ_self 5
  · intro hlists
    obtain ⟨check, hfault, hfirst⟩ := h
    refine ⟨check, hfault, fun other hother hbefore => ?_⟩
    rcases hbefore with hnumber | ⟨hdefect, hsource⟩
    · by_cases hpass : other.defect.pass < check.defect.pass
      · exact hfirst other hother (.inl hpass)
      · -- Two defects are looked for together, and the other one is an unexpected list.
        obtain ⟨hcheck, hunexpected⟩ : check.defect = .emptyList
            ∧ other = ⟨.unexpectedList, other.source⟩ := by
          obtain ⟨defect, source⟩ := check
          obtain ⟨defect', source'⟩ := other
          cases defect <;> cases defect' <;>
            simp [ParameterDefect.pass, ParameterDefect.number] at hnumber hpass ⊢
        rw [hunexpected, hlists ((fault_eq_emptyList_iff hfault).mp hcheck)] at hother
        cases hother
    · exact hfirst other hother (.inr ⟨congrArg _ hdefect, .inl hsource⟩)

/-- Values are accepted exactly if they fit the parameters of the query. Otherwise
the first defect is reported, in the order of the checks; this is the first one in
the documented order as well, unless a list without values is reported while
another list is not allowed where it stands. -/
theorem validate_first_defect (htable : table.Ordered) (hparameters : parameters.Ordered)
    (query : String) :
    (table.validate parameters query = .ok () ↔ table.Fits parameters)
      ∧ ∀ fault, (table.validate parameters query = .error fault
          ↔ table.First ParameterCheck.Examined parameters query fault)
        ∧ (table.validate parameters query = .error fault →
          (table.First ParameterCheck.Documented parameters query fault
            ↔ ((∃ source : ParameterSource, fault = .emptyList source.text) → ∀ source',
              ParameterCheck.fault? table parameters query ⟨.unexpectedList, source'⟩ = none))) := by
  refine ⟨(validate_eq_ok_iff hparameters).trans fits_iff.symm, fun fault => ?_⟩
  have hreported : table.validate parameters query = .error fault
      ↔ table.First ParameterCheck.Examined parameters query fault :=
    validate_eq_error_iff htable hparameters
  exact ⟨hreported, fun h => first_documented_iff (hreported.mp h)⟩

/-- A list in the place of a single value is reported before a list without
values, which comes after it. -/
theorem validate_first_defect_lists : ∃ plan,
    Plan.compile Sample.compiler "q"
        "select p.id from Person p where p.age = :age and p.name in (?1)" [] = .ok plan
      ∧ plan.parameters.validate
          ((set {} "age" (.list [.int 40])).setOrdinal 1 (.list [])) plan.query
        = .error (.unexpectedList ":age")
      ∧ plan.parameters.First ParameterCheck.Documented
          ((set {} "age" (.list [.int 40])).setOrdinal 1 (.list [])) plan.query
          (.unexpectedList ":age") := by
  refine exists_ok_and (fun plan => plan.parameters.validate
      ((set {} "age" (.list [.int 40])).setOrdinal 1 (.list [])) plan.query
    = .error (.unexpectedList ":age")) (by decide +kernel) fun plan hplan hfault => ?_
  have hfirst := validate_first_defect plan.parameters_ordered
    ((Ordered.empty.set "age" (.list [.int 40])).setOrdinal 1 (.list [])) plan.query
  refine ⟨hfault, ((hfirst.2 _).2 hfault).mpr ?_⟩
  rintro ⟨source, hsource⟩
  cases hsource

/-- A list without values is reported although a list in the place of a single
value comes after it. -/
theorem empty_list_before_unexpected : ∃ plan,
    Plan.compile Sample.compiler "q"
        "select p.id from Person p where p.name in (:a) and p.age = :b" [] = .ok plan
      ∧ plan.parameters.validate ((set {} "a" (.list [])).set "b" (.list [.int 1]))
          plan.query = .error (.emptyList ":a")
      ∧ ¬ plan.parameters.First ParameterCheck.Documented
          ((set {} "a" (.list [])).set "b" (.list [.int 1])) plan.query
          (.emptyList ":a") := by
  refine exists_ok_and (fun plan => plan.parameters.validate
        ((set {} "a" (.list [])).set "b" (.list [.int 1])) plan.query = .error (.emptyList ":a")
      ∧ (ParameterCheck.fault? plan.parameters
        ((set {} "a" (.list [])).set "b" (.list [.int 1])) plan.query
        ⟨.unexpectedList, .named "b"⟩).isSome) (by decide +kernel)
    fun plan hplan htest => ⟨htest.1, fun hfirst => ?_⟩
  obtain ⟨hfault, hsome⟩ := htest
  have hreported := (validate_eq_error_iff plan.parameters_ordered
    ((Ordered.empty.set "a" (.list [])).set "b" (.list [.int 1]))).mp hfault
  have hnone := (first_documented_iff hreported).mp hfirst ⟨.named "a", rfl⟩ (.named "b")
  rw [hnone] at hsome
  cases hsome

end ParameterTable

end EntityQuery
