import EntityQuery.Proofs.Result.Attaching
import EntityQuery.Proofs.Sample
import EntityQuery.Proofs.Select

/-!
# Results with collections

Where a collection is fetched, the rows that agree in what identifies their
values make up one result. `MergedFrom` is what the results keep while the rows
are taken in one after the other: there is one of them for each identity so far,
in the order in which these came up, and a relation that merging keeps holds
between each loaded entity and the rows of its result.

A row is added to the result with its key. Keys are compared as texts, and that
is the same as comparing identities since all rows have values of the same
shapes (`rowKey_eq_iff`).
-/

namespace EntityQuery

open List ResultValue

variable {rows : List Row} {plan : Plan}

/-! ## Merging values -/

namespace ResultValue

theorem merge_identity (value found : ResultValue) :
    (value.merge found).identity = value.identity := by
  cases value with
  | entity owner =>
    cases found with
    | entity other =>
      show Identity.entity (owner.merge other).entity (owner.merge other).id.mark = _
      rw [Instance.merge_entity, Instance.merge_id]
      rfl
    | _ => rfl
  | _ => rfl

theorem fits_merge {shape : KeyShape} {value : ResultValue} (h : shape.Fits value)
    (found : ResultValue) : shape.Fits (value.merge found) := by
  cases value with
  | entity owner =>
    cases found with
    | entity other =>
      show shape.Fits (Fetch.onEntity (·.merge other) (.entity owner))
      exact fits_onEntity (fun found => found.merge_id other)
        (fun found => found.merge_entity other) h
    | _ => exact h
  | _ => exact h

/-- Values of one shape that are identified in the same way are both loaded, or
neither is. -/
theorem exists_entity_of_identity_eq {shape : KeyShape} {found : Instance} {value : ResultValue}
    (h : shape.Fits (.entity found)) (h' : shape.Fits value)
    (hidentity : identity (.entity found) = value.identity) : ∃ other, value = .entity other := by
  cases shape with
  | scalar =>
    obtain ⟨scalar, hscalar⟩ := h
    cases hscalar
  | component name fields =>
    rcases h with h | ⟨entries, h, -⟩ <;> cases h
  | reference name =>
    rcases h with h | ⟨id, h, -⟩ <;> cases h
  | entity name =>
    rcases h' with rfl | ⟨other, rfl, -⟩
    · cases hidentity
    · exact ⟨other, rfl⟩

end ResultValue

section Zipped

variable {shapes : List KeyShape} {values values' : List ResultValue}

theorem identities_zipWith_merge (h : values.length = values'.length) :
    (values.zipWith merge values').map identity
      = values.map identity := by
  rw [map_zipWith]
  refine ext_getElem (by simp [h]) fun number hnumber hnumber' => ?_
  simp [merge_identity]

theorem fits_zipWith_merge (h : List.Forall₂ KeyShape.Fits shapes values) :
    ∀ {values'}, values.length = values'.length →
      List.Forall₂ KeyShape.Fits shapes (values.zipWith merge values') := by
  induction h with
  | nil => exact fun _ => .nil
  | cons hhead _ ih =>
    intro values' hlength
    cases values' with
    | nil => cases hlength
    | cons found values' =>
      exact .cons (fits_merge hhead found) (ih (Nat.succ.inj hlength))

/-- A loaded entity of merged values comes from one of each side. -/
theorem entity_of_zipWith_merge (h : List.Forall₂ KeyShape.Fits shapes values)
    (h' : List.Forall₂ KeyShape.Fits shapes values')
    (hidentities : values.map identity = values'.map identity) {number : Nat} {found : Instance}
    (hfound : (values.zipWith merge values')[number]? = some (.entity found)) :
    ∃ owner other, values[number]? = some (.entity owner) ∧ values'[number]? = some (.entity other)
      ∧ owner.id.mark = other.id.mark ∧ found = owner.merge other := by
  obtain ⟨value, value', hvalue, hvalue', hmerge⟩ := getElem?_zipWith_eq_some.mp hfound
  obtain ⟨shape, hshape, hfits⟩ := exists_getElem?_of_forall₂ h hvalue
  obtain ⟨shape', hshape', hfits'⟩ := exists_getElem?_of_forall₂ h' hvalue'
  obtain rfl := Option.some.inj (hshape.symm.trans hshape')
  have hidentity : value.identity = value'.identity := by
    have hnumber := congrArg (·[number]?) hidentities
    simpa [hvalue, hvalue'] using hnumber
  cases value with
  | entity owner =>
    obtain ⟨other, rfl⟩ := exists_entity_of_identity_eq hfits hfits' hidentity
    exact ⟨owner, other, hvalue, hvalue', (Identity.entity.inj hidentity).2,
      (Outcome.entity.inj hmerge).symm⟩
  | _ => cases hmerge

end Zipped

/-! ## Taking in rows -/

/-- The results so far, for the rows that are taken in, with a relation between
the rows of a result and each entity that is loaded for a return. -/
structure MergedFrom (G : Nat → List Row → Instance → Prop) (returns : List Return)
    (done : List Row) (merged : MergedRows) : Prop where
  keyed : ∀ entry ∈ merged, entry.1 = rowKey entry.2
  fits : ∀ entry ∈ merged, List.Forall₂ KeyShape.Fits (returns.map Return.keyShape) entry.2
  identities : merged.map (fun entry => some (entry.2.map identity))
    = (done.map (·.identity? returns)).eraseDups
  related : ∀ entry ∈ merged, ∀ {number found}, entry.2[number]? = some (.entity found) →
    G number (done.filter fun row => row.identity? returns = some (entry.2.map identity)) found

/-- A relation between rows and an entity that is kept when one more row is
merged. -/
def MergeKeeps (G : Nat → List Row → Instance → Prop) : Prop :=
  ∀ ⦃number rows row owner other⦄, G number rows owner → G number [row] other →
    owner.id.mark = other.id.mark → G number (rows ++ [row]) (owner.merge other)

namespace MergedFrom

variable {G : Nat → List Row → Instance → Prop} {returns : List Return} {done : List Row}
  {merged : MergedRows} {row : Row} {values : List ResultValue}

theorem key_eq_iff (h : MergedFrom G returns done merged)
    (hrow : row.Reads G returns values) {entry : String × List ResultValue}
    (hentry : entry ∈ merged) : (entry.1 == rowKey values) = true
      ↔ entry.2.map identity = values.map identity := by
  rw [beq_iff_eq, h.keyed entry hentry, rowKey_eq_iff (h.fits entry hentry) hrow.fits]

theorem add_new (h : MergedFrom G returns done merged) (hrow : row.Reads G returns values)
    (hnew : some (values.map identity) ∉ done.map (·.identity? returns)) :
    MergedFrom G returns (done ++ [row]) (merged ++ [(rowKey values, values)]) := by
  refine ⟨?_, ?_, ?_, ?_⟩
  · exact forall_mem_append.mpr ⟨h.keyed, forall_mem_singleton.mpr rfl⟩
  · exact forall_mem_append.mpr ⟨h.fits, forall_mem_singleton.mpr hrow.fits⟩
  · rw [map_append, h.identities, map_append, map_singleton, map_singleton,
      eraseDups_concat, hrow.identities, if_neg hnew]
  · refine forall_mem_append.mpr ⟨?_, forall_mem_singleton.mpr ?_⟩
    · intro entry hentry number found hfound
      have hother : row.identity? returns ≠ some (entry.2.map identity) := by
        intro hsame
        rw [hrow.identities] at hsame
        refine hnew (mem_eraseDups.mp ?_)
        rw [← h.identities, hsame]
        exact mem_map_of_mem hentry
      rw [filter_append, filter_cons_of_neg (by simpa using hother), filter_nil, append_nil]
      exact h.related entry hentry hfound
    · intro number found hfound
      have hnone : done.filter (fun row => row.identity? returns
          = some (values.map identity)) = [] := by
        rw [filter_eq_nil_iff]
        intro other hother hsame
        exact hnew (mem_map.mpr ⟨other, hother, by simpa using hsame⟩)
      rw [filter_append, hnone, nil_append, filter_cons_of_pos (by simpa using hrow.identities)]
      exact hrow.related hfound

theorem add_known (hkeeps : MergeKeeps G)
    (h : MergedFrom G returns done merged) (hrow : row.Reads G returns values)
    (hknown : some (values.map identity) ∈ done.map (·.identity? returns)) :
    MergedFrom G returns (done ++ [row]) (merged.map fun entry =>
      if entry.1 == rowKey values then (entry.1, entry.2.zipWith merge values)
      else entry) := by
  have hlength : ∀ entry ∈ merged, entry.2.length = values.length := fun entry hentry =>
    (h.fits entry hentry).length_eq.symm.trans hrow.fits.length_eq
  -- Merging changes nothing that identifies an entry.
  have hchange : ∀ entry ∈ merged, (entry.2.zipWith merge values).map
      identity = entry.2.map identity := fun entry hentry =>
    identities_zipWith_merge (hlength entry hentry)
  have hfits : ∀ entry ∈ merged, List.Forall₂ KeyShape.Fits (returns.map Return.keyShape)
      (entry.2.zipWith merge values) := fun entry hentry =>
    fits_zipWith_merge (h.fits entry hentry) (hlength entry hentry)
  refine ⟨?_, ?_, ?_, ?_⟩
  · refine forall_mem_map.mpr fun entry hentry => ?_
    split
    · show entry.1 = rowKey (entry.2.zipWith merge values)
      rw [(rowKey_eq_iff (hfits entry hentry) (h.fits entry hentry)).mpr (hchange entry hentry)]
      exact h.keyed entry hentry
    · exact h.keyed entry hentry
  · refine forall_mem_map.mpr fun entry hentry => ?_
    split
    · exact hfits entry hentry
    · exact h.fits entry hentry
  · rw [map_append, map_singleton, eraseDups_concat, hrow.identities, if_pos hknown,
      ← h.identities, map_map]
    refine map_congr_left fun entry hentry => ?_
    show some (List.map _ (Prod.snd (if _ then _ else _))) = _
    split
    · exact congrArg some (hchange entry hentry)
    · rfl
  · refine forall_mem_map.mpr fun entry hentry => ?_
    intro number found hfound
    by_cases hsame : (entry.1 == rowKey values) = true
    · have hidentities := (h.key_eq_iff hrow hentry).mp hsame
      rw [if_pos hsame] at hfound ⊢
      obtain ⟨owner, other, howner, hother, hmark, rfl⟩ :=
        entity_of_zipWith_merge (h.fits entry hentry) hrow.fits hidentities hfound
      show G _ (List.filter (fun row => row.identity? returns
        = some ((entry.2.zipWith merge values).map _)) _) _
      rw [hchange entry hentry, filter_append,
        filter_cons_of_pos (by simpa [hidentities] using hrow.identities)]
      exact hkeeps (h.related entry hentry howner) (hrow.related hother) hmark
    · have hother : row.identity? returns ≠ some (entry.2.map identity) := by
        intro heq
        rw [hrow.identities] at heq
        exact hsame ((h.key_eq_iff hrow hentry).mpr (Option.some.inj heq).symm)
      rw [if_neg hsame] at hfound ⊢
      rw [filter_append, filter_cons_of_neg (by simpa using hother), filter_nil, append_nil]
      exact h.related entry hentry hfound

theorem add (hkeeps : MergeKeeps G)
    (h : MergedFrom G returns done merged) (hrow : row.Reads G returns values) :
    MergedFrom G returns (done ++ [row]) (merged.add values) := by
  have hany : merged.any (fun entry => entry.1 == rowKey values) = true
      ↔ some (values.map identity) ∈ done.map (·.identity? returns) := by
    rw [← mem_eraseDups, ← h.identities, any_eq_true, mem_map]
    refine exists_congr fun entry => and_congr_right fun hentry => ?_
    rw [h.key_eq_iff hrow hentry, Option.some_inj]
  unfold MergedRows.add
  by_cases hknown : some (values.map identity) ∈ done.map (·.identity? returns)
  · rw [if_pos (hany.mpr hknown), changeFirst_eq_map]
    · exact h.add_known hkeeps hrow hknown
    · -- No two results have the same identities, hence no two the same key.
      have hnodup := nodup_eraseDups (done.map (·.identity? returns))
      rw [← h.identities] at hnodup
      refine (pairwise_map.mp hnodup).imp_of_mem ?_
      intro entry entry' hentry hentry' hne hsame
      rw [h.key_eq_iff hrow hentry] at hsame
      rw [← Bool.not_eq_true, h.key_eq_iff hrow hentry']
      exact fun hsame' => hne (congrArg some (hsame.trans hsame'.symm))
  · rw [if_neg fun hsome => hknown (hany.mp hsome)]
    exact h.add_new hrow hknown

theorem nil : MergedFrom G returns [] [] :=
  ⟨forall_mem_nil _, forall_mem_nil _, rfl, forall_mem_nil _⟩

theorem foldl (hkeeps : MergeKeeps G) {read : List (List ResultValue)}
    (hrows : List.Forall₂ (fun row values => row.Reads G returns values) rows read) :
    ∀ {done merged}, MergedFrom G returns done merged →
      MergedFrom G returns (done ++ rows) (read.foldl MergedRows.add merged) := by
  induction hrows with
  | nil =>
    intro done merged h
    rw [append_nil]
    exact h
  | @cons row values rows read hrow _ ih =>
    intro done merged h
    rw [append_cons]
    exact ih (h.add hkeeps hrow)

end MergedFrom

/-! ## The results of a plan -/

/-- The rows belong together in results: one for each identity of the rows, in
the order in which these come up, with a relation between the rows of a result
and each entity that is loaded for a return. -/
structure Plan.MergesBy (G : Nat → List Row → Instance → Prop) (plan : Plan) (rows : List Row)
    (merged : List (List ResultValue)) : Prop where
  identities : merged.map (fun values => some (values.map identity))
    = (rows.map (·.identity? plan.returns)).eraseDups
  fits : ∀ values ∈ merged, List.Forall₂ KeyShape.Fits (plan.returns.map Return.keyShape) values
  related : ∀ values ∈ merged, ∀ {number found}, values[number]? = some (.entity found) →
    G number (rows.filter fun row => row.identity? plan.returns
      = some (values.map identity)) found

namespace Plan

theorem MergesBy.mono {G G' : Nat → List Row → Instance → Prop} {merged : List (List ResultValue)}
    (h : plan.MergesBy G rows merged)
    (himp : ∀ {number part found}, G number part found → G' number part found) :
    plan.MergesBy G' rows merged :=
  ⟨h.identities, h.fits, fun values hvalues _ _ hfound => himp (h.related values hvalues hfound)⟩

theorem ownersFirst_of_compile {compiler : Compiler} {identifier query : String}
    {substitutions : List (String × String)}
    (h : compile compiler identifier query substitutions = .ok plan)
    (hselect : plan.kind.isManipulation = false) : Fetch.OwnersFirst plan.fetches := by
  obtain ⟨text, select, run, -, -, rfl⟩ := exists_selectRun_of_compile h hselect
  exact run.list_resolved.owned.owners

theorem isManipulation_of_fetchesCollection {kind : PlanKind} (h : kind.fetchesCollection) :
    kind.isManipulation = false := by
  cases kind with
  | select collectionFetch => rfl
  | update | delete => cases h

/-- Rows that can be read one by one can be read together. -/
theorem exists_values_of_readRow (h : ∀ row ∈ rows, ∃ result, plan.readRow row = .ok result) :
    ∃ read, (rows.mapM fun row => row.values plan.returns plan.fetches) = .ok read := by
  refine exists_mapM_eq_ok.mpr fun row hrow => ?_
  obtain ⟨result, hresult⟩ := h row hrow
  obtain ⟨values, hvalues, -⟩ := bind_eq_ok.mp hresult
  exact ⟨values, hvalues⟩

/-- Rows that can be read make up results, by any relation that holds for each of
them and is kept by merging. -/
theorem exists_mergesBy {G : Nat → List Row → Instance → Prop} (hkeeps : MergeKeeps G)
    (hcollection : plan.kind.fetchesCollection)
    (hrows : ∀ row ∈ rows, ∃ result, plan.readRow row = .ok result)
    (hreads : ∀ row ∈ rows, ∀ {values}, row.values plan.returns plan.fetches = .ok values →
      row.Reads G plan.returns values) :
    ∃ merged, plan.readRows rows = .ok (merged.map plan.result)
      ∧ plan.MergesBy G rows merged := by
  obtain ⟨read, hread⟩ := exists_values_of_readRow hrows
  have hread' : List.Forall₂ (fun row values => row.Reads G plan.returns values) rows read :=
    ((forall₂_and_left rows read).mpr ⟨fun _ hrow => hrow, mapM_eq_ok_iff.mp hread⟩).imp
      fun row _ h => hreads row h.1 h.2
  have hmerged := MergedFrom.nil.foldl hkeeps hread'
  rw [nil_append] at hmerged
  refine ⟨mergeRows read, ?_, ?_, ?_, ?_⟩
  · rw [readRows, hread]
    show Except.ok (List.map plan.result (if plan.kind.fetchesCollection then _ else _)) = _
    rw [if_pos hcollection]
  · rw [mergeRows, map_map]
    exact hmerged.identities
  · exact forall_mem_map.mpr hmerged.fits
  · refine forall_mem_map.mpr fun entry hentry => ?_
    exact hmerged.related entry hentry

end Plan

end EntityQuery
