import EntityQuery.Proofs.FromClause
import EntityQuery.Proofs.Scope.Ranges

/-!
# What the conditions of joins refer to

The condition of a join is resolved right after its table has come in, so what it
refers to was there before, or is an implicit join that resolving it has made
(`Scope.Conditioned`). Implicit joins come after the table in the scope, although
its condition refers to them.
-/

namespace EntityQuery

open List

open Sql (Atom)

variable {before added : List ScopeEntry} {enabled : EnabledFilters} {entry : ScopeEntry}

namespace Scope

variable {context : Context} {s s' : Scope}

theorem Step.implicit_subset (h : Step context s s') : s.implicit ⊆ s'.implicit := by
  cases h with
  | root hentity hfree =>
    unfold withRoot withEntry
    split <;> exact List.Subset.refl _
  | joined hjoin =>
    cases hjoin with
    | join hparent hproperty hkind htarget horigin hfree hbulk =>
      intro entry hentry
      rwa [← (joinOrigin_run horigin).2.implicit_eq] at hentry
    | remember helement => exact subset_append_left ..
  | table | giveAlias => exact List.Subset.refl _

theorem Steps.implicit_subset (h : Steps context s s') : s.implicit ⊆ s'.implicit := by
  induction h with
  | refl => exact List.Subset.refl _
  | tail _ hstep ih => exact List.Subset.trans ih hstep.implicit_subset

def Implicit (scope : Scope) (element : Element) : Prop :=
  ∃ key, (key, element) ∈ scope.implicit

theorem Joins.implicit (h : Joins context s s') :
    ∀ element ∈ s'.elements, element ∈ s.elements ∨ s'.Implicit element := by
  induction h with
  | refl => exact fun element helement => .inl helement
  | tail _ hjoin ih =>
    obtain ⟨-, hentries, himplicit, -, -, -, -⟩ := hjoin
    rename_i s₂ owner joined property origin
    intro element helement
    have hmem : element ∈ s₂.elements := helement
    rw [elements, hentries, map_append] at hmem
    rcases mem_append.mp hmem with hold | hnew
    · rcases ih element hold with hstart | ⟨key, hkey⟩
      · exact .inl hstart
      · refine .inr ⟨key, mem_append_left _ ?_⟩
        rwa [himplicit]
    · obtain rfl := mem_singleton.mp hnew
      exact .inr ⟨_, mem_append_right _ (mem_singleton.mpr rfl)⟩

end Scope

/-- All tables that resolving brings in are implicit joins. -/
theorem Resolves.implicit {context : Context} {s s' : Scope} {exprs : List Query.Expr}
    {atoms : List Atom} (h : Resolves context s exprs atoms s') :
    ∀ element ∈ s'.elements, element ∈ s.elements ∨ s'.Implicit element := by
  induction h with
  | nothing | parameter | column | lookup => exact fun element helement => .inl helement
  | joins hjoins => exact hjoins.implicit
  | children _ _ _ ih => exact ih
  | append _ hsecond ihfirst ihsecond =>
    intro element helement
    rcases ihsecond element helement with hmiddle | himplicit
    · rcases ihfirst element hmiddle with hstart | ⟨key, hkey⟩
      · exact .inl hstart
      · exact .inr ⟨key, hsecond.steps.implicit_subset hkey⟩
    · exact .inr himplicit
  | perm _ _ _ ih => exact ih

namespace Scope

variable {context : Context} {s s' : Scope}

/-- What the conditions on the join of a table may refer to: what came in no later,
and implicit joins. -/
def Seen (scope : Scope) (table : Element) (owner : Element) : Prop :=
  owner ∈ scope.elements ∧ (owner.index ≤ table.index ∨ scope.Implicit owner)

/-- The conditions on joins refer to tables of the scope that came in before, or
that are implicit joins. -/
def Conditioned (scope : Scope) : Prop :=
  ∀ entry ∈ scope.entries, ∀ joined ∈ entry.joinedTables, ∀ condition ∈ joined.conditions,
    ∀ atom ∈ condition.atoms, atom.Refers (scope.Seen entry.element)

theorem Seen.mono (helements : s.elements ⊆ s'.elements) (himplicit : s.implicit ⊆ s'.implicit)
    {table owner : Element} (h : s.Seen table owner) : s'.Seen table owner := by
  obtain ⟨hmem, hle | ⟨key, hkey⟩⟩ := h
  · exact ⟨helements hmem, .inl hle⟩
  · exact ⟨helements hmem, .inr ⟨key, himplicit hkey⟩⟩

/-- Tables come in without conditions. -/
theorem Conditioned.steps (h : s.Conditioned) (hsteps : Steps context s s') : s'.Conditioned := by
  obtain ⟨added, hentries, hfresh⟩ := hsteps.entries_append
  intro entry hentry joined hjoined condition hcondition atom hatom
  rw [hentries] at hentry
  rcases mem_append.mp hentry with hold | hnew
  · exact (h entry hold joined hjoined condition hcondition atom hatom).mono
      fun _ => Seen.mono hsteps.elements_subset hsteps.implicit_subset
  · rw [(hfresh entry hnew).bare joined hjoined] at hcondition
    cases hcondition

end Scope

/-- The conditions of a restricted table are its old ones, and the new ones on the
last of its joins. -/
theorem ScopeEntry.mem_conditions_restrict {conditions : List Sql.Condition}
    {joined : Sql.JoinedTable} {condition : Sql.Condition}
    (hjoined : joined ∈ (entry.restrict conditions).joinedTables)
    (hcondition : condition ∈ joined.conditions) :
    (∃ old ∈ entry.joinedTables, condition ∈ old.conditions)
      ∨ condition ∈ conditions ∧ ∃ origin, entry.origin = some origin
        ∧ origin.target.tableAlias = joined.tableAlias := by
  obtain ⟨element, origin⟩ := entry
  cases origin with
  | none => cases hjoined
  | some origin =>
    have htables : (ScopeEntry.restrict ⟨element, some origin⟩ conditions).joinedTables
        = origin.link.toList ++ [{ origin.target with
          conditions := origin.target.conditions ++ conditions }] := rfl
    rw [htables] at hjoined
    rcases mem_append.mp hjoined with hlink | htarget
    · exact .inl ⟨joined, mem_append_left _ hlink, hcondition⟩
    · obtain rfl := mem_singleton.mp htarget
      rcases mem_append.mp hcondition with hold | hnew
      · exact .inl ⟨origin.target, mem_append_right _ (mem_singleton.mpr rfl), hold⟩
      · exact .inr ⟨hnew, origin, rfl, rfl⟩

namespace Scope

variable {context : Context} {s s' : Scope}

theorem implicit_addFound (index : Nat) (found : Option Sql.Term) :
    (s.addFound index found).implicit = s.implicit := by
  cases found <;> rfl

/-- A condition that is put on a join refers to what it refers to there. -/
theorem Conditioned.addFound {found : Option Sql.Term} (h : s.Conditioned)
    (hentries : s.entries = before ++ entry :: added)
    (hfound : ∀ atom ∈ Sql.optionAtoms found, atom.Refers (s.Seen entry.element)) :
    (s.addFound before.length found).Conditioned := by
  have hkeep : ∀ table owner, s.Seen table owner →
      (s.addFound before.length found).Seen table owner := by
    intro table owner hseen
    unfold Seen Implicit at hseen ⊢
    rwa [FromClause.Sound.addFound_elements, implicit_addFound]
  have hold : ∀ old ∈ s.entries, ∀ joined ∈ old.joinedTables, ∀ condition ∈ joined.conditions,
      ∀ atom ∈ condition.atoms, atom.Refers ((s.addFound before.length found).Seen old.element) :=
    fun old hmem joined hjoined condition hcondition atom hatom =>
      (h old hmem joined hjoined condition hcondition atom hatom).mono (hkeep _)
  rw [hentries] at hold
  intro other hother joined hjoined condition hcondition atom hatom
  rw [FromClause.Sound.addFound_entries hentries] at hother
  rcases mem_append.mp hother with hbefore | hrest
  · exact hold other (mem_append_left _ hbefore) joined hjoined condition hcondition atom hatom
  · rcases mem_cons.mp hrest with rfl | hafter
    · rcases ScopeEntry.mem_conditions_restrict hjoined hcondition with
        ⟨old, holdMem, hmem⟩ | ⟨hnew, -⟩
      · exact hold entry (mem_append_right _ (.head _)) old holdMem condition hmem atom hatom
      · obtain ⟨term, hterm, rfl⟩ := mem_map.mp hnew
        exact (hfound atom (mem_flatMap.mpr ⟨term, hterm, hatom⟩)).mono (hkeep _)
    · exact hold other (mem_append_right _ (.tail _ hafter)) joined hjoined condition
        hcondition atom hatom

theorem Conditioned.joined {join : Query.Join} (h : s.Conditioned)
    (hjoined : Joined context join s s') : s'.Conditioned := by
  obtain ⟨hvalid, hpath, hjoin, hentries, -, hfound, -⟩ := hjoined
  rename_i s₁ s₂ s₃ element origin found
  have hvalid₂ := (hvalid.joins hpath).joinStep hjoin
  have hconditioned : s₃.Conditioned :=
    ((h.steps hpath.steps).steps (.single (.joined hjoin))).steps hfound.steps
  obtain ⟨added, hadded, -⟩ := hfound.steps.entries_append
  rw [hentries, append_assoc, singleton_append] at hadded
  have hindex : element.index = s₁.entries.length := by
    have hposition : s₂.entries[s₁.entries.length]? = some ⟨element, some origin⟩ := by
      rw [hentries, List.getElem?_append_right (Nat.le_refl _), Nat.sub_self]
      rfl
    exact (hvalid₂.entry hposition).index_eq
  refine hconditioned.addFound hadded fun atom hatom => ?_
  refine (hfound.refers atom hatom).mono fun owner howner => ⟨howner, ?_⟩
  -- What the condition refers to was there with the table, or came in for it.
  refine (hfound.implicit owner howner).imp_left fun hbefore => ?_
  have hlt := (List.getElem?_eq_some_iff.mp (hvalid₂.getElem?_index hbefore)).1
  rw [elements, length_map, hentries, length_append] at hlt
  rw [hindex]
  exact Nat.lt_succ_iff.mp hlt

theorem Conditioned.filtered {rooted : List Sql.Template} (h : s.Conditioned)
    (hfiltered : s.filtered enabled = .ok (s', rooted)) : s'.Conditioned := by
  have helements := filtered_elements hfiltered
  obtain ⟨tables, hentries, -, rfl, -⟩ := filtered_eq_ok hfiltered
  intro entry hentry joined hjoined condition hcondition atom hatom
  obtain ⟨table, htable, rfl⟩ := mem_map.mp hentry
  have hmem : table.entry ∈ s.entries := hentries ▸ mem_map_of_mem htable
  rcases ScopeEntry.mem_conditions_restrict hjoined hcondition with
    ⟨old, hold, hcond⟩ | ⟨hnew, -⟩
  · refine (h table.entry hmem old hold condition hcond atom hatom).mono fun owner howner => ?_
    exact ⟨by rw [helements]; exact howner.1, howner.2⟩
  · obtain ⟨template, -, rfl⟩ := mem_map.mp hnew
    obtain ⟨slot, -, rfl⟩ := mem_map.mp hatom
    trivial

end Scope

end EntityQuery
