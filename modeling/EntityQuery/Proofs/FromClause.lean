import EntityQuery.Plan.Compile
import EntityQuery.Proofs.Typing

/-!
# The from clause

The ranges and joins of a query are brought into the scope one after the
other. `FromClause.Sound` says what holds along the way: the scope is valid,
the tables of the clause are tables of the scope, and every entry of the
scope is accounted for by a mark. An entry marked with a join of the query
was made by it, and carries its condition and nothing else; an entry without
a mark, a root or an implicit join, carries no condition. The marks, read in
order, are the joins of the query.
-/

namespace EntityQuery

open List Sql Query FromClause

open Scoped

variable {join : Join} {context : Context} {s s' : Scope} {clause : FromClause}

/-- The conditions of a join are what the condition in the query, if there is
one, was resolved to. -/
def Sql.Condition.Resolves (context : Context) (expr : Option Expr)
    (conditions : List Condition) : Prop :=
  ∃ s s' found, s.Valid ∧ (Typed.condition context expr).run s = .ok (found, s')
    ∧ conditions = found.toList.map .term

/-- How an entry of the scope is accounted for: its entity is one of the model,
and its conditions are those of the join it is marked with. -/
structure ScopeEntry.Accounted (context : Context) (entry : ScopeEntry)
    (mark : Option Join) : Prop where
  mapped : ∃ name, context.model.entity name = .ok entry.element.entity
  unmarked : mark = none → entry.Bare
  marked : ∀ join, mark = some join → ∃ origin, entry.origin = some origin
    ∧ (∀ link, origin.link = some link → link.conditions = [])
    ∧ Condition.Resolves context join.condition origin.target.conditions

/-- What holds of a from clause while it is brought into the scope. -/
structure FromClause.Sound (context : Context) (clause : FromClause) (scope : Scope)
    (marks : List (Option Join)) : Prop where
  valid : scope.Valid
  bulk_eq : scope.bulk = false
  elements_mem : ∀ element ∈ clause.elements, element ∈ scope.elements
  fetches_mem : ∀ fetch ∈ clause.fetches,
    fetch.element ∈ scope.elements ∧ fetch.owner ∈ scope.elements
  accounted : List.Forall₂ (ScopeEntry.Accounted context) scope.entries marks

namespace Scope

def addFound (scope : Scope) (index : Nat) : Option Term → Scope
  | some term => scope.addCondition index (.term term)
  | none => scope

end Scope

def FromClause.withJoin (clause : FromClause) (fetched : Bool) (join : FetchJoin) : FromClause :=
  if fetched then { clause with fetches := clause.fetches ++ [join] }
  else { clause with elements := clause.elements ++ [join.element] }

namespace Lowered

variable {context : Context} {s s' : Scope} {clause clause' : FromClause}

/-- The stages of bringing in a join: its owner is found, the table comes in,
and the condition is resolved and put on it. -/
theorem addJoin_run (h : (addJoin context clause join).run s = .ok (clause', s')) :
    ∃ owner property element found s₁ s₂ s₃,
      (Scope.joinOwner context join.path).run s = .ok ((owner, property), s₁)
      ∧ (Scope.addJoin context owner property join.kind join.alias?).run s₁ = .ok (element, s₂)
      ∧ (Typed.condition context join.condition).run s₂ = .ok (found, s₃)
      ∧ s' = s₃.addFound element.index found
      ∧ clause' = clause.withJoin (join.fetch && !context.shallow) ⟨element, owner, property⟩ := by
  obtain ⟨⟨owner, property⟩, s₁, howner, h⟩ := run_bind.mp h
  obtain ⟨element, s₂, hjoin, h⟩ := run_bind.mp h
  obtain ⟨found, s₃, hfound, h⟩ := run_bind.mp h
  refine ⟨owner, property, element, found, s₁, s₂, s₃, howner, hjoin, hfound, ?_⟩
  -- Once the condition is on the join, only the clause is left to put together.
  have hclause : ∀ {s₄}, (if join.fetch && !context.shallow then
        pure { clause with fetches := clause.fetches ++ [⟨element, owner, property⟩] }
        else pure { clause with elements := clause.elements ++ [element] } : Scoped FromClause).run
          s₄ = .ok (clause', s') →
      s' = s₄ ∧ clause' = clause.withJoin (join.fetch && !context.shallow)
        ⟨element, owner, property⟩ := by
    intro s₄ hrun
    unfold withJoin
    split at hrun <;> rename_i hfetched <;> obtain ⟨rfl, rfl⟩ := run_pure.mp hrun
    · exact ⟨rfl, (if_pos hfetched).symm⟩
    · exact ⟨rfl, (if_neg hfetched).symm⟩
  cases found with
  | some term =>
    obtain ⟨_, s₄, hmodify, h⟩ := run_bind.mp h
    obtain rfl := run_modify.mp hmodify
    exact hclause h
  | none => exact hclause h

end Lowered

/-! ## What the stages keep -/

namespace FromClause.Sound

variable {context : Context} {s s' : Scope} {clause clause' : FromClause}
  {marks : List (Option Join)}

theorem forall₂_replicate_none {entries : List ScopeEntry}
    (h : ∀ entry ∈ entries, entry.Fresh context) :
    List.Forall₂ (ScopeEntry.Accounted context) entries (List.replicate entries.length none) := by
  induction entries with
  | nil => exact .nil
  | cons entry rest ih =>
    obtain ⟨hentry, hrest⟩ := forall_mem_cons.mp h
    exact .cons ⟨hentry.mapped, fun _ => hentry.bare, nofun⟩ (ih hrest)

/-- The steps of a growing scope add entries without a mark. -/
theorem steps (hsound : clause.Sound context s marks) (hsteps : Scope.Steps context s s') :
    ∃ n, clause.Sound context s' (marks ++ List.replicate n none) := by
  obtain ⟨added, hentries, hfresh⟩ := hsteps.entries_append
  refine ⟨added.length, hsound.valid.steps hsteps, ?_, ?_, ?_, ?_⟩
  · rw [hsteps.bulk_eq, hsound.bulk_eq]
  · intro element helement
    exact hsteps.elements_subset (hsound.elements_mem element helement)
  · intro fetch hfetch
    obtain ⟨hjoined, howner⟩ := hsound.fetches_mem fetch hfetch
    exact ⟨hsteps.elements_subset hjoined, hsteps.elements_subset howner⟩
  · rw [hentries]
    exact rel_append hsound.accounted (forall₂_replicate_none hfresh)

/-- What an entry looks like once the condition of its join is on it. -/
theorem accounted_of_fresh {entry : ScopeEntry} {origin : JoinOrigin} {found : Option Term}
    (horigin : entry.origin = some origin) (hfresh : entry.Fresh context) (hvalid : s.Valid)
    (hfound : (Typed.condition context join.condition).run s = .ok (found, s')) :
    (entry.restrict (found.toList.map .term)).Accounted context (some join) := by
  have htables : entry.joinedTables = origin.link.toList ++ [origin.target] := by
    rw [ScopeEntry.joinedTables, horigin]
  refine ⟨hfresh.mapped, nofun, ?_⟩
  rintro _ ⟨rfl⟩
  refine ⟨{ origin with target := { origin.target with
      conditions := origin.target.conditions ++ found.toList.map .term } }, ?_, ?_,
    s, s', found, hvalid, hfound, ?_⟩
  · rw [ScopeEntry.restrict, horigin]
    rfl
  · intro link hlink
    apply hfresh.bare link
    rw [htables]
    exact mem_append_left _ (Option.mem_toList.mpr hlink)
  · have htarget : origin.target.conditions = [] := by
      apply hfresh.bare origin.target
      rw [htables]
      exact mem_append_right _ (mem_singleton.mpr rfl)
    simp only [htarget, nil_append]

theorem restrict_nil (entry : ScopeEntry) : entry.restrict [] = entry := by
  obtain ⟨element, origin⟩ := entry
  cases origin <;> simp [ScopeEntry.restrict]

theorem addFound_entries {before added : List ScopeEntry} {entry : ScopeEntry}
    {found : Option Term} (h : s.entries = before ++ entry :: added) :
    (s.addFound before.length found).entries
      = before ++ entry.restrict (found.toList.map .term) :: added := by
  cases found with
  | none => simpa [Scope.addFound, restrict_nil] using h
  | some term => simp [Scope.addFound, Scope.addCondition, h, modify_eq_take_drop]

theorem addFound_elements (index : Nat) (found : Option Term) :
    (s.addFound index found).elements = s.elements := by
  cases found with
  | none => rfl
  | some term => exact Scope.elements_addCondition ..

theorem addFound_bulk (index : Nat) (found : Option Term) :
    (s.addFound index found).bulk = s.bulk := by
  cases found <;> rfl

theorem addFound_valid (hvalid : s.Valid) (index : Nat) (found : Option Term) :
    (s.addFound index found).Valid := by
  cases found with
  | none => exact hvalid
  | some term => exact hvalid.addCondition ..

/-- The clause with one more join, all of whose tables are in the scope. -/
theorem withJoin_mem (fetched : Bool) {join : FetchJoin}
    (hmem : ∀ element ∈ clause.elements, element ∈ s.elements)
    (hfetches : ∀ fetch ∈ clause.fetches, fetch.element ∈ s.elements ∧ fetch.owner ∈ s.elements)
    (hjoined : join.element ∈ s.elements) (howner : join.owner ∈ s.elements) :
    (∀ element ∈ (clause.withJoin fetched join).elements, element ∈ s.elements)
      ∧ ∀ fetch ∈ (clause.withJoin fetched join).fetches,
        fetch.element ∈ s.elements ∧ fetch.owner ∈ s.elements := by
  unfold withJoin
  split
  · exact ⟨hmem, forall_mem_append.mpr ⟨hfetches, forall_mem_singleton.mpr ⟨hjoined, howner⟩⟩⟩
  · exact ⟨forall_mem_append.mpr ⟨hmem, forall_mem_singleton.mpr hjoined⟩, hfetches⟩

theorem addJoin (hsound : clause.Sound context s marks)
    (h : (Lowered.addJoin context clause join).run s = .ok (clause', s')) :
    ∃ marks', clause'.Sound context s' (marks ++ marks') ∧ marks'.filterMap id = [join] := by
  obtain ⟨owner, property, element, found, s₁, s₂, s₃, howner, hjoin, hfound, rfl, rfl⟩ :=
    Lowered.addJoin_run h
  obtain ⟨hjoins, hownerMem⟩ := Scope.joinOwner_run hsound.valid howner
  obtain ⟨n, hsound₁⟩ := hsound.steps hjoins.steps
  obtain ⟨hjoinStep, origin, hentries₂, -, hindex, hfresh⟩ :=
    Scope.addJoin_run hsound₁.bulk_eq hownerMem hjoin
  have hstep : Scope.Step context s₁ s₂ := .joined hjoinStep
  have hvalid₂ := hsound₁.valid.step hstep
  have hsteps₃ := ((Typed.condition_resolves join.condition).resolves hvalid₂ hfound).steps
  obtain ⟨added, hentries₃, hadded⟩ := hsteps₃.entries_append
  have hentries : s₃.entries = s₁.entries ++ ⟨element, some origin⟩ :: added := by
    rw [hentries₃, hentries₂, append_assoc, singleton_append]
  have hsubset : s₁.elements ⊆ s₃.elements :=
    Scope.Steps.elements_subset (.head hstep hsteps₃)
  have hjoined : element ∈ s₃.elements := by
    rw [Scope.elements, hentries, map_append]
    exact mem_append_right _ (mem_cons_self ..)
  let fetchJoin : FetchJoin := ⟨element, owner, property⟩
  have hclause := withJoin_mem (join.fetch && !context.shallow)
    (fun e he => hsubset (hsound₁.elements_mem e he))
    (fun f hf => ⟨hsubset (hsound₁.fetches_mem f hf).1, hsubset (hsound₁.fetches_mem f hf).2⟩)
    (show fetchJoin.element ∈ s₃.elements from hjoined) (hsubset hownerMem)
  refine ⟨List.replicate n none ++ some join :: List.replicate added.length none,
    ⟨addFound_valid (hvalid₂.steps hsteps₃) _ _, ?_, ?_, ?_, ?_⟩, by simp⟩
  · rw [addFound_bulk, hsteps₃.bulk_eq, hstep.bulk_eq, hsound₁.bulk_eq]
  · rw [addFound_elements]
    exact hclause.1
  · rw [addFound_elements]
    exact hclause.2
  · rw [hindex, addFound_entries hentries, ← append_assoc]
    exact rel_append hsound₁.accounted (.cons
      (accounted_of_fresh rfl hfresh hvalid₂ hfound) (forall₂_replicate_none hadded))

theorem addRoot {name : String} {alias? : Option String} {root : Element}
    (hsound : clause.Sound context s marks)
    (h : (Scope.addRoot context name alias?).run s = .ok (root, s')) :
    ∃ n, Sound context { clause with elements := clause.elements ++ [root] } s'
      (marks ++ List.replicate n none) := by
  obtain ⟨hstep, hentries⟩ := Scope.addRoot_run h
  obtain ⟨n, hsound'⟩ := hsound.steps (.single hstep)
  refine ⟨n, hsound'.valid, hsound'.bulk_eq, ?_, hsound'.fetches_mem, hsound'.accounted⟩
  refine forall_mem_append.mpr ⟨hsound'.elements_mem, forall_mem_singleton.mpr ?_⟩
  rw [Scope.elements, hentries, map_append]
  exact mem_append_right _ (mem_singleton.mpr rfl)

theorem addRange {range : Range} (hsound : clause.Sound context s marks)
    (h : (Lowered.addRange context clause range).run s = .ok (clause', s')) :
    ∃ marks', clause'.Sound context s' (marks ++ marks')
      ∧ marks'.filterMap id = range.joins := by
  obtain ⟨root, s₁, hroot, hjoins⟩ := run_bind.mp h
  obtain ⟨n, hsound₁⟩ := hsound.addRoot hroot
  refine foldlM_invariant
    (motive := fun joins clause₁ s₁ => ∃ marks', clause₁.Sound context s₁ (marks ++ marks')
      ∧ marks'.filterMap id = joins)
    (fun _ hdone hjoin => ?_) ⟨_, hsound₁, by simp⟩ hjoins
  obtain ⟨marks₁, hsound₂, hmarks₁⟩ := hdone
  obtain ⟨marks₂, hsound₃, hmarks₂⟩ := hsound₂.addJoin hjoin
  exact ⟨marks₁ ++ marks₂, append_assoc .. ▸ hsound₃, by rw [filterMap_append, hmarks₁, hmarks₂]⟩

end FromClause.Sound

/-! ## The scope alone -/

/-- What a join of the query does to the scope. Its path brings in implicit joins,
then the table comes in, and then its condition is resolved, which may bring in
more, and is put on the table. -/
inductive Scope.Joined (context : Context) (join : Join) : Scope → Scope → Prop where
  | intro {s s₁ s₂ s₃ : Scope} {element : Element} {origin : JoinOrigin}
      {found : Option Term} (hvalid : s.Valid) (hpath : Scope.Joins context s s₁)
      (hjoin : Scope.JoinStep context s₁ s₂)
      (hentries : s₂.entries = s₁.entries ++ [⟨element, some origin⟩])
      (himplicit : s₂.implicit = s₁.implicit)
      (hfound : Resolves context s₂ join.exprs (optionAtoms found) s₃)
      (hrun : ∃ parent property kind alias?, parent ∈ s₁.elements ∧ s₁.bulk = false
        ∧ (Scope.addJoin context parent property kind alias?).run s₁ = .ok (element, s₂)) :
      Joined context join s (s₃.addFound s₁.entries.length found)

theorem Scope.Joined.bulk_eq (h : Scope.Joined context join s s') : s'.bulk = s.bulk := by
  obtain ⟨-, hpath, hjoin, -, -, hfound, -⟩ := h
  rw [Sound.addFound_bulk, hfound.steps.bulk_eq, (Scope.Step.joined hjoin).bulk_eq,
    hpath.steps.bulk_eq]

theorem Scope.Joined.valid (h : Scope.Joined context join s s') : s'.Valid := by
  obtain ⟨hvalid, hpath, hjoin, -, -, hfound, -⟩ := h
  exact Sound.addFound_valid (((hvalid.joins hpath).joinStep hjoin).steps hfound.steps) _ _

namespace FromClause

theorem joined_of_run {clause' : FromClause} (hvalid : s.Valid) (hbulk : s.bulk = false)
    (h : (Lowered.addJoin context clause join).run s = .ok (clause', s')) :
    Scope.Joined context join s s' := by
  obtain ⟨owner, property, element, found, s₁, s₂, s₃, howner, hjoin, hfound, rfl, -⟩ :=
    Lowered.addJoin_run h
  obtain ⟨hpath, hownerMem⟩ := Scope.joinOwner_run hvalid howner
  have hbulk₁ : s₁.bulk = false := by rw [hpath.steps.bulk_eq, hbulk]
  obtain ⟨hstep, origin, hentries, himplicit, hindex, -⟩ := Scope.addJoin_run hbulk₁ hownerMem hjoin
  have hvalid₂ := (hvalid.joins hpath).joinStep hstep
  rw [hindex]
  exact .intro hvalid hpath hstep hentries himplicit
    ((Typed.condition_resolves join.condition).resolves hvalid₂ hfound)
    ⟨owner, property, _, _, hownerMem, hbulk₁, hjoin⟩

/-- What the roots and the joins of the query keep holds of the scope that the
from clause leaves. -/
theorem scope_induction {P : List Join → Scope → Prop} (hempty : P [] {})
    (hroot : ∀ {joins : List Join} {s : Scope} {name : String} {entity : Entity}
      {alias? : Option String} {root : Element},
      (Scope.addRoot context name alias?).run s = .ok (root, s.withRoot entity alias?) →
      context.model.entity name = .ok entity → s.Free alias? → P joins s →
        P joins (s.withRoot entity alias?))
    (hjoin : ∀ {joins : List Join} {join : Join} {s s' : Scope}, Scope.Joined context join s s' →
      P joins s → P (joins ++ [join]) s')
    {ranges : List Range}
    (h : (ranges.foldlM (Lowered.addRange context) {}).run {} = .ok (clause, s)) :
    P (ranges.flatMap (·.joins)) s := by
  let Kept : List Join → Scope → Prop := fun joins s₁ => s₁.Valid ∧ s₁.bulk = false ∧ P joins s₁
  have hround : ∀ {done : List Join} {clause clause' : FromClause} {range : Range} {s s' : Scope},
      Kept done s → (Lowered.addRange context clause range).run s = .ok (clause', s') →
        Kept (done ++ range.joins) s' := by
    intro done clause clause' range s s' ⟨hvalid, hbulk, hs⟩ hrange
    obtain ⟨root, s₁, hrootRun, hjoins⟩ := run_bind.mp hrange
    obtain ⟨hstep, -⟩ := Scope.addRoot_run hrootRun
    obtain ⟨entity, hentity, hfree, -, rfl⟩ := Scope.addRoot_eq_ok hrootRun
    refine foldlM_invariant (motive := fun joins _ s₁ => Kept (done ++ joins) s₁)
      (fun _ hdone hrun => ?_) ?_ hjoins
    · obtain ⟨hvalid₁, hbulk₁, hs₁⟩ := hdone
      have hjoined := joined_of_run hvalid₁ hbulk₁ hrun
      rw [← append_assoc]
      exact ⟨hjoined.valid, hjoined.bulk_eq.trans hbulk₁, hjoin hjoined hs₁⟩
    · rw [append_nil]
      exact ⟨hvalid.step hstep, hstep.bulk_eq.trans hbulk, hroot hrootRun hentity hfree hs⟩
  refine (foldlM_invariant (motive := fun done _ s₁ => Kept (done.flatMap (·.joins)) s₁)
    (fun _ hdone hrun => ?_) ⟨.empty false, rfl, hempty⟩ h).2.2
  rw [flatMap_append, flatMap_singleton]
  exact hround hdone hrun

end FromClause

/-- Bringing in all ranges marks one entry with each join of the query, in
order, and no entry with anything else. -/
theorem FromClause.sound_of_run {ranges : List Range}
    (h : (ranges.foldlM (Lowered.addRange context) {}).run {} = .ok (clause, s)) :
    ∃ marks, clause.Sound context s marks
      ∧ marks.filterMap id = ranges.flatMap (·.joins) := by
  have hempty : Sound context {} {} [] :=
    ⟨.empty false, rfl, forall_mem_nil _, forall_mem_nil _, .nil⟩
  refine foldlM_invariant
    (motive := fun done clause₁ s₁ => ∃ marks, Sound context clause₁ s₁ marks
      ∧ marks.filterMap id = done.flatMap (·.joins))
    (fun _ hdone hrange => ?_) ⟨[], hempty, rfl⟩ h
  obtain ⟨marks₁, hsound₁, hmarks₁⟩ := hdone
  obtain ⟨marks₂, hsound₂, hmarks₂⟩ := hsound₁.addRange hrange
  exact ⟨marks₁ ++ marks₂, hsound₂,
    by rw [filterMap_append, hmarks₁, hmarks₂, flatMap_append, flatMap_singleton]⟩

end EntityQuery
