import EntityQuery.Proofs.Mirror
import EntityQuery.Proofs.Sample
import EntityQuery.Proofs.Scope.Stability
import EntityQuery.Proofs.Select

/-!
# The scopes that the clauses of a select leave

The from clause of a select leaves one of the scopes that statements go through
(`Scope.Visited`, `FromClause.visited_of_run`), and every clause after it leaves a later
one (`SelectRun.later_stages`): all that resolving does to a scope is to ask for implicit
joins and to use tables in subqueries (`Resolves.later`).

The main result is about paths in all these scopes (`resolve_stable`). It does not matter
when a path is resolved, or how often: it keeps its meaning, and brings in nothing the
second time.
-/

namespace EntityQuery

open List Query

variable {path : List String} {ranges : List Range}

variable {context : Context} {s s' : Scope}

theorem Resolves.later {exprs : List Expr} {atoms : List Sql.Atom}
    (h : Resolves context s exprs atoms s') : Scope.Later context s s' := by
  induction h with
  | nothing | parameter | column => exact .refl
  | lookup => exact .tail (.single .addTable) .countAlias
  | joins hjoins => exact hjoins.later
  | children _ _ _ ih => exact ih
  | append _ _ ihfirst ihsecond => exact ihfirst.trans ihsecond
  | perm _ _ _ ih => exact ih

theorem Scope.Joined.visited {join : Join} (h : Joined context join s s')
    (hs : s.Visited context) : s'.Visited context := by
  obtain ⟨-, hpath, -, -, -, hfound, _, _, _, _, hparent, hbulk, hrun⟩ := h
  have hjoined : Visited context _ := .addJoin (hs.later hpath.later) hbulk hparent hrun
  have hresolved := hjoined.later hfound.later
  unfold addFound
  split
  · exact .addCondition hresolved _ _
  · exact hresolved

/-- A from clause leaves a scope of a statement. -/
theorem FromClause.visited_of_run {clause : FromClause}
    (h : (ranges.foldlM (Lowered.addRange context) {}).run {} = .ok (clause, s)) :
    s.Visited context :=
  scope_induction (P := fun _ => Scope.Visited context) (.empty false)
    (fun hroot _ _ hs => .addRoot hs hroot) (fun hjoined hs => hjoined.visited hs) h

/-! ## The stages of a select -/

/-- The scope is one that a select with these ranges may go through when the from clause
is done. -/
def Scope.AfterFrom (context : Context) (ranges : List Range) (scope : Scope) : Prop :=
  ∃ clause start, (ranges.foldlM (Lowered.addRange context) {}).run {} = .ok (clause, start)
    ∧ Later context start scope

namespace Lowered.SelectRun

variable {select : Select} (run : SelectRun context select)

/-- The scopes that the clauses leave, from the from clause on. -/
def stages : List Scope :=
  [run.afterFrom, run.afterList, run.afterWhere, run.afterGroup, run.afterHaving, run.scope]

/-- Every clause leaves a scope that comes later than that of the from clause. -/
theorem later_stages : ∀ stage ∈ run.stages, Scope.Later context run.afterFrom stage := by
  obtain ⟨hwhere, hgroup, hhaving, horder⟩ := run.clauses_resolve
  have hlist := run.list_resolved.resolves.later
  have hwhere := hlist.trans hwhere.later
  have hgroup := hwhere.trans hgroup.later
  have hhaving := hgroup.trans hhaving.later
  have horder := hhaving.trans horder.later
  simp only [stages, forall_mem_cons]
  exact ⟨.refl, hlist, hwhere, hgroup, hhaving, horder, forall_mem_nil _⟩

end Lowered.SelectRun

/-! ## Paths -/

namespace Scope

theorem AfterFrom.visited (h : AfterFrom context ranges s) : Visited context s := by
  obtain ⟨clause, start, hrun, hlater⟩ := h
  exact (FromClause.visited_of_run hrun).later hlater

theorem AfterFrom.later (h : AfterFrom context ranges s) (hlater : Later context s s') :
    AfterFrom context ranges s' := by
  obtain ⟨clause, start, hrun, hstart⟩ := h
  exact ⟨clause, start, hrun, hstart.trans hlater⟩

/-- The tables of an implicit join for an owner and a property stand at one position. -/
theorem Visited.position_unique (h : Visited context s) {position position' : Nat}
    {entry other : ScopeEntry} (hentry : s.entries[position]? = some entry)
    (hother : s.entries[position']? = some other) (himplicit : s.IsImplicit entry)
    (himplicit' : s.IsImplicit other) (hfor : entry.joinedFor? = other.joinedFor?) :
    position = position' := by
  have hvalid := h.grown.valid
  obtain rfl := h.joinsOnce.unique hvalid himplicit himplicit' hfor
  rw [← (hvalid.entry hentry).index_eq, (hvalid.entry hother).index_eq]

theorem resolve_added {meaning : Meaning} (h : Visited context s)
    (hrun : (resolve context path).run s = .ok (meaning, s')) :
    ∃ element rest, (start context path).run s = .ok ((element, rest), s)
      ∧ ((∀ step ∈ context.model.manyToOneSteps rest element.entity, step.dereferenced = false) →
        s'.entries = s.entries)
      ∧ s'.entries.length ≤ s.entries.length
        + (context.model.manyToOneSteps rest element.entity).length := by
  obtain ⟨element, rest, hstart, hlength⟩ := resolve_length_le h.grown hrun
  refine ⟨element, rest, hstart, fun hnone => ?_, ?_⟩
  · have hneeded : joinsNeeded (context.model.manyToOneSteps rest element.entity) = 0 :=
      countP_eq_zero.mpr fun step hstep => by simp [hnone step hstep]
    obtain ⟨added, hadded, -⟩ := (resolve_later h.grown hrun).exists_added
    have hadded' : added = [] := by
      rw [hadded, length_append] at hlength
      exact length_eq_zero_iff.mp (by omega)
    rw [hadded, hadded', append_nil]
  · exact hlength.trans (Nat.add_le_add_left countP_le_length _)

/-- Paths are stable, and join once. The scopes that a select goes through when its from
clause is done hold no table but those of the from clause and implicit joins, and no two
implicit joins for the same owner and property. A path that can be resolved in one of them
leads to a later one, and from then on it is resolved to the same meaning in every later
scope, and changes nothing there. It brings in one table at most for each of its
many-to-one steps, and none at all if these are followed by nothing but identifiers. -/
theorem resolve_stable (context : Context) :
    (∀ {select : Select} (run : Lowered.SelectRun context select),
      ∀ stage ∈ run.stages, AfterFrom context select.ranges stage)
    ∧ ∀ {ranges : List Range} {s : Scope}, AfterFrom context ranges s →
      (∃ clause start added,
        (ranges.foldlM (Lowered.addRange context) {}).run {} = .ok (clause, start)
        ∧ s.entries = start.entries ++ added ∧ ∀ entry ∈ added, s.IsImplicit entry)
      ∧ (∀ {position position' : Nat} {entry other : ScopeEntry},
        s.entries[position]? = some entry → s.entries[position']? = some other →
        s.IsImplicit entry → s.IsImplicit other → entry.joinedFor? = other.joinedFor? →
        position = position')
      ∧ ∀ {path : List String} {meaning : Meaning} {s' : Scope},
        (resolve context path).run s = .ok (meaning, s') →
        (Later context s s' ∧ AfterFrom context ranges s')
        ∧ (∀ {t : Scope}, Later context s' t →
          (resolve context path).run t = .ok (meaning, t))
        ∧ ∃ element rest, (start context path).run s = .ok ((element, rest), s)
          ∧ ((∀ step ∈ context.model.manyToOneSteps rest element.entity,
            step.dereferenced = false) → s'.entries = s.entries)
          ∧ s'.entries.length ≤ s.entries.length
            + (context.model.manyToOneSteps rest element.entity).length := by
  refine ⟨fun run stage hstage => ?_, fun {ranges s} hs => ⟨?_, ?_, ?_⟩⟩
  · exact ⟨run.clause, run.afterFrom, run.fromRun, run.later_stages stage hstage⟩
  · obtain ⟨clause, start, hrun, hlater⟩ := hs
    obtain ⟨added, hadded⟩ := hlater.exists_added
    exact ⟨clause, start, added, hrun, hadded⟩
  · exact hs.visited.position_unique
  · intro path meaning s' hrun
    have hlater := resolve_later hs.visited.grown hrun
    exact ⟨⟨hlater, hs.later hlater⟩, fun ht => resolve_again hrun (.later ht),
      resolve_added hs.visited hrun⟩

end Scope

/-- Going from an order to the name of its customer's employer takes two joins, once. -/
theorem Scope.resolve_stable_employer : ∃ meaning start s',
    AfterFrom (Sample.compiler.context "from Order o") [⟨"Order", some "o", []⟩] start
    ∧ (resolve (Sample.compiler.context "from Order o") ["o", "customer", "employer", "name"]).run
      start = .ok (meaning, s')
    ∧ s'.entries.length = start.entries.length + 2
    ∧ (resolve (Sample.compiler.context "from Order o") ["o", "customer", "employer", "name"]).run
      s' = .ok (meaning, s') := by
  let context := Sample.compiler.context "from Order o"
  let ranges : List Range := [⟨"Order", some "o", []⟩]
  let path := ["o", "customer", "employer", "name"]
  obtain ⟨⟨⟨clause, start⟩, meaning, s'⟩, hcomputed, hlength⟩ := exists_ok_of_any
    (x := do
      let found ← (ranges.foldlM (Lowered.addRange context) {}).run {}
      let resolved ← (resolve context path).run found.2
      pure (found, resolved))
    (p := fun found => found.2.2.entries.length == found.1.2.entries.length + 2)
    (by decide +kernel)
  obtain ⟨found, hfound, hcomputed⟩ := bind_eq_ok.mp hcomputed
  obtain ⟨resolved, hresolved, hcomputed⟩ := bind_eq_ok.mp hcomputed
  cases hcomputed
  have hafter : AfterFrom context ranges start := ⟨clause, start, hfound, .refl⟩
  obtain ⟨-, hagain, -⟩ := ((resolve_stable context).2 hafter).2.2 hresolved
  exact ⟨meaning, start, s', hafter, hresolved, by simpa using hlength, hagain .refl⟩

end EntityQuery
