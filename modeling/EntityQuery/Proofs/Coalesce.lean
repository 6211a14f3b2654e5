import EntityQuery.Proofs.Comparison

/-!
# The arguments of `coalesce`

The arguments that are no parameters are typed first, and the first type that is found is
the type of the call and of its parameters. Each argument gives one term, at its own place
(`Arguments`). Where no type is found, the first parameter cannot be typed.
-/

namespace EntityQuery.Typed

open List Scoped
open Query (Expr)

variable {context : Context} {s s' t : Scope} {type hint : Option SemanticType} {expr : Expr}
  {exprs : List Expr} {typed : Typed} {typeds : List Typed} {done : List (Option Typed)}

theorem templates_eq_map (dialect : Sql.Dialect) : ∀ terms : List Sql.Term,
    Sql.Term.templates dialect terms = terms.map (Sql.Term.template dialect)
  | [] => by rw [Sql.Term.templates, map_nil]
  | term :: rest => by rw [Sql.Term.templates, map_cons, templates_eq_map dialect rest]

theorem isParameter_of_parameter? {source : ParameterSource} (h : expr.parameter? = some source) :
    expr.isParameter = true := by
  cases expr with
  | named name | ordinal position => rfl
  | _ => cases h

theorem ofPlain_parameter (hexpr : expr.isParameter)
    (h : (ofPlain context exprs).run s = .ok (done, s')) :
    (ofPlain context (expr :: exprs)).run s = .ok (none :: done, s') := by
  rw [ofPlain, hexpr, if_pos rfl, run_bind_of_ok h]
  rfl

theorem ofPlain_plain (hexpr : expr.isParameter = false)
    (htyped : (ofExpr context expr none).run s = .ok (typed, t))
    (h : (ofPlain context exprs).run t = .ok (done, s')) :
    (ofPlain context (expr :: exprs)).run s = .ok (some typed :: done, s') := by
  rw [ofPlain, hexpr, if_neg Bool.false_ne_true, run_bind_of_ok htyped, run_bind_of_ok h]
  rfl

theorem Arguments.run (h : Arguments context type s exprs typeds s') :
    (ofPlain context exprs).run s = .ok (others exprs typeds, s')
      ∧ ∀ t, (fillParameters context type exprs (others exprs typeds)).run t
        = .ok (typeds.map (·.term), t) := by
  induction h with
  | nil =>
    simp only [ofPlain]
    exact ⟨rfl, fun _ => rfl⟩
  | plain hexpr htyped hrest ih =>
    rw [others, zipWith_cons_cons, hexpr, if_neg Bool.false_ne_true]
    refine ⟨ofPlain_plain hexpr htyped ih.1, fun t => ?_⟩
    rw [fillParameters, ← others, run_bind_of_ok (ih.2 t)]
    rfl
  | parameter hsource htype hfound hrest ih =>
    have hexpr := isParameter_of_parameter? hsource
    rw [others, zipWith_cons_cons, hexpr, if_pos rfl]
    refine ⟨ofPlain_parameter hexpr ih.1, fun t => ?_⟩
    have hslot := parameter_run.mpr
      ⟨rfl, _, _, _, hsource, htype, (slotType_run hfound).2 t, rfl⟩
    rw [fillParameters, ← others, run_bind_of_ok hslot, run_bind_of_ok (ih.2 t)]
    rfl

/-- Where no type is known, the first parameter fails. -/
theorem fillParameters_untyped : ∀ {exprs : List Expr} {s : Scope} {typeds : List Typed},
    Arguments context none s (exprs.filter (!·.isParameter)) typeds s' →
      (∀ typed ∈ typeds, typed.type = none) →
      ∃ done, (ofPlain context exprs).run s = .ok (done, s') ∧ firstType done = none
        ∧ ∀ {expr rest fault}, exprs.filter (·.isParameter) = expr :: rest →
          (parameter context expr none).run s' = .error fault →
          (fillParameters context none exprs done).run s' = .error fault
  | [], _, _, h, _ => by
    cases h
    simp only [ofPlain]
    exact ⟨[], rfl, rfl, fun h => by cases h⟩
  | first :: exprs, _, _, h, htypes => by
    cases hfirst : first.isParameter with
    | true =>
      rw [filter_cons_of_neg (by simp [hfirst])] at h
      obtain ⟨done, hdone, hnone, -⟩ := fillParameters_untyped h htypes
      refine ⟨none :: done, ofPlain_parameter hfirst hdone, hnone, fun hfilter hfault => ?_⟩
      rw [filter_cons_of_pos hfirst] at hfilter
      obtain ⟨rfl, -⟩ := List.cons.inj hfilter
      exact run_bind_of_error hfault
    | false =>
      rw [filter_cons_of_pos (by simp [hfirst])] at h
      cases h with
      | parameter hsource => cases (isParameter_of_parameter? hsource).symm.trans hfirst
      | plain _ htyped hrest =>
        rw [forall_mem_cons] at htypes
        obtain ⟨done, hdone, hnone, hfill⟩ := fillParameters_untyped hrest htypes.2
        refine ⟨_, ofPlain_plain hfirst htyped hdone, ?_, fun hfilter hfault => ?_⟩
        · simpa [firstType, htypes.1] using hnone
        · rw [filter_cons_of_neg (by simp [hfirst])] at hfilter
          exact run_bind_of_error (hfill hfilter hfault)

theorem coalesce_run (hexprs : exprs ≠ []) :
    ofExpr context (.call "coalesce" exprs) hint = ofPlain context exprs >>= fun done =>
      fillParameters context (firstType done) exprs done >>= fun terms =>
        pure ⟨.call "coalesce" terms, firstType done⟩ := by
  simp only [ofExpr, Function.ofName?]
  rw [if_neg (by simpa using hexprs)]

theorem not_coalesce_run_nil :
    (ofExpr context (.call "coalesce" []) hint).run s ≠ .ok (typed, s') := by
  simp only [ofExpr, Function.ofName?]
  exact not_run_fail

/-- A call of `coalesce` keeps its arguments in their order. Its parameters have the type of
the first other argument that has a known one, and so has the call. Without such an argument
the first parameter fails: for want of a type, or as one without a number does anywhere. -/
theorem coalesce_keeps_arguments (context : Context) (exprs : List Expr)
    (hint : Option SemanticType) (s : Scope) :
    (∀ typed s', (ofExpr context (.call "coalesce" exprs) hint).run s = .ok (typed, s') ↔
      exprs ≠ [] ∧ ∃ typeds, Arguments context typed.type s exprs typeds s'
        ∧ typed.type = firstType (others exprs typeds)
        ∧ typed.term = .call "coalesce" (typeds.map (·.term)))
    ∧ (∀ (typeds : List Typed) (dialect : Sql.Dialect),
      (Sql.Term.call "coalesce" (typeds.map (·.term))).template dialect
        = .text "coalesce(" ++ .join ", " (typeds.map (·.term.template dialect)) ++ .text ")")
    ∧ ∀ typeds s' expr rest, Arguments context none s (exprs.filter (!·.isParameter)) typeds s' →
      (∀ typed ∈ typeds, typed.type = none) → exprs.filter (·.isParameter) = expr :: rest →
      (∀ source, expr.parameter? = some source →
        (ofExpr context (.call "coalesce" exprs) hint).run s
          = .error (.query (.undetermined source.text)))
      ∧ (expr = .legacy → (ofExpr context (.call "coalesce" exprs) hint).run s
        = .error (.query (.legacyParameter context.query))) := by
  refine ⟨fun typed s' => ?_, fun typeds dialect => ?_, ?_⟩
  · by_cases hexprs : exprs = []
    · subst hexprs
      exact iff_of_false not_coalesce_run_nil fun h => h.1 rfl
    · rw [coalesce_run hexprs, and_iff_right hexprs]
      simp only [run_bind, run_pure]
      constructor
      · rintro ⟨done, s₁, hplain, terms, s₂, hfill, rfl, rfl⟩
        obtain ⟨rfl, typeds, harguments, rfl, rfl⟩ := arguments_of_run hplain hfill
        exact ⟨typeds, harguments, rfl, rfl⟩
      · obtain ⟨term, type⟩ := typed
        rintro ⟨typeds, harguments, rfl, rfl⟩
        obtain ⟨hplain, hfill⟩ := harguments.run
        exact ⟨_, s', hplain, _, s', hfill s', rfl, rfl⟩
  · rw [Sql.Term.template, templates_eq_map, map_map]
    rfl
  · intro typeds s' expr rest harguments htypes hfilter
    obtain ⟨done, hplain, hnone, hfill⟩ := fillParameters_untyped harguments htypes
    have hexprs : exprs ≠ [] := by
      rintro rfl
      cases hfilter
    have hfails : ∀ {fault}, (parameter context expr none).run s' = .error fault →
        (ofExpr context (.call "coalesce" exprs) hint).run s = .error fault := by
      intro fault hfault
      rw [coalesce_run hexprs, run_bind_of_ok hplain, hnone]
      exact run_bind_of_error (hfill hfilter hfault)
    constructor
    · intro source hsource
      cases expr with
      | named name | ordinal position =>
        obtain rfl := Option.some.inj hsource
        exact hfails rfl
      | _ => cases hsource
    · rintro rfl
      exact hfails rfl

open Sample (personScope personContext)

/-- In `coalesce(:x, null, p.age, ?1)` both parameters take the type of `p.age`; in
`coalesce(null, :x)` there is no type to take. -/
theorem coalesce_keeps_arguments_mixed :
    (∃ typed s' typeds, (ofExpr personContext (.call "coalesce" [.named "x", .literal .null,
        .path ["p", "age"], .ordinal 1]) none).run personScope = .ok (typed, s')
      ∧ Arguments personContext typed.type personScope
        [.named "x", .literal .null, .path ["p", "age"], .ordinal 1] typeds s'
      ∧ typed.type = some .integer ∧ typed.term = .call "coalesce" (typeds.map (·.term)))
    ∧ (ofExpr personContext (.call "coalesce" [.literal .null, .named "x"]) none).run personScope
      = .error (.query (.undetermined ":x")) := by
  constructor
  · obtain ⟨⟨typed, s'⟩, hrun, htype⟩ := exists_ok_of_any (p := fun found =>
      found.1.type = some .integer) (x := (ofExpr personContext (.call "coalesce" [.named "x",
        .literal .null, .path ["p", "age"], .ordinal 1]) none).run personScope) (by decide +kernel)
    obtain ⟨-, typeds, harguments, -, hterm⟩ := ((coalesce_keeps_arguments ..).1 typed s').mp hrun
    exact ⟨typed, s', typeds, hrun, harguments, of_decide_eq_true htype, hterm⟩
  · have hnull : (ofExpr personContext (.literal .null) none).run personScope
        = .ok (⟨.literal .null, none⟩, personScope) := by
      simp only [ofExpr]
      rfl
    exact ((coalesce_keeps_arguments personContext [.literal .null, .named "x"] none personScope).2.2
      [⟨.literal .null, none⟩] personScope (.named "x") [] (.plain rfl hnull .nil)
      (forall_mem_singleton.mpr rfl) rfl).1 _ rfl

/-- A parameter without a number is not said to lack a type. -/
theorem coalesce_legacy : Expr.legacy.isParameter = true
    ∧ (ofPlain personContext [.legacy, .literal .null]).run personScope
      = .ok ([none, some ⟨.literal .null, none⟩], personScope)
    ∧ ∀ text, (ofExpr personContext (.call "coalesce" [.legacy, .literal .null]) none).run personScope
      ≠ .error (.query (.undetermined text)) := by
  refine ⟨rfl, ?_, ?_⟩
  · simp only [ofPlain, ofExpr]
    rfl
  · intro text
    simp only [ofExpr, Function.ofName?, ofPlain]
    intro h
    cases h

end EntityQuery.Typed
