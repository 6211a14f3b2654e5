import EntityQuery.Proofs.Query.Statements
import EntityQuery.Proofs.Scoped

/-!
# Statements and their text

A statement that was read from some text is read back from its own text exactly
if printing loses nothing of it (`parse_text_iff`). Two things can be lost. The
`escape` of a `like` is not printed at all. And a call of a function `like` is
printed, but cannot be read, since the word is reserved; such a call is read only
where a Kelvin sign stands for the `k` of the word, which is no reserved word
then, but becomes one in lower case.

If nothing is lost, the text is read back clause by clause. If something is lost,
it is enough to weigh the statement and its text: a statement is never heavier
than the text that it was read from.
-/

namespace EntityQuery.Query

open Grammar Option List

variable {statement : Statement}

/-! ## What a statement holds -/

def Expr.function? : Expr → Option String
  | .call function _ => some function
  | _ => none

def Expr.double? : Expr → Option Double
  | .literal (.double x) => some x
  | _ => none

def Expr.escape? : Expr → Option Expr
  | .like _ _ escape _ => escape
  | _ => none

def Statement.functions (statement : Statement) : List String :=
  statement.parts.filterMap Expr.function?

def Statement.doubles (statement : Statement) : List Double :=
  statement.parts.filterMap Expr.double?

def Statement.escapes (statement : Statement) : List Expr :=
  statement.parts.filterMap Expr.escape?

theorem statement_of_parse {query : String} (h : parse query = .ok statement) :
    ∃ rest, Grammar.statement query.toList = .ok (statement, rest) := by
  unfold parse at h
  dsimp only at h
  cases hread : Grammar.statement query.toList with
  | error place =>
    rw [hread] at h
    cases h
  | ok found =>
    obtain ⟨found, rest⟩ := found
    rw [hread] at h
    dsimp only at h
    cases hrest : Text.skipBlanks rest with
    | nil =>
      rw [hrest] at h
      obtain rfl := Except.ok.inj h
      exact ⟨rest, rfl⟩
    | cons c more =>
      rw [hrest] at h
      cases h

/-- A statement that is read from its own text has lost nothing. -/
theorem isLossy_of_parse_text (h : parse statement.text = .ok statement) {part : Expr}
    (hpart : part ∈ statement.parts) : part.isLossy = false := by
  obtain ⟨rest, hread⟩ := statement_of_parse h
  have hweight : heft statement.text.toList + losses statement.exprs + heft rest
      ≤ heft statement.text.toList := (Sound.taken sound_statement hread).weighs
  have hlosses : losses statement.exprs = 0 := by omega
  simpa using countP_eq_zero.mp hlosses part hpart

theorem parsed_of_mem_exprs (h : statement.WellFormed) {e : Expr} (he : e ∈ statement.exprs) :
    Parsed .disjunction e := by
  cases statement with
  | select part =>
    simp only [Statement.exprs, Select.exprs, Range.exprs, SelectClause.exprs, Join.exprs,
      List.mem_append, List.mem_flatMap, mem_toList, List.mem_map] at he
    rcases he with ((((⟨clause, hclause, item, hitem, rfl⟩ | ⟨range, hrange, join, hjoin, he⟩)
      | he) | he) | he) | ⟨item, hitem, rfl⟩
    · exact ((h.clause clause hclause).items item hitem).expr
    · exact ((h.ranges range hrange).joins join hjoin).condition e he
    · exact h.condition e he
    · exact h.groupBy e he
    · exact h.having e he
    · exact h.orderBy item hitem
  | update part =>
    simp only [Statement.exprs, Update.exprs, List.mem_append, mem_toList, List.mem_map] at he
    rcases he with ⟨assignment, hassignment, rfl⟩ | he
    · exact (h.assignments assignment hassignment).2
    · exact h.condition e he
  | delete part => exact h.condition e (mem_toList.mp he)

/-- A function that is called in a statement that was read has a reserved name
only if it is `like`. -/
theorem reserved_iff_like (h : statement.WellFormed) {function : String}
    (hfunction : function ∈ statement.functions) :
    isReserved function = true ↔ function = "like" := by
  obtain ⟨part, hpart, hname⟩ := mem_filterMap.mp hfunction
  cases part with
  | call name arguments =>
    obtain rfl := Option.some.inj hname
    obtain ⟨e, he, hpart⟩ := mem_flatMap.mp hpart
    obtain ⟨_, hparsed⟩ := (parsed_of_mem_exprs h he).part hpart
    obtain ⟨word, hword, rfl⟩ := hparsed.exists_name
    constructor
    · exact lowercase_eq_like hword.2
    · intro hlike
      rw [hlike]
      decide
  | _ => cases hname

/-- Whether printing loses something of a statement that was read. -/
theorem lossless_iff (h : statement.WellFormed) :
    (∀ part ∈ statement.parts, part.isLossy = false)
      ↔ statement.escapes = [] ∧ "like" ∉ statement.functions := by
  constructor
  · intro hall
    refine ⟨filterMap_eq_nil_iff.mpr fun part hpart => ?_, fun hlike => ?_⟩
    · have hkept := hall part hpart
      cases part with
      | like subject pattern escape negated =>
        exact not_isSome_iff_eq_none.mp (Bool.eq_false_iff.mp hkept)
      | _ => rfl
    · obtain ⟨part, hpart, hname⟩ := mem_filterMap.mp hlike
      have hkept := hall part hpart
      cases part with
      | call name arguments =>
        obtain rfl := Option.some.inj hname
        exact absurd hkept (by rw [Expr.isLossy]; decide)
      | _ => cases hname
  · rintro ⟨hescapes, hlike⟩ part hpart
    cases part with
    | like subject pattern escape negated =>
      have hnone : escape = none := filterMap_eq_nil_iff.mp hescapes _ hpart
      rw [hnone]
      rfl
    | call function arguments =>
      have hmem : function ∈ statement.functions := mem_filterMap.mpr ⟨_, hpart, rfl⟩
      refine Bool.eq_false_iff.mpr fun hreserved => hlike ?_
      rw [← (reserved_iff_like h hmem).mp hreserved]
      exact hmem
    | _ => rfl

/-- A statement that was read from some text is read back from its own text
exactly if no `like` in it has an escape and no function `like` is called in it,
given that the functions have names in ASCII and the numbers are written in
full. -/
theorem parse_text_iff {query : String} {statement : Statement} (h : parse query = .ok statement)
    (hfunctions : ∀ function ∈ statement.functions, Text.IsAscii function.toList)
    (hdoubles : ∀ x ∈ statement.doubles, WrittenInFull x) :
    parse statement.text = .ok statement
      ↔ statement.escapes = [] ∧ "like" ∉ statement.functions := by
  obtain ⟨rest, hread⟩ := statement_of_parse h
  have hformed := (Sound.taken sound_statement hread).holds
  rw [← lossless_iff hformed]
  constructor
  · exact fun htext part hpart => isLossy_of_parse_text htext hpart
  · intro hlossless
    have hreadable : ∀ part ∈ statement.parts, Readable part := by
      intro part hpart
      have hkept := hlossless part hpart
      cases part with
      | literal value =>
        cases value with
        | double x => exact hdoubles x (mem_filterMap.mpr ⟨_, hpart, rfl⟩)
        | _ => trivial
      | call function arguments =>
        exact ⟨hfunctions function (mem_filterMap.mpr ⟨_, hpart, rfl⟩), hkept⟩
      | like subject pattern escape negated =>
        exact not_isSome_iff_eq_none.mp (Bool.eq_false_iff.mp hkept)
      | _ => trivial
    refine parse_text hformed fun e he => (parsed_of_mem_exprs hformed he).readBack ?_
    exact fun part hpart => hreadable part (mem_flatMap.mpr ⟨e, he, hpart⟩)

/-- Two numbers, one of them negative, a call, a `like` and a quote in a text. -/
theorem parse_text_iff_numbers : ∃ statement,
    parse ("select -2.5 * lower(p.name) as n from Person p left join fetch p.orders o "
        ++ "with o.total > 10.25 where not p.name like 'a''%' and (p.age in :ages or p.id = ?1) "
        ++ "order by p.name desc") = .ok statement
      ∧ statement.functions = ["lower"]
      ∧ statement.doubles = [⟨0xc004000000000000⟩, ⟨0x4024800000000000⟩]
      ∧ parse statement.text = .ok statement := by
  refine exists_ok_and (fun statement => statement.functions = ["lower"]
      ∧ statement.doubles = [⟨0xc004000000000000⟩, ⟨0x4024800000000000⟩]
      ∧ statement.escapes = []) (by decide +kernel)
    fun statement hparse htest => ?_
  obtain ⟨hfunctions, hdoubles, hescapes⟩ := htest
  refine ⟨hfunctions, hdoubles, (parse_text_iff hparse ?_ ?_).mpr ⟨hescapes, ?_⟩⟩
  · rw [hfunctions]
    decide
  · rw [hdoubles]
    refine List.forall_mem_cons.mpr ⟨?_, List.forall_mem_singleton.mpr ?_⟩
    · exact ⟨"2".toList, "5".toList, by decide +kernel⟩
    · exact ⟨"10".toList, "25".toList, by decide +kernel⟩
  · rw [hfunctions]
    decide

/-- With a Kelvin sign in it, the name of a function is not reserved; in lower
case it is, and then the text is no statement. -/
theorem like_call_unread : ∃ statement,
    parse "select li\u212ae(p.name) from Person p" = .ok statement
      ∧ statement.functions = ["like"] ∧ statement.doubles = [] ∧ statement.escapes = []
      ∧ parse statement.text ≠ .ok statement := by
  refine exists_ok_and (fun statement => statement.functions = ["like"] ∧ statement.doubles = []
      ∧ statement.escapes = [] ∧ statement.text = "select like(p.name) from Person p")
    (by decide +kernel) fun statement hparse htest => ?_
  obtain ⟨hfunctions, hdoubles, hescapes, htext⟩ := htest
  refine ⟨hfunctions, hdoubles, hescapes, fun hread => ?_⟩
  have hfails : (parse "select like(p.name) from Person p").isOk = false := by decide +kernel
  rw [← htext, hread] at hfails
  cases hfails

end EntityQuery.Query
