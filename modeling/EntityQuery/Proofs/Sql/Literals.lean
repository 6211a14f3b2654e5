import EntityQuery.Sql.Printer
import EntityQuery.Typing
import EntityQuery.Proofs.Number.Numeral

/-!
# Literals as a database reads them

A literal of a query stands in the statement as one token. A database takes a
string token apart by its own rules (`Dialect.lexString`): the quote written
twice is a quote, a single one ends the token, and for MySQL a backslash escapes
the character after it. Quotes are doubled for all databases alike and a
backslash is never written twice, so a string comes through unless it has a
backslash and the database is MySQL. What an escape stands for does not matter:
counting quotes alone shows that the token is cut at the wrong place or short of
a character.

A number is written as a numeral for it, perhaps after a minus sign, whenever it is
finite (`Double.IsWritten`).
-/

namespace EntityQuery

namespace Sql

open List

/-- Whether a backslash in a string token escapes the character after it. -/
def Dialect.escapes : Dialect → Bool
  | .mysql => true
  | .postgres | .sqlite => false

/-- The text of a string token from behind its opening quote, and what comes after the token;
`escape` gives what an escaped character stands for. -/
def lexQuoted (escapes : Bool) (escape : Char → Char) : List Char → Option (List Char × List Char)
  | [] => none
  | c :: rest =>
    if c = '\'' then
      match rest with
      | '\'' :: after =>
        (lexQuoted escapes escape after).map fun token => ('\'' :: token.1, token.2)
      | _ => some ([], rest)
    else if escapes && c == '\\' then
      match rest with
      | [] => none
      | next :: after =>
        (lexQuoted escapes escape after).map fun token => (escape next :: token.1, token.2)
    else
      (lexQuoted escapes escape rest).map fun token => (c :: token.1, token.2)

/-- A string token at the start of the text, decoded, and what comes after it. -/
def Dialect.lexString (dialect : Dialect) (escape : Char → Char) :
    List Char → Option (List Char × List Char)
  | '\'' :: rest => lexQuoted dialect.escapes escape rest
  | _ => none

section Strings

variable {escapes : Bool} {escape : Char → Char}

theorem lexQuoted_cons {c : Char} (hquote : c ≠ '\'') (hescape : escapes = true → c ≠ '\\')
    (rest : List Char) : lexQuoted escapes escape (c :: rest)
      = (lexQuoted escapes escape rest).map fun token => (c :: token.1, token.2) := by
  have hplain : (escapes && c == '\\') = false := by
    cases escapes with
    | false => rfl
    | true => simpa using hescape rfl
  rw [lexQuoted.eq_def]
  simp only [hquote, hplain, if_false, Bool.false_eq_true]

/-- Doubled quotes are undone, and the token ends at its closing quote. -/
theorem lexQuoted_doubleQuotes {text rest : List Char} (hescape : escapes = true → '\\' ∉ text)
    (hrest : rest.head? ≠ some '\'') :
    lexQuoted escapes escape (Query.doubleQuotes text ++ '\'' :: rest) = some (text, rest) := by
  induction text with
  | nil =>
    cases rest with
    | nil => rfl
    | cons c rest =>
      show lexQuoted escapes escape ('\'' :: c :: rest) = _
      rw [lexQuoted, if_pos rfl]
      rintro after heq
      exact hrest (congrArg some (cons.inj heq).1)
  | cons c text ih =>
    have ih := ih fun h hmem => hescape h (mem_cons_of_mem _ hmem)
    unfold Query.doubleQuotes
    split
    · rename_i hquote
      subst hquote
      show lexQuoted escapes escape ('\'' :: '\'' :: (Query.doubleQuotes text ++ '\'' :: rest)) = _
      rw [lexQuoted, if_pos rfl]
      simp only [ih]
      rfl
    · rename_i hquote
      rw [cons_append, lexQuoted_cons hquote, ih]
      · rfl
      · rintro h rfl
        exact hescape h mem_cons_self

/-- A step of the reader takes two characters for one when it meets a doubled quote or an escape,
and an escape accounts for at most one quote. -/
theorem lexQuoted_count {text body left : List Char}
    (h : lexQuoted true escape text = some (body, left)) :
    ∃ token, text = token ++ left
      ∧ 2 * body.length + token.count '\'' + 1 + (if '\\' ∈ token then 1 else 0)
        ≤ 2 * token.length := by
  fun_induction lexQuoted true escape text generalizing body with
  | case1 => cases h
  | case2 rest ih =>
    obtain ⟨⟨more, left'⟩, hmore, heq⟩ := Option.map_eq_some_iff.mp h
    cases heq
    obtain ⟨token, rfl, hcount⟩ := ih hmore
    refine ⟨'\'' :: '\'' :: token, rfl, ?_⟩
    simp only [length_cons, count_cons_self, mem_cons]
    simp only [show ('\\' : Char) ≠ '\'' by decide, false_or]
    omega
  | case3 rest hrest =>
    cases h
    exact ⟨['\''], rfl, by decide⟩
  | case4 c hquote hescape => cases h
  | case5 c hquote hescape next rest ih =>
    obtain ⟨⟨more, left'⟩, hmore, heq⟩ := Option.map_eq_some_iff.mp h
    cases heq
    obtain ⟨token, rfl, hcount⟩ := ih hmore
    refine ⟨c :: next :: token, rfl, ?_⟩
    have hnext : (next :: token).count '\'' ≤ token.count '\'' + 1 := by
      rw [count_cons]
      split <;> omega
    have hmem : '\\' ∈ c :: next :: token := by
      rw [show c = '\\' by simpa using hescape]
      exact mem_cons_self
    rw [count_cons_of_ne hquote, if_pos hmem]
    simp only [length_cons]
    split at hcount <;> omega
  | case6 c rest hquote hescape ih =>
    obtain ⟨⟨more, left'⟩, hmore, heq⟩ := Option.map_eq_some_iff.mp h
    cases heq
    obtain ⟨token, rfl, hcount⟩ := ih hmore
    refine ⟨c :: token, rfl, ?_⟩
    have hc : '\\' ≠ c := by
      rintro rfl
      exact hescape rfl
    rw [count_cons_of_ne hquote]
    simp only [length_cons, mem_cons, hc, false_or]
    omega

theorem length_doubleQuotes (text : List Char) :
    (Query.doubleQuotes text).length = text.length + text.count '\''
      ∧ (Query.doubleQuotes text).count '\'' = 2 * text.count '\''
      ∧ ('\\' ∈ Query.doubleQuotes text ↔ '\\' ∈ text) := by
  induction text with
  | nil => exact ⟨rfl, rfl, Iff.rfl⟩
  | cons c text ih =>
    obtain ⟨hlength, hcount, hmem⟩ := ih
    unfold Query.doubleQuotes
    split
    · rename_i hquote
      subst hquote
      simp only [length_cons, count_cons_self, mem_cons, hlength, hcount, hmem]
      refine ⟨by omega, by omega, ?_⟩
      simp
    · rename_i hquote
      rw [count_cons_of_ne hquote, count_cons_of_ne hquote]
      simp only [length_cons, mem_cons, hlength, hcount, hmem]
      exact ⟨by omega, trivial, trivial⟩

/-- A string with a backslash is never read back where backslashes escape. -/
theorem backslash_notMem_of_lexQuoted {text rest : List Char}
    (h : lexQuoted true escape (Query.doubleQuotes text ++ '\'' :: rest) = some (text, rest)) :
    '\\' ∉ text := by
  intro hmem
  obtain ⟨token, htoken, hcount⟩ := lexQuoted_count h
  obtain ⟨hlength, hquotes, hbackslash⟩ := length_doubleQuotes text
  rw [append_cons] at htoken
  rw [← append_cancel_right htoken] at hcount
  rw [if_pos (mem_append_left _ (hbackslash.mpr hmem)), count_append, length_append,
    hlength, hquotes] at hcount
  simp only [count_singleton_self, length_singleton] at hcount
  omega

end Strings

/-- The token of a literal expression comes through to the database: a string token is read as the
string, and ends where it ends, exactly when no backslash in it is taken for an escape; the token of
a number is a numeral for it exactly when the number is finite. -/
theorem literal_survives (context : Context) (value : Query.Literal) (hint : Option SemanticType)
    (scope : Scope) (dialect : Dialect) (escape : Char → Char) :
    ∃ typed token, (Typed.ofExpr context (.literal value) hint).run scope = .ok (typed, scope)
      ∧ typed.term.template dialect = Template.text token
      ∧ (∀ text, value = .string text →
        ((∀ rest, rest.head? ≠ some '\'' →
            dialect.lexString escape (token.toList ++ rest) = some (text.toList, rest))
          ↔ (dialect = .mysql → '\\' ∉ text.toList)))
      ∧ ∀ x, value = .double x → (x.IsWritten token.toList ↔ x.isFinite = true) := by
  have hrun : (Typed.ofExpr context (.literal value) hint).run scope
      = .ok (⟨.literal value, Typed.literalType value⟩, scope) := by
    unfold Typed.ofExpr
    rfl
  refine ⟨_, literalText dialect value, hrun, rfl, ?_, ?_⟩
  · rintro text rfl
    have htoken : (literalText dialect (.string text)).toList
        = '\'' :: (Query.doubleQuotes text.toList ++ ['\'']) := by
      simp [literalText, Query.quoted]
    have hescapes : dialect.escapes = true ↔ dialect = .mysql := by
      cases dialect <;> decide
    simp only [htoken, cons_append, append_assoc, Dialect.lexString, ← hescapes]
    constructor
    · intro hread hescape
      have hnil := hread [] (by simp)
      rw [hescape] at hnil
      exact backslash_notMem_of_lexQuoted hnil
    · intro hplain rest hrest
      exact lexQuoted_doubleQuotes hplain hrest
  · rintro x rfl
    exact Double.isWritten_text_iff _ x

/-- `'a\'` is a string of the query language; for MySQL the token written for it has no end. -/
theorem backslash_opens_token : Query.Grammar.literal "'a\\'".toList = .ok (.string "a\\", [])
    ∧ literalText .mysql (.string "a\\") = "'a\\'"
    ∧ ∀ escape, Dialect.mysql.lexString escape (literalText .mysql (.string "a\\")).toList = none :=
  ⟨by decide +kernel, by decide, fun _ => rfl⟩

end Sql

end EntityQuery
