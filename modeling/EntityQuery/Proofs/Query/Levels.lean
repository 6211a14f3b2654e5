import EntityQuery.Proofs.Query.Token

/-!
# The levels of the grammar

Levels do not mind a blank in front. An operand starts with none of the reserved
words but `true`, `false` and `null`, and with few of the characters that are in
no word (`NoOperand`); an expression can also start with a sign or a `not`. So
where the next word is known to be another one, no expression can be read
(`NoStart.expression_fails`).
-/

namespace EntityQuery.Query.Grammar

open List Text

open Reader Token

variable {function : AggregateFunction} {nested : Reader Expr}

variable {α : Type} {text rest : List Char} {word : String} {c : Char}

/-! ## Levels -/

/-- The levels of the grammar, from the tightest to the loosest. -/
inductive Level where
  | operand
  | signed
  | product
  | sum
  | predicate
  | negation
  | conjunction
  | disjunction
  deriving DecidableEq, Repr

def Level.reader : Level → Reader Expr
  | .operand => Grammar.operand expression
  | .signed => Grammar.signed expression
  | .product => Grammar.product expression
  | .sum => Grammar.sum expression
  | .predicate => Grammar.predicate expression
  | .negation => Grammar.negation expression
  | .conjunction => Grammar.conjunction expression
  | .disjunction => Grammar.disjunction expression

theorem blankless_constant (word : String) (value : α) : Blankless (constant word value) :=
  (Blankless.keyword word).bind _

theorem blankless_literal : Blankless literal := Blankless.blanks _

theorem blankless_parameter : Blankless parameter := Blankless.blanks _

theorem blankless_path : Blankless path := Blankless.blanks _

theorem blankless_operand (nested : Reader Expr) : Blankless (operand nested) := by
  have haggregate : Blankless (aggregate nested) :=
    ((blankless_constant _ _).orElse ((blankless_constant _ _).orElse ((blankless_constant _ _).orElse
      ((blankless_constant _ _).orElse (blankless_constant _ _))))).bind _
  have hcall : Blankless (call nested) := Blankless.blanks _
  exact ((Blankless.symbol _).bind _).orElse ((blankless_literal.bind _).orElse
    (blankless_parameter.orElse (haggregate.orElse (hcall.orElse (blankless_path.bind _)))))

theorem Level.blankless (level : Level) : Blankless level.reader := by
  have hsigned : Blankless (Grammar.signed expression) :=
    Blankless.marked (Blankless.symbol _) (fun _ _ => length_lt_of_symbol (by decide)) _
      (blankless_operand _)
  have hpredicate : Blankless (Grammar.predicate expression) := ((hsigned.bind _).bind _).bind _
  have hnegation : Blankless (Grammar.negation expression) :=
    Blankless.marked (Blankless.keyword _) (fun _ _ => length_lt_of_keyword (by decide)) _ hpredicate
  cases level with
  | operand => exact blankless_operand _
  | signed => exact hsigned
  | product => exact hsigned.bind _
  | sum => exact (hsigned.bind _).bind _
  | predicate => exact hpredicate
  | negation => exact hnegation
  | conjunction => exact hnegation.bind _
  | disjunction => exact (hnegation.bind _).bind _

/-! ## Where no expression starts -/

/-- The reserved words that do not start an operand. -/
def blockedWords : List String :=
  reservedWords.filter fun word => !(["true", "false", "null"].contains word)

/-- No operand starts with this text: it goes on with a blocked word, or with no
word and none of the characters that start an operand. -/
structure NoOperand (text : List Char) : Prop where
  head : ∀ c ∈ (skipBlanks text).head?, c ∉ ['(', '\'', ':', '?'] ∧ c.isDigit = false
  word : nextWord text = [] ∨ ∃ word ∈ blockedWords, nextWord text = word.toList

/-- No expression starts with this text: there is no operand, and no sign or
`not` to stand before one. -/
structure NoStart (text : List Char) : Prop extends NoOperand text where
  minus : (skipBlanks text).head? ≠ some '-'
  negated : nextWord text ≠ "not".toList

theorem isNameChar_of_nextWord (h : nextWord text ≠ [])
    (hc : c ∈ (skipBlanks text).head?) : isNameChar c = true := by
  by_contra hname
  refine h (nextWord_eq_nil fun d hd => ?_)
  obtain rfl := Option.some.inj (hc.symm.trans hd)
  simpa using hname

theorem symbol_fails_of_nextWord (h : nextWord text ≠ []) (hword : word.toList.head? = some c)
    (hc : isNameChar c = false) : Fails (symbol word) text := by
  refine symbol_fails (fun hhead => ?_) (fun hnil => ?_)
  · rw [isNameChar_of_nextWord h (hhead.trans hword)] at hc
    cases hc
  · rw [hnil] at hword
    cases hword

theorem NoOperand.of_word (hword : word ∈ blockedWords)
    (h : nextWord text = word.toList) : NoOperand text := by
  refine ⟨fun c hc => ?_, .inr ⟨word, hword, h⟩⟩
  have hblocked : ∀ word ∈ blockedWords, Lower word := by decide
  obtain ⟨hne, hlower⟩ := hblocked word hword
  have hhead : c.toLower.isLower = true := by
    cases htext : skipBlanks text with
    | nil =>
      rw [htext] at hc
      cases hc
    | cons d rest =>
      rw [htext] at hc
      obtain rfl := Option.some.inj hc
      unfold nextWord at h
      rw [htext] at h
      by_cases hd : isNameChar d = true
      · rw [takeWhile_cons_of_pos hd, map_cons] at h
        exact hlower _ (h ▸ .head _)
      · rw [takeWhile_cons_of_neg hd] at h
        exact (hne h.symm).elim
  exact of_ascii (P := fun c => c.toLower.isLower = true →
    c ∉ ['(', '\'', ':', '?'] ∧ c.isDigit = false) (by decide)
    (ascii_of_toLower (ascii_of_isLower hhead)) hhead

theorem NoOperand.of_head (h : (skipBlanks text).head? = some c)
    (hc : c ∉ ['(', '\'', ':', '?'] ∧ c.isDigit = false) (hname : isNameChar c = false) :
    NoOperand text := by
  refine ⟨fun d hd => ?_, .inl (nextWord_of_head h hname)⟩
  obtain rfl := Option.some.inj (h.symm.trans hd)
  exact hc

theorem NoStart.of_word (hword : word ∈ blockedWords)
    (hnot : word ≠ "not") (h : nextWord text = word.toList) : NoStart text := by
  have hne : ∀ word ∈ blockedWords, word.toList ≠ [] := by decide
  refine ⟨.of_word hword h, fun hminus => ?_, fun heq => hnot ?_⟩
  · have hname := isNameChar_of_nextWord (h ▸ hne word hword) hminus
    exact absurd hname (by decide)
  · exact String.toList_inj.mp (h.symm.trans heq)

theorem NoStart.of_head (h : (skipBlanks text).head? = some c)
    (hc : c ∉ ['(', '\'', ':', '?'] ∧ c.isDigit = false) (hminus : c ≠ '-')
    (hname : isNameChar c = false) : NoStart text := by
  refine ⟨.of_head h hc hname, ?_, ?_⟩
  · rw [h]
    exact fun heq => hminus (Option.some.inj heq)
  · rw [nextWord_of_head h hname]
    exact nofun

theorem nextWord_of_name (h : name (skipBlanks text) = .ok (word, rest)) :
    nextWord text = (lowerAscii word).toList := by
  obtain ⟨hname, htext, hrest⟩ := name_of_ok h
  unfold nextWord lowerAscii
  rw [htext, takeWhile_of_noName hname.isNameChar hrest, String.toList_ofList]

theorem isReserved_iff : isReserved word = true ↔ lowerAscii word ∈ reservedWords := by
  unfold isReserved
  exact contains_iff_mem

theorem freeName_eq_ok :
    freeName text = .ok (word, rest) ↔ name text = .ok (word, rest) ∧ isReserved word = false := by
  unfold freeName
  rw [check_eq_ok, Bool.not_eq_true']

theorem digits_fails (h : ∀ c ∈ text.head?, c.isDigit = false) : Fails digits text := by
  refine fails_of_not_ok fun run rest hok => ?_
  obtain ⟨hne, hdigits, rfl⟩ := digits_of_ok hok
  cases run with
  | nil => exact hne rfl
  | cons c run =>
    have hc := h c rfl
    rw [hdigits c (.head _)] at hc
    cases hc

theorem constant_of_word (hword : Lower word) (value : α) (h : nextWord text = word.toList) :
    constant word value text = .ok (value, (skipBlanks text).dropWhile isNameChar) :=
  bind_of_ok ((keyword_eq_ok hword).mpr ⟨h, rfl⟩)

theorem constant_fails (hword : Lower word) (value : α)
    (h : nextWord text ≠ word.toList) : Fails (constant word value) text :=
  (keyword_fails hword h).bind

/-- Without a quote and without digits, a literal has to be a constant. -/
theorem literal_eq (h : ∀ c ∈ (skipBlanks text).head?, c ≠ '\'' ∧ c.isDigit = false) :
    literal text = oneOf (constant "null" .null)
      [constant "true" (.bool true), constant "false" (.bool false)] (skipBlanks text) := by
  have hdigits : ∀ {α β : Type} {f : List Char → Reader α} {g : α → Option β},
      Fails ((digits >>= f).convert g) (skipBlanks text) := by
    intro α β f g
    refine fails_of_not_ok fun _ _ hok => ?_
    obtain ⟨_, hok, -⟩ := convert_eq_ok.mp hok
    exact (digits_fails fun c hc => (h c hc).2).bind.not_ok hok
  have hquote : Fails (exactly "'") (skipBlanks text) :=
    exactly_fails (fun hc => (h '\'' hc).1 rfl) (by decide)
  unfold literal
  rw [bind_of_ok (blanks_eq text)]
  exact (orElse_of_fails hquote.bind).trans
    ((orElse_of_fails hdigits).trans (orElse_of_fails hdigits))

theorem literal_fails (hhead : ∀ c ∈ (skipBlanks text).head?, c ≠ '\'' ∧ c.isDigit = false)
    (hword : ∀ word ∈ ["true", "false", "null"], nextWord text ≠ word.toList) :
    Fails literal text := by
  have hskip : ∀ word ∈ ["true", "false", "null"],
      nextWord (skipBlanks text) ≠ word.toList := by
    intro word hmem
    unfold nextWord
    rw [skipBlanks_skipBlanks]
    exact hword word hmem
  unfold Fails
  rw [literal_eq hhead]
  exact Fails.orElse (constant_fails (by decide) _ (hskip _ (by decide)))
    (Fails.orElse (constant_fails (by decide) _ (hskip _ (by decide)))
      (constant_fails (by decide) _ (hskip _ (by decide))))

/-- A character that is neither a quote nor in a name does not start a literal. -/
theorem literal_fails_of_head (h : (skipBlanks text).head? = some c)
    (hc : c ≠ '\'' ∧ c.isDigit = false) (hname : isNameChar c = false) : Fails literal text := by
  have hne : ∀ word ∈ ["true", "false", "null"], [] ≠ word.toList := by decide
  refine literal_fails (fun d hd => ?_) (nextWord_of_head h hname ▸ hne)
  obtain rfl := Option.some.inj (h.symm.trans hd)
  exact hc

theorem parameter_fails
    (h : ∀ c ∈ (skipBlanks text).head?, c ≠ ':' ∧ c ≠ '?') : Fails parameter text := by
  have hcolon : Fails (exactly ":") (skipBlanks text) :=
    exactly_fails (fun hc => (h ':' hc).1 rfl) (by decide)
  have hmark : Fails (exactly "?") (skipBlanks text) :=
    exactly_fails (fun hc => (h '?' hc).2 rfl) (by decide)
  refine Fails.after (blanks_eq text) (Fails.orElse hcolon.bind (Fails.orElse ?_ hmark.bind))
  refine fails_of_not_ok fun _ _ hok => ?_
  obtain ⟨_, hok, -⟩ := convert_eq_ok.mp hok
  exact hmark.bind.not_ok hok

theorem aggregateFunction_fails
    (h : ∀ function : AggregateFunction, nextWord text ≠ function.text.toList) :
    Fails aggregateFunction text :=
  Fails.orElse (constant_fails (by decide) _ (h .count))
    (Fails.orElse (constant_fails (by decide) _ (h .sum))
      (Fails.orElse (constant_fails (by decide) _ (h .avg))
        (Fails.orElse (constant_fails (by decide) _ (h .min))
          (constant_fails (by decide) _ (h .max)))))

theorem operand_fails_of
    (hhead : ∀ c ∈ (skipBlanks text).head?, c ∉ ['(', '\'', ':', '?']) (hliteral : Fails literal text)
    (haggregate : ∀ function : AggregateFunction, nextWord text ≠ function.text.toList)
    (hname : Fails freeName (skipBlanks text)) (nested : Reader Expr) :
    Fails (operand nested) text := by
  have hparenthesis : Fails (symbol "(") text :=
    symbol_fails (fun hc => hhead '(' hc (by decide)) (by decide)
  have hparameter : Fails parameter text := by
    refine parameter_fails fun c hc => ⟨?_, ?_⟩ <;> rintro rfl <;> exact hhead _ hc (by decide)
  have hcall : Fails (call nested) text := Fails.after (blanks_eq text) hname.bind
  have hpath : Fails path text := Fails.after (blanks_eq text) hname.bind
  exact Fails.orElse hparenthesis.bind (hliteral.bind.orElse (hparameter.orElse
    ((aggregateFunction_fails haggregate).bind.orElse (hcall.orElse hpath.bind))))

theorem disjunction_fails_of_signed (h : Fails (signed nested) text)
    (hnot : nextWord text ≠ "not".toList) : Fails (disjunction nested) text := by
  have hnegation : Fails (negation nested) text := by
    unfold Fails negation
    rw [marked_of_fails (keyword_fails (by decide) hnot)]
    exact h.bind.bind.bind
  exact hnegation.bind.bind

namespace NoOperand

theorem nextWord_ne (h : NoOperand text) (hne : word ≠ "")
    (hfree : word ∉ blockedWords) : nextWord text ≠ word.toList := by
  intro heq
  rcases h.word with hnil | ⟨blocked, hblocked, hnext⟩
  · exact hne (String.toList_eq_nil_iff.mp (heq.symm.trans hnil))
  · rw [String.toList_inj.mp (heq.symm.trans hnext)] at hfree
    exact hfree hblocked

theorem freeName_fails (h : NoOperand text) : Fails freeName (skipBlanks text) := by
  refine fails_of_not_ok fun word rest hok => ?_
  obtain ⟨hname, hfree⟩ := freeName_eq_ok.mp hok
  have hnext := nextWord_of_name hname
  rcases h.word with hnil | ⟨blocked, hblocked, hblocked'⟩
  · obtain ⟨first, tail, hword, -⟩ := (name_of_ok hname).1
    rw [hnil, lowerAscii, String.toList_ofList, hword] at hnext
    cases hnext
  · have hmem : lowerAscii word ∈ reservedWords := by
      rw [← String.toList_inj.mp (hblocked'.symm.trans hnext)]
      exact mem_of_mem_filter hblocked
    rw [isReserved_iff.mpr hmem] at hfree
    cases hfree

theorem operand_fails (h : NoOperand text) (nested : Reader Expr) :
    Fails (operand nested) text := by
  refine operand_fails_of (fun c hc => (h.head c hc).1) ?_ (fun function => ?_)
    h.freeName_fails nested
  · refine literal_fails (fun c hc => ⟨?_, (h.head c hc).2⟩) fun word hword => ?_
    · rintro rfl
      exact (h.head _ hc).1 (by decide)
    · have hfree : ∀ word ∈ ["true", "false", "null"], word ≠ "" ∧ word ∉ blockedWords := by decide
      exact h.nextWord_ne (hfree word hword).1 (hfree word hword).2
  · exact h.nextWord_ne (by cases function <;> decide) (by cases function <;> decide)

theorem signed_fails (h : NoOperand text) (hminus : (skipBlanks text).head? ≠ some '-')
    (nested : Reader Expr) : Fails (signed nested) text := by
  unfold Fails signed
  rw [marked_of_fails (symbol_fails hminus (by decide))]
  exact h.operand_fails nested

theorem predicate_fails (h : NoOperand text) (hminus : (skipBlanks text).head? ≠ some '-')
    (nested : Reader Expr) : Fails (predicate nested) text :=
  (h.signed_fails hminus nested).bind.bind.bind

end NoOperand

namespace NoStart

theorem disjunction_fails (h : NoStart text) (nested : Reader Expr) :
    Fails (disjunction nested) text :=
  disjunction_fails_of_signed (h.signed_fails h.minus nested) h.negated

theorem expression_fails (h : NoStart text) : Fails expression text := by
  unfold Fails
  rw [expression]
  exact h.disjunction_fails _

end NoStart

/-! ## Aggregates -/

theorem aggregateFunction_of_word (h : nextWord text = function.text.toList) :
    aggregateFunction text = .ok (function, (skipBlanks text).dropWhile isNameChar) := by
  have hlower : ∀ other : AggregateFunction, Lower other.text := by
    intro other
    cases other <;> decide
  have hok : constant function.text function text
      = .ok (function, (skipBlanks text).dropWhile isNameChar) :=
    constant_of_word (hlower function) function h
  have hskip : ∀ (other : AggregateFunction) {p : Reader AggregateFunction},
      function.text ≠ other.text → orElse (constant other.text other) p text = p text :=
    fun other _ hne => orElse_of_fails (keyword_fails_of_word h (hlower other) hne).bind
  cases function with
  | count => exact orElse_of_ok hok
  | sum => exact (hskip .count (by decide)).trans (orElse_of_ok hok)
  | avg =>
    exact (hskip .count (by decide)).trans ((hskip .sum (by decide)).trans (orElse_of_ok hok))
  | min =>
    exact (hskip .count (by decide)).trans ((hskip .sum (by decide)).trans
      ((hskip .avg (by decide)).trans (orElse_of_ok hok)))
  | max =>
    exact (hskip .count (by decide)).trans ((hskip .sum (by decide)).trans
      ((hskip .avg (by decide)).trans ((hskip .min (by decide)).trans hok)))

theorem aggregateFunction_of_ok (h : aggregateFunction text = .ok (function, rest)) :
    nextWord text = function.text.toList
      ∧ rest = (skipBlanks text).dropWhile isNameChar := by
  by_cases hword : ∃ other : AggregateFunction, nextWord text = other.text.toList
  · obtain ⟨other, hother⟩ := hword
    rw [aggregateFunction_of_word hother] at h
    obtain ⟨rfl, rfl⟩ := Prod.mk.inj (Except.ok.inj h)
    exact ⟨hother, rfl⟩
  · refine ((aggregateFunction_fails fun other hother => ?_).not_ok h).elim
    exact hword ⟨other, hother⟩

/-- Where an expression can be read, it is the argument of the aggregate: there
is neither a star nor a `distinct`. -/
theorem aggregateArgument_of_ok {argument : Expr} (hstart : NoStart text → Fails nested text)
    (h : nested text = .ok (argument, rest)) :
    aggregateArgument nested text = .ok ((false, some argument), rest) := by
  have hstar : Fails (symbol "*") text := by
    refine symbol_fails (fun hhead => ?_) (by decide)
    exact (hstart (.of_head hhead (by decide) (by decide) (by decide))).not_ok h
  have hdistinct : Fails (keyword "distinct") text := by
    refine keyword_fails (by decide) fun hnext => ?_
    exact (hstart (.of_word (by decide) (by decide) hnext)).not_ok h
  unfold aggregateArgument
  rw [orElse_of_fails hstar.bind, bind_of_ok (present_of_fails hdistinct), bind_of_ok h]
  rfl

end EntityQuery.Query.Grammar
