import EntityQuery.Proofs.Query.Follow

/-!
# Expressions read back

The printer adds no parentheses, and so its texts can be read in one way only if
the tree has the shape that reading gives it. For these trees (`Parsed`) each
level reads its own texts back (`Parsed.readBack`), given that the parts of the
tree keep what the printer keeps: a number is written in full, a call has a name
that can be read as one, and no `like` has an escape (`Readable`).

There is one lemma for each way that an expression is made up. Most of the work
is in what the readers do *not* take: every alternative that comes first has to
fail, and nothing may go on behind the end.
-/

namespace EntityQuery.Query

open List Text Expr

open Reader Grammar Token

variable {α : Type} {rest text : List Char} {e inner left right : Expr} {word : String}
  {arguments : List Expr} {op : ArithmeticOp} {negated : Bool}

variable {level : Level} {function : AggregateFunction} {distinct : Bool} {c : Char}

/-! A word of a clause has a blank behind it, which is left. -/

theorem nextWord_then (word : String) (hlower : Lower word) (tail : List Char) :
    nextWord (word.toList ++ ' ' :: tail) = word.toList :=
  nextWord_word hlower (noName_blank tail)

theorem keyword_then (word : String) (hlower : Lower word) (tail : List Char) :
    keyword word (word.toList ++ ' ' :: tail) = .ok ((), ' ' :: tail) :=
  keyword_append hlower (noName_blank tail)

theorem keyword_blank_then (word : String) (hlower : Lower word) (tail : List Char) :
    keyword word (' ' :: (word.toList ++ ' ' :: tail)) = .ok ((), ' ' :: tail) :=
  (@Blankless.keyword word ..).mpr (keyword_then word hlower tail)

/-! ## Lists -/

/-- The items of a list behind the first one, each with its comma. -/
def listed {α : Type} (text : α → String) (items : List α) : List Char :=
  items.flatMap fun item => ',' :: ' ' :: (text item).toList

theorem listed_cons (text : α → String) (item : α) (items : List α) :
    listed text (item :: items) = ',' :: ' ' :: ((text item).toList ++ listed text items) := rfl

theorem toList_texts (first : Expr) (others : List Expr) :
    (Expr.texts (first :: others)).toList = first.text.toList ++ listed Expr.text others := by
  induction others generalizing first with
  | nil => simp [Expr.texts, listed]
  | cons next others ih =>
    rw [Expr.texts, String.toList_append, String.toList_append, ih, listed_cons, append_assoc]
    · rfl
    · intro h
      cases h

theorem toList_commaList (text : α → String) (first : α) (others : List α) :
    (commaList ((first :: others).map text)).toList = (text first).toList ++ listed text others := by
  unfold commaList
  induction others generalizing first with
  | nil => simp [listed]
  | cons next others ih =>
    rw [map_cons, map_cons, String.intercalate_cons_cons, ← map_cons,
      String.toList_append, String.toList_append, ih, listed_cons, append_assoc]
    rfl

theorem sepBy1_append {p : Reader α} {text : α → String} {first : α} {others : List α}
    (hblank : Blankless p)
    (hitem : ∀ item ∈ first :: others, ∀ tail, tail = rest ∨ tail.head? = some ',' →
      p ((text item).toList ++ tail) = .ok (item, tail)) (hend : Fails (symbol ",") rest) :
    sepBy1 (symbol ",") p ((text first).toList ++ (listed text others ++ rest))
      = .ok (first :: others, rest) := by
  obtain ⟨hfirst, hothers⟩ := forall_mem_cons.mp hitem
  have htail : ∀ items : List α, listed text items ++ rest = rest
      ∨ (listed text items ++ rest).head? = some ',' := by
    intro items
    cases items with
    | nil => exact .inl rfl
    | cons item items => exact .inr rfl
  have hmany : repeated (do let _ ← symbol ","; p) (listed text others ++ rest)
      = (others, rest) := by
    clear hfirst hitem
    induction others with
    | nil => exact repeated_of_fails hend.bind
    | cons item items ih =>
      obtain ⟨hitem, hitems⟩ := forall_mem_cons.mp hothers
      have hread : (do let _ ← symbol ","; p)
          (',' :: ' ' :: ((text item).toList ++ (listed text items ++ rest)))
          = .ok (item, listed text items ++ rest) :=
        bind_ok (symbol_eq_ok.mpr rfl) ((@hblank ..).mpr (hitem _ (htail items)))
      rw [listed_cons, cons_append, cons_append, append_assoc]
      refine (repeated_of_ok hread ?_).trans (by rw [ih hitems])
      simp only [length_cons, length_append]
      omega
  exact bind_ok (hfirst _ (htail others)) <| bind_ok (many_eq_ok.mpr hmany) rfl

/-! ## Operands -/

section Operands

variable {nested : Reader Expr} {text rest : List Char}

theorem parenthesis_fails_of_literal {value : Literal} (h : literal text = .ok (value, rest)) :
    Fails (symbol "(") text := by
  refine symbol_fails (fun hhead => ?_) (by decide)
  exact (literal_fails_of_head hhead (by decide) (by decide)).not_ok h

theorem operand_of_literal {value : Literal} (h : literal text = .ok (value, rest)) :
    operand nested text = .ok (.literal value, rest) :=
  (orElse_of_fails (parenthesis_fails_of_literal h).bind).trans (orElse_of_ok (bind_of_ok h))

theorem operand_of_parameter (h : parameter text = .ok (e, rest)) :
    operand nested text = .ok (e, rest) := by
  obtain ⟨c, hc, hhead⟩ : ∃ c, (c = ':' ∨ c = '?') ∧ (skipBlanks text).head? = some c := by
    by_contra hnone
    refine (parameter_fails fun c hc => ⟨?_, ?_⟩).not_ok h
    · exact fun heq => hnone ⟨c, .inl heq, hc⟩
    · exact fun heq => hnone ⟨c, .inr heq, hc⟩
  obtain ⟨hopen, hquote, hname⟩ : c ≠ '(' ∧ (c ≠ '\'' ∧ c.isDigit = false)
      ∧ isNameChar c = false := by
    rcases hc with rfl | rfl <;> decide
  have hparenthesis : Fails (symbol "(") text :=
    symbol_fails (fun hc' => hopen (Option.some.inj (hhead.symm.trans hc'))) (by decide)
  have hliteral : Fails literal text := literal_fails_of_head hhead hquote hname
  exact (orElse_of_fails hparenthesis.bind).trans
    ((orElse_of_fails hliteral.bind).trans (orElse_of_ok h))

/-- Behind a name that stands for no value, only an aggregate, a call or a path
can be read. -/
theorem operand_of_name (hword : IsName word) (hrest : NoName rest)
    (hconstant : ∀ constant ∈ ["true", "false", "null"], lowerAscii word ≠ constant) :
    operand nested (word.toList ++ rest)
      = oneOf (do return .path (← path)) [aggregate nested, call nested] (word.toList ++ rest) := by
  have hskip := hword.skipBlanks rest
  have hname : name (skipBlanks (word.toList ++ rest)) = .ok (word, rest) := by
    rw [hskip]
    exact name_append hword hrest
  have hnext := nextWord_of_name hname
  have hne : nextWord (word.toList ++ rest) ≠ [] := by
    rw [nextWord_append hword.isNameChar hword.ne_nil hrest]
    exact fun h => hword.ne_nil (map_eq_nil_iff.mp h)
  have hhead : ∀ c ∈ (skipBlanks (word.toList ++ rest)).head?, isNameStart c = true := by
    obtain ⟨first, tail, hchars, hfirst, -⟩ := hword
    rw [hskip, hchars]
    intro c hc
    obtain rfl := Option.some.inj hc
    exact hfirst
  have hliteral : Fails literal (word.toList ++ rest) := by
    refine literal_fails (fun c hc => ⟨?_, ?_⟩) fun constant hmem heq => ?_
    · rintro rfl
      exact absurd (hhead _ hc) (by decide)
    · by_contra hdigit
      have hstart := isNameStart_of_isDigit (by simpa using hdigit)
      rw [hhead c hc] at hstart
      cases hstart
    · exact hconstant constant hmem (String.toList_inj.mp (hnext.symm.trans heq))
  have hparameter : Fails parameter (word.toList ++ rest) := by
    refine parameter_fails fun c hc => ⟨?_, ?_⟩ <;> rintro rfl <;>
      exact absurd (hhead _ hc) (by decide)
  exact (orElse_of_fails (symbol_fails_of_nextWord hne rfl (by decide)).bind).trans
    ((orElse_of_fails hliteral.bind).trans (orElse_of_fails hparameter))

theorem not_constant (h : isReserved word = false) :
    ∀ constant ∈ ["true", "false", "null"], lowerAscii word ≠ constant := by
  have hreserved : ∀ constant ∈ ["true", "false", "null"], constant ∈ reservedWords := by decide
  intro constant hmem heq
  rw [isReserved_iff.mpr (heq ▸ hreserved constant hmem)] at h
  cases h

end Operands

theorem readBack_nested (h : ReadBack .disjunction inner) : ReadBack .operand (.nested inner) := by
  intro rest hrest
  have htext : (nested inner).text.toList ++ rest
      = '(' :: (inner.text.toList ++ ')' :: rest) := by
    simp [text]
  have hread : parenthesized expression ('(' :: (inner.text.toList ++ ')' :: rest))
      = .ok (.nested inner, rest) :=
    bind_ok (symbol_eq_ok.mpr rfl) <| bind_ok (h.expression (.close (by decide) _ _)) <|
      bind_ok (symbol_eq_ok.mpr rfl) rfl
  rw [htext]
  exact orElse_of_ok hread

theorem isName_aggregate (function : AggregateFunction) : IsName function.text
    ∧ (∀ constant ∈ ["true", "false", "null"], lowerAscii function.text ≠ constant) := by
  cases function <;> exact ⟨⟨_, _, rfl, by decide, by decide⟩, by decide⟩

theorem operand_of_aggregate {argument : Option Expr} {inside : List Char}
    (h : aggregateArgument expression inside = .ok ((distinct, argument), ')' :: rest) ) :
    operand expression (function.text.toList ++ '(' :: inside)
      = .ok (.aggregate function distinct argument, rest) := by
  obtain ⟨hname, hconstant⟩ := isName_aggregate function
  have hparenthesis : NoName ('(' :: inside) := noName_cons (by decide)
  have hlower : Lower function.text := by cases function <;> decide
  have hread := aggregateFunction_of_word (nextWord_word hlower hparenthesis)
  rw [hname.skipBlanks, dropWhile_of_noName hname.isNameChar hparenthesis] at hread
  rw [operand_of_name hname hparenthesis hconstant]
  exact orElse_of_ok (bind_ok hread <| bind_ok (symbol_eq_ok.mpr rfl) <| bind_ok h <|
    bind_ok (symbol_eq_ok.mpr rfl) rfl)

theorem readBack_everything (function : AggregateFunction) :
    ReadBack .operand (.aggregate function false none) := by
  intro rest hrest
  have htext : (aggregate function false none).text.toList ++ rest
      = function.text.toList ++ '(' :: '*' :: ')' :: rest := by
    simp [text]
  rw [htext]
  exact operand_of_aggregate (orElse_of_ok (bind_of_ok (symbol_eq_ok.mpr rfl)))

theorem readBack_aggregate {argument : Expr} (h : ReadBack .disjunction argument) :
    ReadBack .operand (.aggregate function distinct (some argument)) := by
  intro rest hrest
  have hargument : expression (argument.text.toList ++ ')' :: rest) = .ok (argument, ')' :: rest) :=
    h.expression (.close (by decide) _ _)
  cases distinct with
  | false =>
    have htext : (aggregate function false (some argument)).text.toList ++ rest
        = function.text.toList ++ '(' :: (argument.text.toList ++ ')' :: rest) := by
      simp [text]
    rw [htext]
    exact operand_of_aggregate (aggregateArgument_of_ok NoStart.expression_fails hargument)
  | true =>
    have htext : (aggregate function true (some argument)).text.toList ++ rest
        = function.text.toList
          ++ '(' :: ("distinct".toList ++ ' ' :: (argument.text.toList ++ ')' :: rest)) := by
      simp [text]
    rw [htext]
    refine operand_of_aggregate ((orElse_of_fails (symbol_fails_of_nextWord ?_ rfl
      (by decide)).bind).trans (bind_ok (present_of_ok (keyword_then "distinct" (by decide) _)) <|
        bind_ok ((@blankless_expression ..).mpr hargument) rfl))
    rw [nextWord_then "distinct" (by decide)]
    decide

/-- A name is not read as an aggregate, if it is no aggregate function or if what
follows it is not one argument in parentheses. -/
theorem aggregate_fails_of_name {nested : Reader Expr} (hword : IsName word) (hrest : NoName rest)
    (h : ∀ function : AggregateFunction, lowerAscii word = function.text →
      ∀ inside found after, symbol "(" rest = .ok ((), inside) →
        aggregateArgument nested inside = .ok (found, after) → Fails (symbol ")") after) :
    Fails (aggregate nested) (word.toList ++ rest) := by
  refine fails_of_not_ok fun e last hok => ?_
  obtain ⟨function, mid, hfunction, hok⟩ := bind_eq_ok.mp hok
  obtain ⟨⟨⟩, inside, hinside, hok⟩ := bind_eq_ok.mp hok
  obtain ⟨found, after, hfound, hok⟩ := bind_eq_ok.mp hok
  obtain ⟨⟨⟩, close, hclose, -⟩ := bind_eq_ok.mp hok
  obtain ⟨hnext, hmid⟩ := aggregateFunction_of_ok hfunction
  rw [hword.skipBlanks, dropWhile_of_noName hword.isNameChar hrest] at hmid
  subst hmid
  have hname : lowerAscii word = function.text := by
    rw [nextWord_append hword.isNameChar hword.ne_nil hrest] at hnext
    rw [← String.toList_inj, lowerAscii, String.toList_ofList]
    exact hnext
  exact (h function hname inside found after hinside hfound).not_ok hclose

/-- The sign that starts a call does not stand behind a path. -/
theorem parenthesis_fails_of_dotted {segments : List String} (hrest : Follow .operand rest) :
    Fails (symbol "(") (dotted segments ++ rest) := by
  cases segments with
  | nil => exact hrest.symbol_fails rfl (by decide)
  | cons segment segments =>
    refine symbol_fails ?_ (by decide)
    rw [dotted_cons, cons_append, skipBlanks_cons (by decide)]
    exact show some '.' ≠ some '(' by decide

theorem readBack_path {first : String} {others : List String} (hfirst : FreeName first)
    (hothers : ∀ segment ∈ others, IsName segment) : ReadBack .operand (.path (first :: others)) := by
  intro rest hrest
  have hnext := noName_dotted others hrest.stops.noName
  have hparenthesis : Fails (symbol "(") (dotted others ++ rest) :=
    parenthesis_fails_of_dotted hrest
  have haggregate : Fails (aggregate expression) (first.toList ++ (dotted others ++ rest)) :=
    aggregate_fails_of_name hfirst.1 hnext fun _ _ _ _ _ hopen _ =>
      (hparenthesis.not_ok hopen).elim
  have hcall : Fails (call expression) (first.toList ++ (dotted others ++ rest)) := by
    refine Fails.after (blanks_eq _) ?_
    rw [hfirst.1.skipBlanks]
    exact Fails.after (freeName_append hfirst hnext) hparenthesis.bind
  have hpath := path_append hfirst hothers hrest.stops
  show operand expression ((pathText (first :: others)).toList ++ rest) = _
  rw [toList_pathText, append_assoc] at hpath ⊢
  rw [operand_of_name hfirst.1 hnext (not_constant hfirst.2)]
  exact (orElse_of_fails haggregate).trans ((orElse_of_fails hcall).trans (bind_of_ok hpath))

/-! ## Calls -/

theorem isNameStart_asciiLower (h : isNameStart c) (hc : c.toNat < 0x80 ∨ c = kelvin) :
    isNameStart (asciiLower c) = true := by
  rcases hc with hc | rfl
  · exact of_ascii (P := fun c => isNameStart c = true → isNameStart (asciiLower c) = true)
      (by decide) hc h
  · decide

theorem isNameChar_asciiLower (h : isNameChar c) (hc : c.toNat < 0x80 ∨ c = kelvin) :
    isNameChar (asciiLower c) = true := by
  rcases hc with hc | rfl
  · exact of_ascii (P := fun c => isNameChar c = true → isNameChar (asciiLower c) = true)
      (by decide) hc h
  · decide

theorem isName_lowercase (h : IsName word) (hascii : IsAscii (lowercase word).toList) :
    IsName (lowercase word) := by
  obtain ⟨first, rest, hword, hfirst, hrest⟩ := h
  obtain ⟨hlower, hchars⟩ := lowercase_of_isAscii hascii
  rw [hword] at hlower hchars
  obtain ⟨hfirst', hrest'⟩ := forall_mem_cons.mp hchars
  refine ⟨asciiLower first, rest.map asciiLower, hlower,
    isNameStart_asciiLower hfirst hfirst', forall_mem_map.mpr fun c hc => ?_⟩
  exact isNameChar_asciiLower (hrest c hc) (hrest' c hc)

theorem sepBy1_expressions {first : Expr} {others : List Expr}
    (h : ∀ e ∈ first :: others, ReadBack .disjunction e) (rest : List Char) :
    sepBy1 (symbol ",") expression ((Expr.texts (first :: others)).toList ++ ')' :: rest)
      = .ok (first :: others, ')' :: rest) := by
  rw [toList_texts, append_assoc]
  refine sepBy1_append blankless_expression (fun e he tail htail => ?_) ?_
  · refine (h e he).expression ?_
    rcases htail with rfl | hcomma
    · exact .close (by decide) _ _
    · obtain ⟨more, rfl⟩ := head?_eq_some_iff.mp hcomma
      exact .close (by decide) _ _
  · exact symbol_fails (show some ')' ≠ some ',' by decide) (by decide)

theorem call_of_arguments {function : String} (hfunction : FreeName function)
    (harguments : ∀ argument ∈ arguments, ReadBack .disjunction argument) (rest : List Char) :
    call expression (function.toList ++ '(' :: ((texts arguments).toList ++ ')' :: rest))
      = .ok (.call (lowercase function) arguments, rest) := by
  have hread : sepBy (symbol ",") expression ((texts arguments).toList ++ ')' :: rest)
      = .ok (arguments, ')' :: rest) := by
    cases arguments with
    | nil =>
      have hstart : NoStart (')' :: rest) := .of_head rfl (by decide) (by decide) (by decide)
      exact bind_of_ok (optional_of_fails hstart.expression_fails.bind)
    | cons first others => exact bind_of_ok (optional_of_ok (sepBy1_expressions harguments rest))
  refine bind_ok (blanks_eq _) ?_
  rw [hfunction.1.skipBlanks]
  exact bind_ok (freeName_append hfunction (noName_cons (by decide))) <|
    bind_ok (symbol_eq_ok.mpr rfl) <| bind_ok hread <| bind_ok (symbol_eq_ok.mpr rfl) rfl

/-- A list of arguments is not one argument of an aggregate, unless it has one
item. -/
theorem close_fails_of_arguments
    (harguments : ∀ argument ∈ arguments, ReadBack .disjunction argument)
    (hlength : arguments.length ≠ 1) {after : List Char} {found : Bool × Option Expr}
    (h : aggregateArgument expression ((Expr.texts arguments).toList ++ ')' :: rest) = .ok (found, after)) :
    Fails (symbol ")") after := by
  cases arguments with
  | nil =>
    have hstart : NoStart (')' :: rest) := .of_head rfl (by decide) (by decide) (by decide)
    have hstar : Fails (symbol "*") (')' :: rest) :=
      symbol_fails (show some ')' ≠ some '*' by decide) (by decide)
    have hdistinct : Fails (keyword "distinct") (')' :: rest) := by
      refine keyword_fails (by decide) ?_
      rw [nextWord_of_head rfl (by decide)]
      decide
    have hfails : Fails (aggregateArgument expression) (')' :: rest) :=
      Fails.orElse hstar.bind
        (Fails.after (present_of_fails hdistinct) hstart.expression_fails.bind)
    exact (hfails.not_ok h).elim
  | cons first others =>
    cases others with
    | nil => exact (hlength rfl).elim
    | cons second others =>
      rw [toList_texts, append_assoc] at h
      have hfirst := (harguments first (.head _)).expression
        (Follow.close (c := ',') (by decide) _
          (' ' :: (second.text.toList ++ listed Expr.text others ++ ')' :: rest)))
      have hread := aggregateArgument_of_ok NoStart.expression_fails hfirst
      rw [listed_cons] at h
      obtain ⟨-, rfl⟩ := Prod.mk.inj (Except.ok.inj (h.symm.trans hread))
      exact symbol_fails (show some ',' ≠ some ')' by decide) (by decide)

theorem readBack_call (hname : IsName word) (hfree : isReserved word = false)
    (hlower : lowerAscii word = word) (hself : lowercase word = word)
    (harguments : ∀ argument ∈ arguments, ReadBack .disjunction argument)
    (haggregate : ∀ aggregate : AggregateFunction, word = aggregate.text → arguments.length ≠ 1) :
    ReadBack .operand (.call word arguments) := by
  intro rest hrest
  have htext : (call word arguments).text.toList ++ rest
      = word.toList ++ '(' :: ((texts arguments).toList ++ ')' :: rest) := by
    simp [text]
  have hparenthesis : NoName ('(' :: ((texts arguments).toList ++ ')' :: rest)) :=
    noName_cons (by decide)
  have hfails : Fails (Grammar.aggregate expression)
      (word.toList ++ '(' :: ((texts arguments).toList ++ ')' :: rest)) := by
    refine aggregate_fails_of_name hname hparenthesis ?_
    intro aggregate haggregate' inside found after hopen hfound
    have hinside := symbol_eq_ok.mp hopen
    rw [skipBlanks_cons (by decide)] at hinside
    obtain rfl := (List.cons.inj hinside).2
    exact close_fails_of_arguments harguments (haggregate aggregate (hlower.symm.trans haggregate'))
      hfound
  have hcall := call_of_arguments ⟨hname, hfree⟩ harguments rest
  rw [hself] at hcall
  show operand expression _ = _
  rw [htext, operand_of_name hname hparenthesis (not_constant hfree)]
  exact (orElse_of_fails hfails).trans (orElse_of_ok hcall)

/-! ## Signs -/

/-- Where an operand can be read, there is no sign. -/
theorem minus_fails_of_operand (h : operand expression text = .ok (e, rest)) :
    Fails (symbol "-") text := by
  refine symbol_fails (fun hhead => ?_) (by decide)
  have hnone : NoOperand text := .of_head hhead (by decide) (by decide)
  exact (hnone.operand_fails expression).not_ok h

theorem signed_of_operand (h : operand expression text = .ok (e, rest)) :
    signed expression text = .ok (e, rest) :=
  (marked_of_fails (minus_fails_of_operand h)).trans h

/-- An expression that is written with a minus sign before another one. -/
theorem signed_of_minus {whole : Expr} (htext : whole.text.toList ++ rest = '-' :: text)
    (hwhole : withSign e = whole) (h : signed expression text = .ok (e, rest)) :
    signed expression (whole.text.toList ++ rest) = .ok (whole, rest) := by
  rw [htext, ← hwhole]
  exact marked_of_ok (symbol_eq_ok.mpr rfl) (Nat.lt_succ_self _) h

theorem readBack_signed (h : ReadBack .operand e) : ReadBack .signed e :=
  fun _ hrest => signed_of_operand (h.read (hrest.tighten (by decide) (by decide)))

theorem readBack_negativeInt {n : Int} (hneg : n < 0) (hmin : -maxInt64 ≤ n) :
    ReadBack .signed (.literal (.int n)) := by
  intro rest hrest
  have htext : (literal (.int n)).text.toList ++ rest
      = '-' :: ((toString n.natAbs).toList ++ rest) := by
    show (toString n).toList ++ rest = _
    rw [toList_toString_int, if_pos hneg]
    rfl
  have hvalue : withSign (.literal (.int n.natAbs)) = .literal (.int n) := by
    simp only [withSign]
    congr 2
    omega
  exact signed_of_minus htext hvalue (signed_of_operand (operand_of_literal
    (literal_append_int (n := n.natAbs) (by omega) hrest.stops)))

theorem readBack_negativeDouble {x : Double} (hneg : x.isNegative) (hx : WrittenInFull x) :
    ReadBack .signed (.literal (.double x)) := by
  obtain ⟨whole, fraction, hwhole, hfraction, htext, hread⟩ := hx
  intro rest hrest
  have hchars : (literal (.double x)).text.toList ++ rest
      = '-' :: (whole ++ '.' :: fraction ++ rest) := by
    show (DecimalStyle.plain.text x).toList ++ rest = _
    rw [htext, hneg]
    rfl
  have hvalue : withSign (.literal (.double (.ofMagnitude false x.magnitude)))
      = .literal (.double x) := by
    simp only [withSign]
    rw [Double.neg_ofMagnitude x.magnitude_lt, Bool.not_false, ← hneg, Double.ofMagnitude_magnitude]
  exact signed_of_minus hchars hvalue (signed_of_operand (operand_of_literal
    (literal_append_double hwhole hfraction hread hrest.stops)))

theorem readBack_negate (h : ReadBack .signed inner) (hsign : withSign inner = .negate inner) :
    ReadBack .signed (.negate inner) := by
  intro rest hrest
  have htext : (negate inner).text.toList ++ rest = '-' :: (inner.text.toList ++ rest) := by
    simp [text]
  exact signed_of_minus htext hsign (h.read hrest)

/-! ## Operators -/

theorem multiplying_append (hop : op ∈ [.mul, .div, .mod]) (rest : List Char) :
    multiplying (' ' :: (op.text.toList ++ ' ' :: rest)) = .ok (op, ' ' :: rest) := by
  simp only [mem_cons, not_mem_nil, or_false] at hop
  rcases hop with rfl | rfl | rfl <;> rfl

theorem adding_append (hop : op ∈ [.concat, .add, .sub]) (rest : List Char) :
    adding (' ' :: (op.text.toList ++ ' ' :: rest)) = .ok (op, ' ' :: rest) := by
  simp only [mem_cons, not_mem_nil, or_false] at hop
  rcases hop with rfl | rfl | rfl <;> rfl

theorem compareOp_append (op : CompareOp) (rest : List Char) :
    compareOp (' ' :: (op.text.toList ++ ' ' :: rest)) = .ok (op, ' ' :: rest) := by
  cases op <;> rfl

theorem follow_operator (hne : word ≠ "")
    (hword : ∀ c ∈ word.toList.take 1, c ∉ level.symbols ∧ isBlank c = false ∧ isNameChar c = false)
    (rest : List Char) : Follow level (' ' :: (word.toList ++ rest)) := by
  cases hchars : word.toList with
  | nil => exact (hne (String.toList_eq_nil_iff.mp hchars)).elim
  | cons c tail =>
    rw [hchars] at hword
    obtain ⟨hsymbol, hblank, hname⟩ := hword c (.head _)
    exact .of_symbol hsymbol hblank hname (tail ++ rest)

theorem toList_binary {left op right : String} (rest : List Char) :
    (left ++ " " ++ op ++ " " ++ right).toList ++ rest
      = left.toList ++ ' ' :: (op.toList ++ ' ' :: (right.toList ++ rest)) := by
  simp

theorem length_binary (op right rest : List Char) :
    rest.length < (' ' :: (op ++ ' ' :: (right ++ rest))).length := by
  simp only [length_cons, length_append]
  omega

/-- An operator of a level whose operators group to the left. -/
theorem readBack_grouped {ω : Type} {operator : Reader ω} {join : ω → Expr → Expr → Expr} {op : ω}
    (hresume : level.resume = regroup operator level.inner.reader join)
    (htext : (join op left right).text = left.text ++ " " ++ word ++ " " ++ right.text)
    (hop : ∀ rest, operator (' ' :: (word.toList ++ ' ' :: rest)) = .ok (op, ' ' :: rest))
    (hfollow : ∀ rest, Follow level.inner (' ' :: (word.toList ++ ' ' :: rest)))
    (hleft : ReadBack level left) (hright : ReadBack level.inner right) :
    ReadBack level (join op left right) := by
  intro rest hrest
  rw [htext, toList_binary, hleft _ (hfollow _), hresume]
  exact regroup_step (hop _) (hright.read_blank hrest) (length_binary _ _ _)

theorem readBack_multiply (hop : op ∈ [.mul, .div, .mod]) (hleft : ReadBack .product left)
    (hright : ReadBack .signed right) : ReadBack .product (.arithmetic op left right) :=
  readBack_grouped rfl rfl (multiplying_append hop)
    (fun _ => follow_operator (by cases op <;> decide) (by cases op <;> decide) _) hleft hright

theorem readBack_add (hop : op ∈ [.concat, .add, .sub]) (hleft : ReadBack .sum left)
    (hright : ReadBack .product right) : ReadBack .sum (.arithmetic op left right) := by
  refine readBack_grouped rfl rfl (adding_append hop) (fun _ => ?_) hleft hright
  refine follow_operator (by cases op <;> decide) ?_ _
  simp only [mem_cons, not_mem_nil, or_false] at hop
  rcases hop with rfl | rfl | rfl <;> decide

theorem constant_append (hlower : Lower word) (value : α) (hrest : NoName rest) :
    constant word value (' ' :: (word.toList ++ rest)) = .ok (value, rest) :=
  bind_of_ok ((@Blankless.keyword word ..).mpr (keyword_append hlower hrest))

theorem readBack_and (hleft : ReadBack .conjunction left) (hright : ReadBack .negation right) :
    ReadBack .conjunction (.logical .and left right) :=
  readBack_grouped rfl rfl (fun _ => constant_append (by decide) _ (noName_blank _))
    (fun _ => .of_word (by decide) (by decide) (noName_blank _)) hleft hright

theorem readBack_or (hleft : ReadBack .disjunction left) (hright : ReadBack .conjunction right) :
    ReadBack .disjunction (.logical .or left right) :=
  readBack_grouped rfl rfl (fun _ => constant_append (by decide) _ (noName_blank _))
    (fun _ => .of_word (by decide) (by decide) (noName_blank _)) hleft hright

/-! ## Predicates -/

theorem compareTail_fails (h : ∀ c ∈ ['<', '>', '=', '!'], c ∉ (skipBlanks text).head?) :
    Fails (compareTail expression e) text := by
  have hsign : ∀ {word : String} (op : CompareOp) (c : Char), word.toList.head? = some c →
      c ∈ ['<', '>', '=', '!'] → Fails (sign word op) text := by
    intro word op c hword hc
    refine (symbol_fails (fun hhead => h c hc (hhead.trans hword)) ?_).bind
    rintro rfl
    cases hword
  exact Fails.bind (Fails.orElse (hsign _ '>' rfl (by decide)) (Fails.orElse
    (hsign _ '<' rfl (by decide)) (Fails.orElse (hsign _ '<' rfl (by decide)) (Fails.orElse
      (hsign _ '!' rfl (by decide)) (Fails.orElse (hsign _ '=' rfl (by decide)) (Fails.orElse
        (hsign _ '>' rfl (by decide)) (hsign _ '<' rfl (by decide))))))))

/-- Where nothing goes on with a predicate, it is just its operand. -/
theorem readBack_predicate (h : ReadBack .sum e) : ReadBack .predicate e := by
  intro rest hrest
  have hsymbols : ∀ c ∈ ['<', '>', '=', '!'], c ∈ Level.symbols .predicate := by decide
  have hcompare : Fails (compareTail expression e) rest :=
    compareTail_fails fun c hc hhead => hrest.symbol c hhead (hsymbols c hc)
  have hnot : (keyword "not").present rest = .ok (false, rest) :=
    present_of_fails (hrest.keyword_fails (by decide) (by decide))
  have hfails : Fails (oneOf (inTail expression e) [compareTail expression e, isTail e,
      likeTail expression e, betweenTail expression e]) rest :=
    hcompare.orElse (Fails.orElse (hrest.keyword_fails (by decide) (by decide)).bind
      (Fails.orElse (Fails.after hnot (hrest.keyword_fails (by decide) (by decide)).bind)
        (Fails.orElse (Fails.after hnot (hrest.keyword_fails (by decide) (by decide)).bind)
          (Fails.after hnot (hrest.keyword_fails (by decide) (by decide)).bind))))
  exact bind_ok (h.read (hrest.tighten (by decide) (by decide))) <|
    bind_ok (optional_of_fails hfails) rfl

section Tests

variable {subject e : Expr} {text tail rest : List Char}

theorem predicate_of_test (hsubject : ReadBack .sum subject) (hfollow : Follow .sum tail)
    (htest : oneOf (inTail expression subject) [compareTail expression subject, isTail subject,
      likeTail expression subject, betweenTail expression subject] tail = .ok (e, rest)) :
    predicate expression (subject.text.toList ++ tail) = .ok (e, rest) :=
  bind_ok (hsubject.read hfollow) <| bind_ok (optional_of_ok htest) rfl

theorem readBack_compare {op : CompareOp} (hsubject : ReadBack .sum subject)
    (hright : ReadBack .sum right) : ReadBack .predicate (.compare op subject right) := by
  intro rest hrest
  have hfollow : Follow .sum (' ' :: (op.text.toList ++ ' ' :: (right.text.toList ++ rest))) :=
    follow_operator (by cases op <;> decide) (by cases op <;> decide) _
  show predicate expression ((subject.text ++ " " ++ op.text ++ " " ++ right.text).toList ++ rest) = _
  rw [toList_binary]
  exact predicate_of_test hsubject hfollow (orElse_of_ok (bind_ok (compareOp_append op _) <|
    bind_ok (hright.read_blank (hrest.tighten (by decide) (by decide))) rfl))

theorem compareTail_fails_of_word (h : nextWord text ≠ []) :
    Fails (compareTail expression subject) text := by
  have hname : ∀ c ∈ ['<', '>', '=', '!'], ¬ isNameChar c = true := by decide
  exact compareTail_fails fun c hc hhead => hname c hc (isNameChar_of_nextWord h hhead)

/-- The word of a test, behind its `not`. -/
theorem not_append (hword : Lower word ∧ word ≠ "not") (negated : Bool) (htail : NoName tail) :
    (keyword "not").present (' ' :: ((notText negated).toList ++ (word.toList ++ tail)))
      = .ok (negated, ' ' :: (word.toList ++ tail)) := by
  cases negated with
  | false =>
    have hnext : nextWord (' ' :: (word.toList ++ tail)) = word.toList := nextWord_word hword.1 htail
    exact present_of_fails (keyword_fails_of_word hnext (by decide) hword.2)
  | true =>
    exact present_of_ok (keyword_blank_then "not" (by decide) (word.toList ++ tail))

theorem nextWord_negated (hlower : Lower word) (negated : Bool) (htail : NoName tail) :
    nextWord (' ' :: ((notText negated).toList ++ (word.toList ++ tail)))
      = (if negated then "not" else word).toList := by
  cases negated with
  | false => exact nextWord_word hlower htail
  | true => exact nextWord_then "not" (by decide) (word.toList ++ tail)

/-- A word comes, perhaps with a `not` before it. -/
theorem follow_negated (hlower : Lower word) (negated : Bool) (htail : NoName tail) :
    Follow .sum (' ' :: ((notText negated).toList ++ (word.toList ++ tail))) := by
  cases negated with
  | false => exact .of_word hlower not_mem_nil htail
  | true =>
    have hfollow : Follow .sum (' ' :: ("not".toList ++ ' ' :: (word.toList ++ tail))) :=
      .of_word (by decide) (by decide) (noName_blank _)
    exact hfollow

/-- Behind `like`, `between` and `in`, no comparison and no `is` is read. -/
theorem predicate_of_word (hword : word ∈ ["like", "between", "in"])
    (hsubject : ReadBack .sum subject) (htail : NoName tail)
    (htest : oneOf (inTail expression subject) [likeTail expression subject,
      betweenTail expression subject] (' ' :: ((notText negated).toList ++ (word.toList ++ tail)))
        = .ok (e, rest)) :
    predicate expression (subject.text.toList
      ++ ' ' :: ((notText negated).toList ++ (word.toList ++ tail))) = .ok (e, rest) := by
  have hwords : ∀ word ∈ ["like", "between", "in"], Lower word
      ∧ ∀ negated : Bool, (if negated then "not" else word).toList ≠ "is".toList
        ∧ (if negated then "not" else word).toList ≠ [] := by decide
  obtain ⟨hlower, hclear⟩ := hwords word hword
  have hnext := nextWord_negated hlower negated htail
  have hcompare : Fails (compareTail expression subject)
      (' ' :: ((notText negated).toList ++ (word.toList ++ tail))) :=
    compareTail_fails_of_word (hnext ▸ (hclear negated).2)
  have his : Fails (isTail subject) (' ' :: ((notText negated).toList ++ (word.toList ++ tail))) :=
    (keyword_fails (by decide) (hnext ▸ (hclear negated).1)).bind
  exact predicate_of_test hsubject (follow_negated hlower negated htail)
    ((orElse_of_fails hcompare).trans ((orElse_of_fails his).trans htest))

/-- A test is not read for another word than its own. -/
theorem negated_fails {other : String} (hword : Lower word ∧ word ≠ "not")
    (hother : Lower other ∧ word ≠ other) (negated : Bool) (htail : NoName tail)
    (f : Bool → Unit → Reader α) :
    Fails (do let negated ← (keyword "not").present; keyword other >>= f negated)
      (' ' :: ((notText negated).toList ++ (word.toList ++ tail))) :=
  Fails.after (not_append hword negated htail)
    (keyword_fails_of_word (nextWord_word hword.1 htail) hother.1 hother.2).bind

theorem readBack_like {pattern : Expr} (hsubject : ReadBack .sum subject)
    (hpattern : ReadBack .sum pattern) :
    ReadBack .predicate (.like subject pattern none negated) := by
  intro rest hrest
  have htext : (like subject pattern none negated).text.toList ++ rest
      = subject.text.toList ++ ' ' :: ((notText negated).toList
        ++ ("like".toList ++ ' ' :: (pattern.text.toList ++ rest))) := by
    simp [text]
  have hescape : Fails (do keyword "escape"; sum expression) rest :=
    (hrest.keyword_fails (by decide) (by decide)).bind
  show predicate expression _ = _
  rw [htext]
  refine predicate_of_word (by decide) hsubject (noName_blank _) (orElse_of_ok ?_)
  exact bind_ok (not_append (by decide) negated (noName_blank _)) <|
    bind_ok (keyword_blank_then "like" (by decide) _) <|
    bind_ok (hpattern.read_blank (hrest.tighten (by decide) (by decide))) <|
    bind_ok (optional_of_fails hescape) rfl

theorem readBack_between {low high : Expr} (hsubject : ReadBack .sum subject)
    (hlow : ReadBack .sum low) (hhigh : ReadBack .sum high) :
    ReadBack .predicate (.between subject low high negated) := by
  intro rest hrest
  have htext : (between subject low high negated).text.toList ++ rest
      = subject.text.toList ++ ' ' :: ((notText negated).toList ++ ("between".toList
        ++ ' ' :: (low.text.toList ++ ' ' :: ("and".toList
          ++ ' ' :: (high.text.toList ++ rest))))) := by
    simp [text]
  have hand : Follow .sum (' ' :: ("and".toList ++ ' ' :: (high.text.toList ++ rest))) :=
    .of_word (by decide) (by decide) (noName_blank _)
  show predicate expression _ = _
  rw [htext]
  refine predicate_of_word (by decide) hsubject (noName_blank _) ?_
  refine (orElse_of_fails (negated_fails (by decide) (by decide) negated (noName_blank _) _)).trans
    (orElse_of_ok ?_)
  exact bind_ok (not_append (by decide) negated (noName_blank _)) <|
    bind_ok (keyword_blank_then "between" (by decide) _) <|
    bind_ok (hlow.read_blank hand) <|
    bind_ok (keyword_blank_then "and" (by decide) _) <|
    bind_ok (hhigh.read_blank (hrest.tighten (by decide) (by decide))) rfl

theorem readBack_inList {items : List Expr} (hsubject : ReadBack .sum subject) (hne : items ≠ [])
    (hitems : ∀ item ∈ items, ReadBack .disjunction item) :
    ReadBack .predicate (.inList subject items negated) := by
  intro rest hrest
  have htext : (inList subject items negated).text.toList ++ rest
      = subject.text.toList ++ ' ' :: ((notText negated).toList ++ ("in".toList
        ++ ' ' :: '(' :: ((texts items).toList ++ ')' :: rest))) := by
    simp [text]
  have hread : inItems expression (' ' :: '(' :: ((texts items).toList ++ ')' :: rest))
      = .ok (items, rest) := by
    obtain ⟨first, others, rfl⟩ := exists_cons_of_ne_nil hne
    exact orElse_of_ok (bind_ok (symbol_eq_ok.mpr rfl) <|
      bind_ok (sepBy1_expressions hitems rest) <| bind_ok (symbol_eq_ok.mpr rfl) rfl)
  show predicate expression _ = _
  rw [htext]
  refine predicate_of_word (by decide) hsubject (noName_blank _) ?_
  refine (orElse_of_fails (negated_fails (by decide) (by decide) negated (noName_blank _) _)).trans
    ((orElse_of_fails (negated_fails (by decide) (by decide) negated (noName_blank _) _)).trans ?_)
  exact bind_ok (not_append (by decide) negated (noName_blank _)) <|
    bind_ok (keyword_blank_then "in" (by decide) _) <| bind_ok hread rfl

/-- What is read behind `is` and its `not`. -/
theorem predicate_of_is (hword : Lower word ∧ word ≠ "not") (hsubject : ReadBack .sum subject)
    (hrest : NoName rest) (htest : orElse (constant "null" (.isNull subject negated))
      (constant "empty" (.isEmpty subject negated)) (' ' :: (word.toList ++ rest))
      = .ok (e, rest)) :
    predicate expression (subject.text.toList ++ ' ' :: ("is".toList
      ++ ' ' :: ((notText negated).toList ++ (word.toList ++ rest)))) = .ok (e, rest) := by
  have hne : nextWord (' ' :: ("is".toList
      ++ ' ' :: ((notText negated).toList ++ (word.toList ++ rest)))) ≠ [] := by
    rw [nextWord_cons_blank, nextWord_then "is" (by decide)]
    decide
  refine predicate_of_test hsubject (.of_word (by decide) (by decide) (noName_blank _)) ?_
  refine (orElse_of_fails (compareTail_fails_of_word hne)).trans (orElse_of_ok ?_)
  exact bind_ok (keyword_blank_then "is" (by decide) _) <|
    bind_ok (not_append hword negated hrest) htest

theorem readBack_isNull (hsubject : ReadBack .sum subject) :
    ReadBack .predicate (.isNull subject negated) := by
  intro rest hrest
  have htext : (isNull subject negated).text.toList ++ rest
      = subject.text.toList ++ ' ' :: ("is".toList
        ++ ' ' :: ((notText negated).toList ++ ("null".toList ++ rest))) := by
    simp [text]
  show predicate expression _ = _
  rw [htext]
  exact predicate_of_is (by decide) hsubject hrest.stops.noName
    (orElse_of_ok (constant_append (by decide) _ hrest.stops.noName))

theorem readBack_isEmpty (hsubject : ReadBack .sum subject) :
    ReadBack .predicate (.isEmpty subject negated) := by
  intro rest hrest
  have htext : (isEmpty subject negated).text.toList ++ rest
      = subject.text.toList ++ ' ' :: ("is".toList
        ++ ' ' :: ((notText negated).toList ++ ("empty".toList ++ rest))) := by
    simp [text]
  have hnull : Fails (constant "null" (isNull subject negated)) (' ' :: ("empty".toList ++ rest)) :=
    Fails.bind <| keyword_fails_of_word (nextWord_word (by decide) hrest.stops.noName)
      (by decide) (by decide)
  show predicate expression _ = _
  rw [htext]
  exact predicate_of_is (by decide) hsubject hrest.stops.noName
    ((orElse_of_fails hnull).trans (constant_append (by decide) _ hrest.stops.noName))

end Tests

/-! ## Negations -/

theorem readBack_negation (h : ReadBack .predicate e) : ReadBack .negation e := by
  intro rest hrest
  have hread : predicate expression (e.text.toList ++ rest) = .ok (e, rest) :=
    h.read (hrest.tighten (by decide) (by decide))
  have hnot : Fails (keyword "not") (e.text.toList ++ rest) := by
    refine keyword_fails (by decide) fun hnext => ?_
    have hblocked : "not" ∈ blockedWords := by decide
    have hne : nextWord (e.text.toList ++ rest) ≠ [] := by
      rw [hnext]
      decide
    refine ((NoOperand.of_word hblocked hnext).predicate_fails (fun hminus => ?_)
      expression).not_ok hread
    exact absurd (isNameChar_of_nextWord hne hminus) (by decide)
  exact (marked_of_fails hnot).trans hread

theorem readBack_not (h : ReadBack .negation inner) : ReadBack .negation (.not inner) := by
  intro rest hrest
  have htext : (not inner).text.toList ++ rest
      = "not".toList ++ ' ' :: (inner.text.toList ++ rest) := by
    simp [text]
  have hnot := keyword_then "not" (by decide) (inner.text.toList ++ rest)
  show negation expression _ = _
  rw [htext]
  exact marked_of_ok hnot (length_lt_of_keyword (by decide) hnot) (h.read_blank hrest)

/-! ## All expressions -/

/-- The printer keeps what reading has to know of the expression itself. -/
def Readable : Expr → Prop
  | .literal (.double x) => WrittenInFull x
  | .call function _ => IsAscii function.toList ∧ isReserved function = false
  | .like _ _ escape _ => escape = none
  | _ => True

/-- Every level reads its expressions back from their text. -/
theorem Grammar.Parsed.readBack (h : Parsed level e) (hreadable : ∀ part ∈ e.parts, Readable part) :
    ReadBack level e := by
  -- the parts of a subexpression are parts of the whole
  have hchild : ∀ {e child : Expr}, (∀ part ∈ e.parts, Readable part) → child ∈ e.children →
      ∀ part ∈ child.parts, Readable part :=
    fun hall hmem part hpart => hall part (mem_parts_of_mem_children hmem hpart)
  induction h with
  | @literal value h =>
    intro rest hrest
    refine operand_of_literal (literal_append h (fun x hx => ?_) hrest.stops)
    subst hx
    exact hreadable _ (mem_parts_self _)
  | named h => exact fun rest hrest => operand_of_parameter (parameter_append_named h hrest.stops)
  | ordinal h =>
    exact fun rest hrest => operand_of_parameter (parameter_append_ordinal h hrest.stops)
  | legacy => exact fun rest hrest => operand_of_parameter (parameter_append_legacy hrest.stops)
  | path hfirst hrest => exact readBack_path hfirst hrest
  | nested _ ih => exact readBack_nested (ih (hchild hreadable (.head _)))
  | everything => exact readBack_everything _
  | aggregate _ ih => exact readBack_aggregate (ih (hchild hreadable (.head _)))
  | call hfunction _ haggregate ih =>
    obtain ⟨hascii, hfree⟩ := hreadable _ (mem_parts_self _)
    exact readBack_call (isName_lowercase hfunction.1 hascii) hfree
      (lowerAscii_lowercase hascii) (lowercase_lowercase hascii)
      (fun argument hargument => ih argument hargument (hchild hreadable hargument)) haggregate
  | signed _ ih => exact readBack_signed (ih hreadable)
  | negativeInt hneg hmin => exact readBack_negativeInt hneg hmin
  | negativeDouble h => exact readBack_negativeDouble h (hreadable _ (mem_parts_self _))
  | negate _ hsign ih =>
    exact readBack_negate (ih (hchild hreadable (.head _))) hsign
  | product _ ih | sum _ ih | conjunction _ ih | disjunction _ ih =>
    exact fun rest hrest => leftGrouped_of_ok ((ih hreadable).read hrest)
  | multiply hop _ _ ihleft ihright =>
    exact readBack_multiply hop (ihleft (hchild hreadable (.head _)))
      (ihright (hchild hreadable (.tail _ (.head _))))
  | add hop _ _ ihleft ihright =>
    exact readBack_add hop (ihleft (hchild hreadable (.head _)))
      (ihright (hchild hreadable (.tail _ (.head _))))
  | predicate _ ih => exact readBack_predicate (ih hreadable)
  | compare _ _ ihleft ihright =>
    exact readBack_compare (ihleft (hchild hreadable (.head _)))
      (ihright (hchild hreadable (.tail _ (.head _))))
  | isNull _ ih => exact readBack_isNull (ih (hchild hreadable (.head _)))
  | isEmpty _ ih => exact readBack_isEmpty (ih (hchild hreadable (.head _)))
  | like _ _ _ ihsubject ihpattern _ =>
    obtain rfl : _ = none := hreadable _ (mem_parts_self _)
    exact readBack_like (ihsubject (hchild hreadable (.head _)))
      (ihpattern (hchild hreadable (by simp [children])))
  | between _ _ _ ihsubject ihlow ihhigh =>
    exact readBack_between (ihsubject (hchild hreadable (.head _)))
      (ihlow (hchild hreadable (by simp [children])))
      (ihhigh (hchild hreadable (by simp [children])))
  | inList _ hne _ ihsubject ihitems =>
    exact readBack_inList (ihsubject (hchild hreadable (.head _))) hne
      fun item hitem => ihitems item hitem (hchild hreadable (by simp [children, hitem]))
  | negation _ ih => exact readBack_negation (ih hreadable)
  | not _ ih => exact readBack_not (ih (hchild hreadable (.head _)))
  | and _ _ ihleft ihright =>
    exact readBack_and (ihleft (hchild hreadable (.head _)))
      (ihright (hchild hreadable (.tail _ (.head _))))
  | or _ _ ihleft ihright =>
    exact readBack_or (ihleft (hchild hreadable (.head _)))
      (ihright (hchild hreadable (.tail _ (.head _))))

end EntityQuery.Query
