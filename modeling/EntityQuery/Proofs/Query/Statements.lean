import EntityQuery.Proofs.Query.Clauses
import EntityQuery.Proofs.Query.ReadBack

/-!
# Statements read back

A statement is read back from its text (`parse_text`), if its expressions are.
Between the parts of a statement stand the words of its clauses, all of them
reserved, so that no part can go on into the next one: behind an expression none
of these words can be an operator, and behind a name none of them can be taken
for an alias. What comes ahead of the reader is `Ahead`: the end, a mark of
punctuation or one of a few words.

The clauses are taken one by one, each with what may come ahead of it.
-/

namespace EntityQuery.Query

open List Text SelectItem

open Reader Grammar Token

variable {word intro : String} {α : Type} {words : List String} {items : List SelectItem}

/-! ## What comes ahead -/

/-- The words that start a clause or a part of one. -/
def clauseWords : List String :=
  ["from", "where", "group", "having", "order", "join", "left", "with", "set", "as", "desc"]

theorem lower_of_mem_clauseWords : ∀ word ∈ clauseWords, Lower word := by decide

/-- The text is at its end, or goes on with one of some marks or words. -/
inductive Ahead (marks : List Char) (words : List String) : List Char → Prop
  | done : Ahead marks words []
  | mark {c : Char} (hc : c ∈ marks) (hclose : c ∈ [')', ',']) (tail : List Char) :
      Ahead marks words (c :: tail)
  | word {word : String} (hword : word ∈ words) (hclause : word ∈ clauseWords) {tail : List Char}
      (htail : NoName tail) : Ahead marks words (' ' :: (word.toList ++ tail))

namespace Ahead

variable {marks marks' : List Char} {words words' : List String} {rest tail : List Char}

theorem of_word (word : String) (hword : word ∈ words) (hclause : word ∈ clauseWords)
    (tail : List Char) : Ahead marks words (' ' :: (word.toList ++ ' ' :: tail)) :=
  .word hword hclause (noName_blank tail)

theorem weaken (h : Ahead marks words rest) (hmarks : ∀ c ∈ marks, c ∈ marks')
    (hwords : ∀ word ∈ words, word ∈ words') : Ahead marks' words' rest := by
  cases h with
  | done => exact .done
  | mark hc hclose tail => exact .mark (hmarks _ hc) hclose tail
  | word hword hclause htail => exact .word (hwords _ hword) hclause htail

theorem follow (h : Ahead marks words rest) (level : Level) : Follow level rest := by
  have hclear : ∀ word ∈ clauseWords, word ∉ level.words := by cases level <;> decide
  cases h with
  | done => exact .nil level
  | mark hc hclose tail => exact .close hclose level tail
  | word hword hclause htail =>
    exact .of_word (lower_of_mem_clauseWords _ hclause) (hclear _ hclause) htail

theorem stops (h : Ahead marks words rest) : Stops rest :=
  (h.follow .operand).stops

theorem noName (h : Ahead marks words rest) : NoName rest :=
  h.stops.noName

/-- The next word is one of those that can come, or there is none. -/
theorem nextWord_cases (h : Ahead marks words rest) :
    nextWord rest = [] ∨ ∃ word ∈ words, nextWord rest = word.toList := by
  cases h with
  | done => exact .inl rfl
  | mark hc hclose tail =>
    have hmark : ∀ c ∈ [')', ','], isBlank c = false ∧ isNameChar c = false := by decide
    obtain ⟨hblank, hname⟩ := hmark _ hclose
    exact .inl (nextWord_of_head (by rw [skipBlanks_cons hblank]; rfl) hname)
  | word hword hclause htail =>
    exact .inr ⟨_, hword, nextWord_word (lower_of_mem_clauseWords _ hclause) htail⟩

theorem keyword_fails (h : Ahead marks words rest) (hword : Lower word ∧ word ∉ words) :
    Fails (keyword word) rest := by
  obtain ⟨hlower, hword⟩ := hword
  rcases h.nextWord_cases with hnil | ⟨other, hother, hnext⟩
  · exact Token.keyword_fails hlower fun heq => hlower.1 (heq.symm.trans hnil)
  · exact keyword_fails_of_word hnext hlower fun heq => hword (heq ▸ hother)

theorem noOperand (h : Ahead marks words rest) : NoOperand rest := by
  have hblocked : ∀ word ∈ clauseWords, word ∈ blockedWords := by decide
  cases h with
  | done => exact ⟨nofun, .inl rfl⟩
  | mark hc hclose tail =>
    have hmark : ∀ c ∈ [')', ','], isBlank c = false ∧ isNameChar c = false
        ∧ c ∉ ['(', '\'', ':', '?'] ∧ c.isDigit = false := by decide
    obtain ⟨hblank, hname, hclear⟩ := hmark _ hclose
    exact .of_head (by rw [skipBlanks_cons hblank]; rfl) hclear hname
  | word hword hclause htail =>
    exact .of_word (hblocked _ hclause) (nextWord_word (lower_of_mem_clauseWords _ hclause) htail)

theorem aliasName_fails (h : Ahead marks words rest) (has : "as" ∉ words) :
    Fails aliasName rest := by
  have hkeyword : Fails (keyword "as") rest := h.keyword_fails ⟨by decide, has⟩
  exact Fails.after (optional_of_fails hkeyword)
    (Fails.after (blanks_eq rest) h.noOperand.freeName_fails)

theorem comma_fails (h : Ahead marks words rest) (hcomma : ',' ∉ marks) :
    Fails (symbol ",") rest := by
  cases h with
  | done => exact symbol_fails (show none ≠ some ',' by decide) (by decide)
  | @mark c hc hclose tail =>
    have hblank : ∀ c ∈ [')', ','], isBlank c = false := by decide
    refine symbol_fails (fun hhead => hcomma ?_) (by decide)
    rw [skipBlanks_cons (hblank c hclose)] at hhead
    have hsame : c = ',' := Option.some.inj hhead
    exact hsame ▸ hc
  | @word word hword hclause tail htail =>
    have hlower := lower_of_mem_clauseWords word hclause
    refine symbol_fails_of_nextWord ?_ rfl (by decide)
    rw [nextWord_cons_blank, nextWord_word hlower htail]
    exact hlower.1

theorem or_comma (h : Ahead marks words rest) (htail : tail = rest ∨ tail.head? = some ',') :
    Ahead (',' :: marks) words tail := by
  rcases htail with rfl | hcomma
  · exact h.weaken (fun c hc => .tail _ hc) fun word hword => hword
  · obtain ⟨more, rfl⟩ := head?_eq_some_iff.mp hcomma
    exact .mark (.head _) (by decide) more

theorem option (h : Ahead marks words rest) (intro word : String)
    (hintro : intro.toList = ' ' :: (word.toList ++ [' '])) (hclause : word ∈ clauseWords)
    (text : α → String) (part : Option α) :
    Ahead marks (word :: words) ((optionText intro text part).toList ++ rest) := by
  cases part with
  | none => exact h.weaken (fun c hc => hc) fun word hword => .tail _ hword
  | some a =>
    have htext : (optionText intro text (some a)).toList ++ rest
        = ' ' :: (word.toList ++ ' ' :: ((text a).toList ++ rest)) := by
      show (intro ++ text a).toList ++ rest = _
      rw [String.toList_append, hintro]
      simp
    rw [htext]
    exact .of_word _ (.head _) hclause _

theorem list (h : Ahead marks words rest) (intro word : String) {more : List Char}
    (hintro : intro.toList = ' ' :: (word.toList ++ ' ' :: more)) (hclause : word ∈ clauseWords)
    (text : α → String) (items : List α) :
    Ahead marks (word :: words) ((listClause intro text items).toList ++ rest) := by
  cases items with
  | nil => exact h.weaken (fun c hc => hc) fun word hword => .tail _ hword
  | cons item items =>
    have htext : (listClause intro text (item :: items)).toList ++ rest
        = ' ' :: (word.toList
          ++ ' ' :: (more ++ ((commaList ((item :: items).map text)).toList ++ rest))) := by
      show (intro ++ commaList ((item :: items).map text)).toList ++ rest = _
      rw [String.toList_append, hintro]
      simp
    rw [htext]
    exact .of_word _ (.head _) hclause _

end Ahead

/-! ## Names and conditions -/

section Parts

variable {marks : List Char} {words : List String} {rest : List Char}

theorem nextWord_name {name : String} (hname : IsName name) (hrest : NoName rest) :
    nextWord (name.toList ++ rest) = (lowerAscii name).toList := by
  have hread : Token.name (skipBlanks (name.toList ++ rest)) = .ok (name, rest) := by
    rw [hname.skipBlanks]
    exact name_append hname hrest
  exact nextWord_of_name hread

theorem keyword_fails_of_freeName {name : String} (hname : FreeName name)
    (hword : word ∈ reservedWords) (hrest : NoName rest) :
    Fails (keyword word) (name.toList ++ rest) := by
  have hlower : ∀ word ∈ reservedWords, Lower word := by decide
  refine Token.keyword_fails (hlower word hword) fun heq => ?_
  have hsame : lowerAscii name = word :=
    String.toList_inj.mp ((nextWord_name hname.1 hrest).symm.trans heq)
  have hfree := hname.2
  rw [isReserved_iff.mpr (hsame ▸ hword)] at hfree
  cases hfree

/-- No expression starts with a word that starts something else. -/
theorem keyword_fails_of_expression (hword : word ∈ blockedWords) (hnot : word ≠ "not")
    {text : List Char} {e : Expr} (h : expression text = .ok (e, rest)) :
    Fails (keyword word) text := by
  have hlower : ∀ word ∈ blockedWords, Lower word := by decide
  refine Token.keyword_fails (hlower word hword) fun hnext => ?_
  exact (NoStart.of_word hword hnot hnext).expression_fails.not_ok h

theorem toList_alias (name : String) (rest : List Char) :
    (optionText " " id (some name)).toList ++ rest = ' ' :: (name.toList ++ rest) := by
  simp [optionText]

theorem alias_append {name : Option String} (hname : ∀ word ∈ name, FreeName word)
    (hrest : Ahead marks words rest) (has : "as" ∉ words) :
    aliasName.optional ((optionText " " id name).toList ++ rest) = .ok (name, rest) := by
  cases name with
  | none => exact optional_of_fails (hrest.aliasName_fails has)
  | some word =>
    have hword := hname word rfl
    have hfails : Fails (keyword "as") (' ' :: (word.toList ++ rest)) :=
      (Blankless.keyword "as").fails.mpr (keyword_fails_of_freeName hword (by decide) hrest.noName)
    rw [toList_alias]
    refine optional_of_ok ?_
    unfold aliasName
    rw [bind_of_ok (optional_of_fails hfails), bind_of_ok (blanks_eq _), skipBlanks_cons_blank,
      hword.1.skipBlanks]
    exact freeName_append hword hrest.noName

theorem condition_append {lead : Reader Unit} {condition : Option Expr}
    (hcondition : ∀ e ∈ condition, ReadBack .disjunction e)
    (hlead : ∀ tail, lead (intro.toList ++ tail) = .ok ((), ' ' :: tail))
    (hrest : Ahead marks words rest) (hnone : Fails lead rest) :
    optional (do lead; expression) ((optionText intro Expr.text condition).toList ++ rest)
      = .ok (condition, rest) := by
  cases condition with
  | none => exact optional_of_fails hnone.bind
  | some e =>
    have htext : (optionText intro Expr.text (some e)).toList ++ rest
        = intro.toList ++ (e.text.toList ++ rest) := by
      simp [optionText]
    have hread : expression (' ' :: (e.text.toList ++ rest)) = .ok (e, rest) :=
      (@blankless_expression ..).mpr ((hcondition e rfl).expression (hrest.follow _))
    rw [htext]
    exact optional_of_ok (bind_ok (hlead _) hread)

/-- A keyword with blanks around it is taken with the first one. -/
theorem keyword_between (hintro : intro.toList = ' ' :: (word.toList ++ [' ']))
    (hlower : Lower word) (tail : List Char) :
    keyword word (intro.toList ++ tail) = .ok ((), ' ' :: tail) := by
  have htext : intro.toList ++ tail = ' ' :: (word.toList ++ ' ' :: tail) := by
    rw [hintro]
    simp
  rw [htext]
  exact keyword_blank_then word hlower tail

theorem expressionAfter_append {condition : Option Expr}
    (hintro : intro.toList = ' ' :: (word.toList ++ [' '])) (hword : Lower word ∧ word ∉ words)
    (hcondition : ∀ e ∈ condition, ReadBack .disjunction e) (hrest : Ahead marks words rest) :
    expressionAfter word ((optionText intro Expr.text condition).toList ++ rest)
      = .ok (condition, rest) :=
  condition_append hcondition (keyword_between hintro hword.1) hrest (hrest.keyword_fails hword)

end Parts

/-! ## From clauses -/

section Ranges

variable {rest : List Char}

/-- The words behind the ranges of a statement. -/
def rangeEnd : List String := ["where", "group", "having", "order"]

/-- The words behind a join. -/
def joinEnd : List String := "join" :: "left" :: rangeEnd

theorem stops_alias {marks : List Char} (name : Option String) (hrest : Ahead marks words rest) :
    Stops ((optionText " " id name).toList ++ rest) := by
  cases name with
  | none => exact hrest.stops
  | some word =>
    rw [toList_alias]
    exact stops_cons (by decide)

theorem joinKind_append (kind : JoinKind) (tail : List Char) :
    joinKind (' ' :: ((match kind with
      | .inner => "join "
      | .left => "left join ").toList ++ tail)) = .ok (kind, ' ' :: tail) := by
  have hfails : ∀ {word : String}, Lower word → "join" ≠ word →
      Fails (keyword word) (' ' :: ("join".toList ++ ' ' :: tail)) :=
    keyword_fails_of_word (nextWord_word (by decide) (noName_blank tail))
  unfold joinKind
  rw [oneOf_cons, oneOf_cons, oneOf_nil]
  cases kind with
  | inner =>
    refine (orElse_of_fails (hfails (by decide) (by decide)).bind).trans
      ((orElse_of_fails (hfails (by decide) (by decide)).bind).trans ?_)
    exact constant_append (by decide) _ (noName_blank tail)
  | left =>
    refine orElse_of_ok (bind_ok (keyword_blank_then "left" (by decide) _) <|
      bind_ok (optional_of_fails (hfails (by decide) (by decide))) ?_)
    exact constant_append (by decide) _ (noName_blank tail)

theorem joinKind_fails (hrest : Ahead [','] rangeEnd rest) : Fails joinKind rest := by
  have hleft : Fails (keyword "left") rest := hrest.keyword_fails (by decide)
  have hinner : Fails (keyword "inner") rest := hrest.keyword_fails (by decide)
  have hjoin : Fails (keyword "join") rest := hrest.keyword_fails (by decide)
  exact hleft.bind.orElse (hinner.bind.orElse hjoin.bind)

/-- The mark of a fetch is taken, and the blank before the path is left. -/
theorem fetch_append (fetch : Bool) {first : String} {others : List String}
    (hfirst : FreeName first) (hrest : NoName rest) :
    (keyword "fetch").present (' ' :: ((if fetch then "fetch " else "").toList
        ++ ((pathText (first :: others)).toList ++ rest)))
      = .ok (fetch, ' ' :: ((pathText (first :: others)).toList ++ rest)) := by
  cases fetch with
  | true =>
    exact present_of_ok (keyword_blank_then "fetch" (by decide) _)
  | false =>
    refine present_of_fails ((Blankless.keyword "fetch").fails.mpr ?_)
    show Fails _ ((pathText (first :: others)).toList ++ rest)
    rw [toList_pathText, append_assoc]
    exact keyword_fails_of_freeName hfirst (by decide) (noName_dotted others hrest)

theorem with_append (tail : List Char) :
    orElse (keyword "with") (keyword "on") (" with ".toList ++ tail) = .ok ((), ' ' :: tail) :=
  orElse_of_ok (keyword_between rfl (by decide) tail)

theorem join_append {join : Join} (h : join.WellFormed)
    (hexprs : ∀ e ∈ join.exprs, ReadBack .disjunction e) (hrest : Ahead [','] joinEnd rest) :
    Grammar.join (' ' :: (join.text.toList ++ rest)) = .ok (join, rest) := by
  obtain ⟨kind, fetch, path, name, condition⟩ := join
  obtain ⟨⟨first, others, rfl, hfirst, hothers⟩, hname, -⟩ := h
  have hcondition : ∀ e ∈ condition, ReadBack .disjunction e :=
    fun e he => hexprs e (Option.mem_toList.mpr he)
  have hwith := hrest.option " with " "with" rfl (by decide) Expr.text condition
  have halias := stops_alias name hwith
  have hon : Fails (orElse (keyword "with") (keyword "on")) rest :=
    (hrest.keyword_fails (by decide)).orElse (hrest.keyword_fails (by decide))
  simp only [Join.text, String.toList_append, append_assoc]
  exact bind_ok (joinKind_append kind _) <| bind_ok (fetch_append fetch hfirst halias.noName) <|
    bind_ok ((@blankless_path ..).mpr (path_append hfirst hothers halias)) <|
    bind_ok (alias_append hname hwith (by decide)) <|
    bind_ok (condition_append hcondition with_append hrest hon) rfl

def joinsText (joins : List Join) : List Char :=
  (String.join (joins.map fun join => " " ++ join.text)).toList

theorem joinsText_cons (join : Join) (joins : List Join) :
    joinsText (join :: joins) = ' ' :: (join.text.toList ++ joinsText joins) := by
  simp [joinsText, String.join_cons]

theorem ahead_joinsText (joins : List Join) (hrest : Ahead [','] rangeEnd rest) :
    Ahead [','] joinEnd (joinsText joins ++ rest) := by
  cases joins with
  | nil => exact hrest.weaken (fun c hc => hc) (by decide)
  | cons join joins =>
    obtain ⟨kind, fetch, path, name, condition⟩ := join
    rw [joinsText_cons]
    cases kind <;> simp only [Join.text, String.toList_append, append_assoc, cons_append]
    · exact .of_word "join" (by decide) (by decide) _
    · exact .of_word "left" (by decide) (by decide) _

theorem joins_append {joins : List Join} (h : ∀ join ∈ joins, join.WellFormed)
    (hexprs : ∀ join ∈ joins, ∀ e ∈ join.exprs, ReadBack .disjunction e)
    (hrest : Ahead [','] rangeEnd rest) :
    many Grammar.join (joinsText joins ++ rest) = .ok (joins, rest) := by
  refine many_eq_ok.mpr ?_
  induction joins with
  | nil => exact repeated_of_fails (joinKind_fails hrest).bind
  | cons join joins ih =>
    obtain ⟨hjoin, hjoins⟩ := forall_mem_cons.mp h
    obtain ⟨hexpr, hexprs⟩ := forall_mem_cons.mp hexprs
    have hread : Grammar.join (' ' :: (join.text.toList ++ (joinsText joins ++ rest)))
        = .ok (join, joinsText joins ++ rest) :=
      join_append hjoin hexpr (ahead_joinsText joins hrest)
    rw [joinsText_cons, cons_append, append_assoc]
    refine (repeated_of_ok hread ?_).trans (by rw [ih hjoins hexprs])
    simp only [length_cons, length_append]
    omega

theorem blankless_range : Blankless Grammar.range :=
  (Blankless.blanks _).bind _

theorem entity_append {entity : String} (hentity : IsEntity entity) (hrest : Stops rest) :
    entityName (entity.toList ++ rest) = .ok (entity, rest) := by
  obtain ⟨first, others, rfl, hsegments⟩ := hentity
  exact entityName_append hsegments hrest

theorem range_append {range : Range} (h : range.WellFormed)
    (hexprs : ∀ e ∈ range.exprs, ReadBack .disjunction e) (hrest : Ahead [','] rangeEnd rest) :
    Grammar.range (range.text.toList ++ rest) = .ok (range, rest) := by
  obtain ⟨entity, name, joins⟩ := range
  obtain ⟨hentity, hname, hjoins⟩ := h
  have hahead := ahead_joinsText joins hrest
  have hexprs : ∀ join ∈ joins, ∀ e ∈ join.exprs, ReadBack .disjunction e :=
    fun join hjoin e he => hexprs e (mem_flatMap.mpr ⟨join, hjoin, he⟩)
  simp only [Range.text, String.toList_append, append_assoc]
  exact bind_ok (entity_append hentity (stops_alias name hahead)) <|
    bind_ok (alias_append hname hahead (by decide)) <|
    bind_ok (joins_append hjoins hexprs hrest) rfl

theorem ranges_append {ranges : List Range} (hne : ranges ≠ [])
    (h : ∀ range ∈ ranges, range.WellFormed)
    (hexprs : ∀ e ∈ ranges.flatMap Range.exprs, ReadBack .disjunction e)
    (hrest : Ahead [] rangeEnd rest) :
    sepBy1 (symbol ",") Grammar.range (' ' :: ((commaList (ranges.map Range.text)).toList ++ rest))
      = .ok (ranges, rest) := by
  obtain ⟨first, others, rfl⟩ := exists_cons_of_ne_nil hne
  rw [toList_commaList, append_assoc]
  refine (@Blankless.bind _ _ _ blankless_range _ ..).mpr ?_
  refine sepBy1_append blankless_range (fun range hrange tail htail => ?_)
    (hrest.comma_fails (by decide))
  exact range_append (h range hrange)
    (fun e he => hexprs e (mem_flatMap.mpr ⟨range, hrange, he⟩)) (hrest.or_comma htail)

end Ranges

/-! ## Select clauses -/

section SelectClauses

variable {marks : List Char} {rest : List Char}

theorem selectItem_append {item : SelectItem} (h : item.WellFormed)
    (hexpr : ReadBack .disjunction item.expr) (hrest : Ahead marks ["from"] rest) :
    selectItem (item.text.toList ++ rest) = .ok (item, rest) := by
  obtain ⟨expr, name⟩ := item
  obtain ⟨-, hname⟩ := h
  have hahead := hrest.option " as " "as" rfl (by decide) id name
  have halias : optional (do keyword "as"; blanks; Token.name)
      ((optionText " as " id name).toList ++ rest) = .ok (name, rest) := by
    cases name with
    | none => exact optional_of_fails (hrest.keyword_fails (by decide)).bind
    | some word =>
      have htext : (optionText " as " id (some word)).toList ++ rest
          = " as ".toList ++ (word.toList ++ rest) := by
        simp [optionText]
      have hword := hname word rfl
      rw [htext]
      refine optional_of_ok ?_
      rw [bind_of_ok (keyword_between rfl (by decide) _), bind_of_ok (blanks_eq _), skipBlanks_cons_blank,
        hword.skipBlanks]
      exact name_append hword hrest.noName
  simp only [text, String.toList_append, append_assoc]
  exact bind_ok (hexpr.expression (hahead.follow _)) <| bind_ok halias rfl

theorem blankless_selectItem : Blankless selectItem :=
  blankless_expression.bind _

/-- The items of a select clause. A word that no expression starts with does not
come first. -/
theorem selectItems_append (hne : items ≠ []) (h : ∀ item ∈ items, item.WellFormed)
    (hexprs : ∀ item ∈ items, ReadBack .disjunction item.expr) (hrest : Ahead marks ["from"] rest)
    (hcomma : ',' ∉ marks) :
    selectItems ((commaList (items.map text)).toList ++ rest) = .ok (items, rest) := by
  obtain ⟨first, others, rfl⟩ := exists_cons_of_ne_nil hne
  rw [toList_commaList, append_assoc]
  refine sepBy1_append blankless_selectItem (fun item hitem tail htail => ?_)
    (hrest.comma_fails hcomma)
  exact selectItem_append (h item hitem) (hexprs item hitem) (hrest.or_comma htail)

theorem keyword_fails_of_selectItems (word : String) (hword : word ∈ blockedWords)
    (hnot : word ≠ "not") {text : List Char} (h : selectItems text = .ok (items, rest)) :
    Fails (keyword word) text := by
  obtain ⟨item, mid, hitem, -⟩ := bind_eq_ok.mp h
  obtain ⟨e, behind, hexpr, -⟩ := bind_eq_ok.mp hitem
  exact keyword_fails_of_expression hword hnot hexpr

theorem shape_append {target : Shape} (h : target.WellFormed) (rest : List Char) :
    shape (' ' :: (target.text.toList ++ '(' :: rest)) = .ok (target, '(' :: rest) := by
  have hparenthesis : NoName ('(' :: rest) := noName_cons (by decide)
  unfold shape
  rw [oneOf_cons, oneOf_cons, oneOf_nil]
  cases target with
  | map => exact orElse_of_ok (constant_append (by decide) _ hparenthesis)
  | list =>
    have hmap : Fails (constant "map" Shape.map) (' ' :: ("list".toList ++ '(' :: rest)) :=
      Fails.bind (keyword_fails_of_word (nextWord_word (by decide) hparenthesis) (by decide)
        (by decide))
    exact (orElse_of_fails hmap).trans (orElse_of_ok (constant_append (by decide) _ hparenthesis))
  | named text =>
    obtain ⟨first, others, rfl, hsegments, hmap, hlist⟩ := h
    have hfirst : IsName first := hsegments first (.head _)
    have hstops : Stops ('(' :: rest) := stops_cons (by decide)
    have hnext : nextWord (' ' :: ((pathText (first :: others)).toList ++ '(' :: rest))
        = (lowerAscii first).toList := by
      rw [nextWord_cons_blank, toList_pathText, append_assoc]
      exact nextWord_name hfirst (noName_dotted others hparenthesis)
    have hfails : ∀ {word : String} (value : Shape), Lower word → lowerAscii first ≠ word →
        Fails (constant word value) (' ' :: ((pathText (first :: others)).toList ++ '(' :: rest)) :=
      fun value hlower hne => (keyword_fails_of_word hnext hlower hne).bind
    refine (orElse_of_fails (hfails _ (by decide) hmap)).trans
      ((orElse_of_fails (hfails _ (by decide) hlist)).trans ?_)
    exact bind_ok ((@Blankless.blanks _ _ ..).mpr (entityName_append hsegments hstops)) rfl

theorem distinct_append (distinct : Bool) {tail : List Char} (h : Fails (keyword "distinct") tail) :
    (keyword "distinct").present (' ' :: ((if distinct then "distinct " else "").toList ++ tail))
      = .ok (distinct, ' ' :: tail) := by
  cases distinct with
  | true => exact present_of_ok (keyword_blank_then "distinct" (by decide) _)
  | false => exact present_of_fails ((Blankless.keyword "distinct").fails.mpr h)

theorem shapedItems_append {target : Shape} (h : target.WellFormed) (hne : items ≠ [])
    (hitems : ∀ item ∈ items, item.WellFormed)
    (hexprs : ∀ item ∈ items, ReadBack .disjunction item.expr) (rest : List Char) :
    shapedItems (' ' :: ("new ".toList ++ (target.text.toList
        ++ '(' :: ((commaList (items.map text)).toList ++ ')' :: rest))))
      = .ok ((some target, items), rest) := by
  have hclose : Ahead [')'] ["from"] (')' :: rest) := .mark (by decide) (by decide) rest
  exact bind_ok (keyword_blank_then "new" (by decide) _) <| bind_ok (shape_append h _) <| bind_ok (symbol_eq_ok.mpr rfl) <|
    bind_ok (selectItems_append hne hitems hexprs hclose (by decide)) <|
    bind_ok (symbol_eq_ok.mpr rfl) rfl

theorem selectClause_append {clause : SelectClause} (h : clause.WellFormed)
    (hexprs : ∀ e ∈ clause.exprs, ReadBack .disjunction e) (hrest : Ahead [] ["from"] rest) :
    selectClause (clause.text.toList ++ rest) = .ok (clause, rest) := by
  obtain ⟨distinct, target, items⟩ := clause
  obtain ⟨htarget, hne, hitems⟩ := h
  have hread : ∀ item ∈ items, ReadBack .disjunction item.expr :=
    fun item hitem => hexprs _ (mem_map_of_mem hitem)
  have hselect : ∀ tail : List Char, keyword "select" ("select ".toList ++ tail)
      = .ok ((), ' ' :: tail) :=
    keyword_then "select" (by decide)
  cases target with
  | none =>
    have hfound : selectItems ((commaList (items.map text)).toList ++ rest)
        = .ok (items, rest) := selectItems_append hne hitems hread hrest (by decide)
    have hdistinct := keyword_fails_of_selectItems "distinct" (by decide) (by decide) hfound
    have hnew := keyword_fails_of_selectItems "new" (by decide) (by decide) hfound
    have hshaped : Fails shapedItems (' ' :: ((commaList (items.map text)).toList ++ rest)) :=
      ((Blankless.keyword "new").fails.mpr hnew).bind
    simp only [SelectClause.text, String.toList_append, append_assoc]
    refine bind_eq_ok.mpr ⟨_, _, hselect _, bind_eq_ok.mpr ⟨_, _,
      distinct_append distinct hdistinct, bind_eq_ok.mpr ⟨(none, items), rest, ?_, rfl⟩⟩⟩
    refine (orElse_of_fails hshaped).trans (bind_eq_ok.mpr ⟨items, rest, ?_, rfl⟩)
    exact (@Blankless.bind _ _ _ blankless_selectItem _ ..).mpr hfound
  | some target =>
    have hdistinct : ∀ tail : List Char, Fails (keyword "distinct") ("new ".toList ++ tail) :=
      fun tail => keyword_fails_of_word (nextWord_then "new" (by decide) tail) (by decide) (by decide)
    simp only [SelectClause.text, String.toList_append, append_assoc]
    exact bind_eq_ok.mpr ⟨_, _, hselect _, bind_eq_ok.mpr ⟨_, _,
      distinct_append distinct (hdistinct _), bind_eq_ok.mpr ⟨_, _, orElse_of_ok
        (shapedItems_append (htarget target rfl) hne hitems hread rest), rfl⟩⟩⟩

end SelectClauses

/-! ## Statements -/

section Statements

variable {marks : List Char} {rest : List Char}

theorem orderItem_append {item : OrderItem} (hexpr : ReadBack .disjunction item.expr)
    (hrest : Ahead marks [] rest) : orderItem (item.text.toList ++ rest) = .ok (item, rest) := by
  obtain ⟨expr, descending⟩ := item
  have hasc : Fails (keyword "asc") rest := hrest.keyword_fails (by decide)
  have hdesc : Fails (keyword "desc") rest := hrest.keyword_fails (by decide)
  simp only [OrderItem.text, String.toList_append, append_assoc]
  cases descending with
  | false =>
    exact bind_ok (hexpr.expression (hrest.follow _)) <|
      bind_ok (optional_of_fails (hasc.bind.orElse hdesc.bind)) rfl
  | true =>
    have hahead : Ahead marks ["desc"] (' ' :: ("desc".toList ++ rest)) :=
      .word (by decide) (by decide) hrest.noName
    have hother : Fails (constant "asc" false) (' ' :: ("desc".toList ++ rest)) :=
      Fails.bind (keyword_fails_of_word (nextWord_word (by decide) hrest.noName) (by decide)
        (by decide))
    have hword : orElse (constant "asc" false) (constant "desc" true)
        (' ' :: ("desc".toList ++ rest)) = .ok (true, rest) :=
      (orElse_of_fails hother).trans (constant_append (by decide) _ hrest.noName)
    rw [if_pos rfl]
    exact bind_ok (hexpr.expression (hahead.follow _)) <| bind_ok (optional_of_ok hword) rfl

theorem listAfter_append {item : Reader α} {text : α → String} {items : List α}
    (hblank : Blankless item) (hintro : intro.toList = ' ' :: (word.toList ++ " by ".toList))
    (hword : Lower word ∧ word ∉ words) (hrest : Ahead [] words rest)
    (hitem : ∀ part ∈ items, ∀ tail, Ahead [','] words tail →
      item ((text part).toList ++ tail) = .ok (part, tail)) :
    listAfter word item ((listClause intro text items).toList ++ rest) = .ok (items, rest) := by
  cases items with
  | nil => exact bind_ok (optional_of_fails (hrest.keyword_fails hword).bind) rfl
  | cons first others =>
    have htext : (listClause intro text (first :: others)).toList ++ rest
        = ' ' :: (word.toList ++ ' ' :: ("by".toList
          ++ ' ' :: ((text first).toList ++ (listed text others ++ rest)))) := by
      show (intro ++ commaList ((first :: others).map text)).toList ++ rest = _
      rw [String.toList_append, hintro, toList_commaList]
      simp
    have hitems : sepBy1 (symbol ",") item
        (' ' :: ((text first).toList ++ (listed text others ++ rest)))
        = .ok (first :: others, rest) :=
      (@Blankless.bind _ _ _ hblank _ ..).mpr (sepBy1_append hblank
        (fun part hpart tail htail => hitem part hpart tail (hrest.or_comma htail))
        (hrest.comma_fails (by decide)))
    rw [htext]
    exact bind_ok (optional_of_ok (bind_ok (keyword_blank_then word hword.1 _) <|
      bind_ok (keyword_blank_then "by" (by decide) _) hitems)) rfl

/-- Behind the select clause, if there is one, the from clause starts. -/
theorem clause_append {clause : Option SelectClause} {tail : List Char}
    {next : Option SelectClause → Reader α} {value : α} (h : ∀ part ∈ clause, part.WellFormed)
    (hexprs : ∀ part ∈ clause, ∀ e ∈ part.exprs, ReadBack .disjunction e)
    (hnext : next clause (' ' :: tail) = .ok (value, rest)) :
    (do let clause ← selectClause.optional; keyword "from"; next clause : Reader α)
      ((optionText "" (fun clause => clause.text ++ " ") clause).toList ++ ("from ".toList ++ tail))
        = .ok (value, rest) := by
  cases clause with
  | none =>
    have hselect : Fails (keyword "select") ("from".toList ++ ' ' :: tail) :=
      keyword_fails_of_word (nextWord_then "from" (by decide) tail) (by decide) (by decide)
    exact bind_ok (optional_of_fails hselect.bind)
      (bind_ok (keyword_then "from" (by decide) tail) hnext)
  | some part =>
    have hahead : Ahead [] ["from"] (' ' :: ("from".toList ++ ' ' :: tail)) :=
      .of_word "from" (by decide) (by decide) tail
    have htext : (optionText "" (fun clause => clause.text ++ " ") (some part)).toList
        ++ ("from ".toList ++ tail)
        = part.text.toList ++ ' ' :: ("from".toList ++ ' ' :: tail) := by
      simp [optionText]
    rw [htext]
    exact bind_ok (optional_of_ok (selectClause_append (h part rfl) (hexprs part rfl) hahead))
      (bind_ok (keyword_blank_then "from" (by decide) tail) hnext)

theorem select_append {select : Select} (h : select.WellFormed)
    (hexprs : ∀ e ∈ select.exprs, ReadBack .disjunction e) (hrest : Ahead [] [] rest) :
    Grammar.select (select.text.toList ++ rest) = .ok (select, rest) := by
  obtain ⟨clause, ranges, condition, groupBy, having, orderBy⟩ := select
  obtain ⟨hclause, hne, hranges, -, -, -, -⟩ := h
  simp only [Select.exprs, mem_append, Option.mem_toList, mem_map] at hexprs
  have horder := hrest.list " order by " "order" rfl (by decide) OrderItem.text orderBy
  have hhaving := horder.option " having " "having" rfl (by decide) Expr.text having
  have hgroup := hhaving.list " group by " "group" rfl (by decide) Expr.text groupBy
  have hwhere := hgroup.option " where " "where" rfl (by decide) Expr.text condition
  have hclauses : ∀ part ∈ clause, ∀ e ∈ part.exprs, ReadBack .disjunction e := by
    intro part hpart e he
    have hmem : e ∈ clause.toList.flatMap SelectClause.exprs :=
      mem_flatMap.mpr ⟨part, Option.mem_toList.mpr hpart, he⟩
    exact hexprs e (by tauto)
  simp only [Select.text, String.toList_append, append_assoc]
  exact clause_append hclause hclauses <|
    bind_ok (ranges_append hne hranges (fun e he => hexprs e (by tauto)) hwhere) <|
    bind_ok (expressionAfter_append rfl (by decide) (fun e he => hexprs e (by tauto)) hgroup) <|
    bind_ok (listAfter_append blankless_expression rfl (by decide) hhaving
      (fun e he tail htail => (hexprs e (by tauto)).expression (htail.follow _))) <|
    bind_ok (expressionAfter_append rfl (by decide) (fun e he => hexprs e (by tauto)) horder) <|
    bind_ok (listAfter_append (blankless_expression.bind _) rfl (by decide) hrest
      (fun item hitem tail htail =>
        orderItem_append (hexprs item.expr (.inr ⟨item, hitem, rfl⟩)) htail)) rfl

theorem blankless_assignment : Blankless assignment :=
  blankless_path.bind _

theorem assignment_append {part : Assignment} (hpath : IsPath part.path)
    (hvalue : ReadBack .disjunction part.value) (hrest : Ahead marks words rest) :
    assignment (part.text.toList ++ rest) = .ok (part, rest) := by
  obtain ⟨path, value⟩ := part
  obtain ⟨first, others, rfl, hfirst, hothers⟩ := hpath
  have hstops : Stops (' ' :: '=' :: ' ' :: (value.text.toList ++ rest)) := stops_cons (by decide)
  have htext : (Assignment.text ⟨first :: others, value⟩).toList ++ rest
      = (pathText (first :: others)).toList ++ ' ' :: '=' :: ' ' :: (value.text.toList ++ rest) := by
    simp [Assignment.text]
  rw [htext]
  exact bind_ok (path_append hfirst hothers hstops) <| bind_ok (symbol_eq_ok.mpr rfl) <|
    bind_ok ((@blankless_expression ..).mpr (hvalue.expression (hrest.follow _))) rfl

theorem update_append {update : Update} (h : update.WellFormed)
    (hexprs : ∀ e ∈ update.exprs, ReadBack .disjunction e) (hrest : Ahead [] [] rest) :
    Grammar.update (update.text.toList ++ rest) = .ok (update, rest) := by
  obtain ⟨entity, name, assignments, condition⟩ := update
  obtain ⟨hentity, hname, hne, hassignments, -⟩ := h
  simp only [Update.exprs, mem_append, Option.mem_toList, mem_map] at hexprs
  obtain ⟨first, others, rfl⟩ := exists_cons_of_ne_nil hne
  have hwhere := hrest.option " where " "where" rfl (by decide) Expr.text condition
  have hset : ∀ tail : List Char, Ahead [] ["set"] (" set ".toList ++ tail) :=
    .of_word "set" (by decide) (by decide)
  have hupdate : ∀ tail : List Char, keyword "update" ("update ".toList ++ tail)
      = .ok ((), ' ' :: tail) :=
    keyword_then "update" (by decide)
  simp only [Update.text, String.toList_append, toList_commaList, append_assoc]
  exact bind_ok (hupdate _) <|
    bind_ok ((@Blankless.blanks _ _ ..).mpr (entity_append hentity (stops_alias name (hset _)))) <|
    bind_ok (alias_append hname (hset _) (by decide)) <|
    bind_ok (keyword_between rfl (by decide) _) <|
    bind_ok ((@Blankless.bind _ _ _ blankless_assignment _ ..).mpr
      (sepBy1_append blankless_assignment
      (fun part hpart tail htail => assignment_append (hassignments part hpart).1
      (hexprs part.value (.inl ⟨part, hpart, rfl⟩)) (hwhere.or_comma htail))
      (hwhere.comma_fails (by decide)))) <|
    bind_ok (expressionAfter_append rfl (by decide) (fun e he => hexprs e (.inr he)) hrest) rfl

theorem delete_append {delete : Delete} (h : delete.WellFormed)
    (hexprs : ∀ e ∈ delete.exprs, ReadBack .disjunction e) (hrest : Ahead [] [] rest) :
    Grammar.delete (delete.text.toList ++ rest) = .ok (delete, rest) := by
  obtain ⟨entity, name, condition⟩ := delete
  obtain ⟨hentity, hname, -⟩ := h
  have hcondition : ∀ e ∈ condition, ReadBack .disjunction e :=
    fun e he => hexprs e (Option.mem_toList.mpr he)
  have hwhere := hrest.option " where " "where" rfl (by decide) Expr.text condition
  have hdelete : ∀ tail : List Char, keyword "delete" ("delete from ".toList ++ tail)
      = .ok ((), " from ".toList ++ tail) :=
    fun tail => keyword_then "delete" (by decide) ("from ".toList ++ tail)
  simp only [Delete.text, String.toList_append, append_assoc]
  exact bind_ok (hdelete _) <|
    bind_ok (optional_of_ok (keyword_between rfl (by decide) _)) <|
    bind_ok ((@Blankless.blanks _ _ ..).mpr (entity_append hentity (stops_alias name hwhere))) <|
    bind_ok (alias_append hname hwhere (by decide)) <|
    bind_ok (expressionAfter_append rfl (by decide) hcondition hrest) rfl

theorem statement_append {statement : Statement} (h : statement.WellFormed)
    (hexprs : ∀ e ∈ statement.exprs, ReadBack .disjunction e) (hrest : Ahead [] [] rest) :
    Grammar.statement (statement.text.toList ++ rest) = .ok (statement, rest) := by
  unfold Grammar.statement
  rw [oneOf_cons, oneOf_cons, oneOf_nil]
  cases statement with
  | update part =>
    exact orElse_of_ok (bind_ok (update_append h hexprs hrest) rfl)
  | delete part =>
    have hread := delete_append h hexprs hrest
    have hupdate : Fails (keyword "update") (part.text.toList ++ rest) := by
      obtain ⟨_, mid, hdelete, -⟩ := bind_eq_ok.mp hread
      exact keyword_fails_of_word ((keyword_eq_ok (by decide)).mp hdelete).1 (by decide) (by decide)
    exact (orElse_of_fails hupdate.bind.bind).trans (orElse_of_ok (bind_ok hread rfl))
  | select part =>
    have hread := select_append h hexprs hrest
    -- the first word is one of the two that start a select
    have hword : nextWord (part.text.toList ++ rest) = "select".toList
        ∨ nextWord (part.text.toList ++ rest) = "from".toList := by
      obtain ⟨clause, mid, hclause, hread⟩ := bind_eq_ok.mp hread
      rcases optional_eq_ok hclause with ⟨found, -, hfound⟩ | ⟨-, rfl, -⟩
      · obtain ⟨_, start, hselect, -⟩ := bind_eq_ok.mp hfound
        exact .inl ((keyword_eq_ok (by decide)).mp hselect).1
      · obtain ⟨_, start, hfrom, -⟩ := bind_eq_ok.mp hread
        exact .inr ((keyword_eq_ok (by decide)).mp hfrom).1
    have hfails : ∀ {word : String}, Lower word → "select" ≠ word → "from" ≠ word →
        Fails (keyword word) (part.text.toList ++ rest) := by
      intro word hlower hselect hfrom
      rcases hword with hword | hword
      · exact keyword_fails_of_word hword hlower hselect
      · exact keyword_fails_of_word hword hlower hfrom
    exact (orElse_of_fails (hfails (by decide) (by decide) (by decide)).bind.bind).trans
      ((orElse_of_fails (hfails (by decide) (by decide) (by decide)).bind.bind).trans
        (bind_ok hread rfl))

end Statements

/-- A statement is read back from its text, if its expressions are. -/
theorem parse_text {statement : Statement} (h : statement.WellFormed)
    (hexprs : ∀ e ∈ statement.exprs, ReadBack .disjunction e) :
    parse statement.text = .ok statement := by
  have hread := statement_append h hexprs .done
  rw [append_nil] at hread
  unfold parse
  dsimp only
  rw [hread]
  rfl

end EntityQuery.Query
