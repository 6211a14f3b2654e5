import EntityQuery.Proofs.Query.Leaves

/-!
# Behind an expression

An expression is read back from its text, whatever comes behind it, as long as
that cannot go on with the expression. This is `Follow`, which looks at the next
character and at the next word; the printer puts a blank between the words and
symbols of a text, so that they are always known.

Where operators group to the left, the reader takes operand after operand. What
it does behind its first operand is `Level.resume`, and an expression is read
back by its level (`ReadBack`) if, behind the text of the expression, the level
resumes with it. Where the expression ends, there is nothing to resume with, and
the expression itself is what is read (`ReadBack.read`).
-/

namespace EntityQuery.Query

open Reader Grammar Token

variable {c : Char} {word : String} {level : Level} {rest : List Char} {e : Expr}

/-! ## What may follow -/

namespace Grammar

/-- The characters that go on with an expression of a level. -/
def Level.symbols : Level → List Char
  | .operand | .signed => ['(']
  | .product => ['(', '*', '/', '%']
  | .sum => ['(', '*', '/', '%', '+', '-', '|']
  | _ => ['(', '*', '/', '%', '+', '-', '|', '=', '<', '>', '!']

/-- The words that go on with an expression of a level. -/
def Level.words : Level → List String
  | .operand | .signed | .product | .sum => []
  | .predicate | .negation => ["is", "not", "like", "between", "in", "escape"]
  | .conjunction => ["is", "not", "like", "between", "in", "escape", "and"]
  | .disjunction => ["is", "not", "like", "between", "in", "escape", "and", "or"]

end Grammar

/-- The text cannot go on with an expression of the level before it. -/
structure Follow (level : Level) (rest : List Char) : Prop where
  stops : Stops rest
  symbol : ∀ c ∈ (Text.skipBlanks rest).head?, c ∉ level.symbols
  word : ∀ word ∈ level.words, nextWord rest ≠ word.toList

namespace Follow

variable {level tighter : Level} {rest : List Char}

theorem tighten (h : Follow level rest) (hsymbols : ∀ c ∈ tighter.symbols, c ∈ level.symbols)
    (hwords : ∀ word ∈ tighter.words, word ∈ level.words) : Follow tighter rest :=
  ⟨h.stops, fun c hc hmem => h.symbol c hc (hsymbols c hmem),
    fun word hword => h.word word (hwords word hword)⟩

theorem nil (level : Level) : Follow level [] := by
  have hwords : ∀ word ∈ level.words, [] ≠ word.toList := by cases level <;> decide
  exact ⟨stops_nil, nofun, hwords⟩

theorem close (hc : c ∈ [')', ','] ) (level : Level) (rest : List Char) :
    Follow level (c :: rest) := by
  have hclear : ∀ c ∈ [')', ','], c ∈ [' ', '(', ')', ','] ∧ Text.isBlank c = false
      ∧ isNameChar c = false ∧ c ∉ level.symbols := by
    cases level <;> decide
  obtain ⟨hstop, hblank, hname, hsymbol⟩ := hclear c hc
  have hskip : Text.skipBlanks (c :: rest) = c :: rest := skipBlanks_cons hblank
  have hnext : nextWord (c :: rest) = [] := nextWord_eq_nil (by rw [hskip]; exact noName_cons hname)
  have hwords : ∀ word ∈ level.words, [] ≠ word.toList := by cases level <;> decide
  refine ⟨stops_cons hstop, fun d hd => ?_, fun word hword => ?_⟩
  · rw [hskip] at hd
    obtain rfl := Option.some.inj hd
    exact hsymbol
  · rw [hnext]
    exact hwords word hword

theorem of_word (hlower : Lower word) (hword : word ∉ level.words)
    {tail : List Char} (htail : NoName tail) : Follow level (' ' :: (word.toList ++ tail)) := by
  have hnext : nextWord (' ' :: (word.toList ++ tail)) = word.toList := nextWord_word hlower htail
  have hclear : ∀ c ∈ level.symbols, isNameChar c = false := by cases level <;> decide
  refine ⟨stops_cons (by decide), fun c hc hmem => ?_, fun other hother heq => hword ?_⟩
  · have hname := isNameChar_of_nextWord (by rw [hnext]; exact hlower.1) hc
    rw [hclear c hmem] at hname
    cases hname
  · rw [String.toList_inj.mp (hnext.symm.trans heq)]
    exact hother

theorem of_symbol (hc : c ∉ level.symbols) (hblank : Text.isBlank c = false)
    (hname : isNameChar c = false) (tail : List Char) : Follow level (' ' :: c :: tail) := by
  have hskip : Text.skipBlanks (' ' :: c :: tail) = c :: tail := skipBlanks_cons hblank
  have hnext : nextWord (' ' :: c :: tail) = [] :=
    nextWord_eq_nil (by rw [hskip]; exact noName_cons hname)
  have hwords : ∀ word ∈ level.words, [] ≠ word.toList := by cases level <;> decide
  refine ⟨stops_cons (by decide), fun d hd => ?_, fun word hword => ?_⟩
  · rw [hskip] at hd
    obtain rfl := Option.some.inj hd
    exact hc
  · rw [hnext]
    exact hwords word hword

theorem symbol_fails (h : Follow level rest) (hword : word.toList.head? = some c)
    (hc : c ∈ level.symbols) : Fails (Token.symbol word) rest := by
  refine Token.symbol_fails (fun hhead => ?_) (fun hnil => ?_)
  · exact h.symbol c (hhead.trans hword) hc
  · rw [hnil] at hword
    cases hword

theorem keyword_fails (h : Follow level rest) (hlower : Lower word) (hword : word ∈ level.words) :
    Fails (keyword word) rest :=
  Token.keyword_fails hlower (h.word word hword)

end Follow

/-! ## Reading on behind an operand -/

namespace Grammar

section Regroup

variable {ω : Type} {operator : Reader ω} {p : Reader Expr} {join : ω → Expr → Expr → Expr}
  {left right : Expr} {op : ω} {text mid rest : List Char}

/-- What is left to do of `leftGrouped` behind its first operand. -/
def regroup (operator : Reader ω) (p : Reader Expr) (join : ω → Expr → Expr → Expr)
    (first : Expr) : Reader Expr := do
  let rest ← many do
    let op ← operator
    return (op, ← p)
  return rest.foldl (fun left (op, right) => join op left right) first

theorem leftGrouped_of_ok (h : p text = .ok (left, rest)) :
    leftGrouped operator p join text = regroup operator p join left rest :=
  bind_of_ok h

theorem regroup_of_fails (h : Fails operator rest) :
    regroup operator p join left rest = .ok (left, rest) :=
  bind_of_ok (many_eq_ok.mpr (repeated_of_fails h.bind))

theorem regroup_step (hop : operator text = .ok (op, mid)) (hright : p mid = .ok (right, rest))
    (hlt : rest.length < text.length) :
    regroup operator p join left text = regroup operator p join (join op left right) rest := by
  have hpair : (do let op ← operator; return (op, ← p)) text = .ok ((op, right), rest) :=
    bind_ok hop <| bind_ok hright rfl
  unfold regroup
  rw [bind_of_ok (many_eq_ok.mpr (repeated_of_ok hpair hlt))]
  rfl

end Regroup

def multiplying : Reader ArithmeticOp :=
  oneOf (sign "%" .mod) [sign "*" .mul, sign "/" .div]

def adding : Reader ArithmeticOp :=
  oneOf (sign "-" .sub) [sign "||" .concat, sign "+" .add]

/-- What a level does behind its first operand, if its operators group to the
left. -/
def Level.resume : Level → Expr → Reader Expr
  | .product => regroup multiplying (Grammar.signed expression) .arithmetic
  | .sum => regroup adding (Grammar.product expression) .arithmetic
  | .conjunction => regroup (constant "and" .and) (Grammar.negation expression) .logical
  | .disjunction => regroup (constant "or" .or) (Grammar.conjunction expression) .logical
  | _ => pure

/-- The level of the operands, if operators group to the left. -/
def Level.inner : Level → Level
  | .product => .signed
  | .sum => .product
  | .conjunction => .negation
  | .disjunction => .conjunction
  | level => level

theorem resume_of_follow (h : Follow level rest) (e : Expr) :
    level.resume e rest = .ok (e, rest) := by
  have hsign : ∀ {ω : Type} {word : String} (value : ω) (c : Char), word.toList.head? = some c →
      c ∈ level.symbols → Fails (sign word value) rest :=
    fun value c hword hc => (h.symbol_fails hword hc).bind
  cases level with
  | product =>
    exact regroup_of_fails (Fails.orElse (hsign _ '*' rfl (by decide))
      (Fails.orElse (hsign _ '/' rfl (by decide)) (hsign _ '%' rfl (by decide))))
  | sum =>
    exact regroup_of_fails (Fails.orElse (hsign _ '|' rfl (by decide))
      (Fails.orElse (hsign _ '+' rfl (by decide)) (hsign _ '-' rfl (by decide))))
  | conjunction | disjunction =>
    exact regroup_of_fails (h.keyword_fails (by decide) (by decide)).bind
  | _ => rfl

end Grammar

/-- Behind the text of the expression, the level goes on with the expression. -/
def ReadBack (level : Level) (e : Expr) : Prop :=
  ∀ rest, Follow level.inner rest → level.reader (e.text.toList ++ rest) = level.resume e rest

theorem ReadBack.read (h : ReadBack level e) (hrest : Follow level rest) :
    level.reader (e.text.toList ++ rest) = .ok (e, rest) := by
  have hinner : Follow level.inner rest := by
    cases level <;> exact hrest.tighten (by decide) (by decide)
  rw [h rest hinner, resume_of_follow hrest]

/-- The blank between a word or an operator and an expression does not matter. -/
theorem ReadBack.read_blank (h : ReadBack level e) (hrest : Follow level rest) :
    level.reader (' ' :: (e.text.toList ++ rest)) = .ok (e, rest) :=
  (@Level.blankless level ..).mpr (h.read hrest)

theorem ReadBack.expression (h : ReadBack .disjunction e) (hrest : Follow .disjunction rest) :
    Grammar.expression (e.text.toList ++ rest) = .ok (e, rest) := by
  rw [← reader_disjunction]
  exact h.read hrest

end EntityQuery.Query
