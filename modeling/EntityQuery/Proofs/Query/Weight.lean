import EntityQuery.Proofs.Number.Plain
import EntityQuery.Proofs.Query.Tree

/-!
# The weight of a tree

The printer loses two things: the `escape` of a `like`, and the call of a
function whose name is reserved, for what is printed cannot be read as a call.
To tell a tree that has lost something from one that has not, both are weighed.

Some characters are heavy, a Kelvin sign and the letter `p`, and a tree weighs
as much as the heavy characters of its text and one for each thing that the
printer loses. The text that the tree was read from is at least as heavy: an
escape is read behind the word `escape`, which has a `p` in it, and the name of
a call gets reserved only through a Kelvin sign in it, which is lost when the
name is put into lower case. But if a tree was read from its own text, then
nothing can have been lost.
-/

namespace EntityQuery.Query

open List Text Expr

open Grammar

/-! ## Heavy characters -/

def isHeavy (c : Char) : Bool :=
  c == kelvin || c == 'p' || c == 'P'

def heft (text : List Char) : Nat :=
  text.countP isHeavy

theorem heft_nil : heft [] = 0 := rfl

theorem heft_append (text more : List Char) : heft (text ++ more) = heft text + heft more :=
  countP_append

theorem heft_toList_append (text more : String) :
    heft (text ++ more).toList = heft text.toList + heft more.toList := by
  rw [String.toList_append, heft_append]

theorem heft_le_of_suffix {text rest : List Char} (h : rest <:+ text) : heft rest ≤ heft text :=
  h.sublist.countP_le

theorem heft_cons (c : Char) (text : List Char) :
    heft (c :: text) = heft text + (isHeavy c).toNat := by
  unfold heft
  rw [countP_cons]
  cases isHeavy c <;> rfl

theorem heft_eq_zero {text : List Char} (h : ∀ c ∈ text, isHeavy c = false) : heft text = 0 :=
  countP_eq_zero.mpr fun c hc => by rw [h c hc]; exact Bool.false_ne_true

theorem heft_of_numeric {text : List Char} (h : Numeric text) : heft text = 0 := by
  refine heft_eq_zero fun c hc => ?_
  by_contra hheavy
  simp only [isHeavy, Bool.not_eq_false, Bool.or_eq_true, beq_iff_eq] at hheavy
  rcases hheavy with (rfl | rfl) | rfl <;> exact absurd (h _ hc) (by decide)

theorem heft_intercalate {separator : String} (h : heft separator.toList = 0) :
    ∀ texts : List String, heft (separator.intercalate texts).toList
      = (texts.map fun text => heft text.toList).sum
  | [] => rfl
  | [text] => by simp
  | text :: next :: rest => by
    have hrest := heft_intercalate h (next :: rest)
    rw [String.intercalate_cons_cons, heft_toList_append, heft_toList_append, h, hrest,
      map_cons (l := next :: rest), sum_cons, Nat.add_zero]

theorem heft_pathText (segments : List String) :
    heft (pathText segments).toList = (segments.map fun segment => heft segment.toList).sum :=
  heft_intercalate (by decide) segments

theorem heft_quoted (text : String) : heft (quoted text).toList = heft text.toList := by
  have hdouble : ∀ chars : List Char, heft (doubleQuotes chars) = heft chars := by
    intro chars
    induction chars with
    | nil => rfl
    | cons c rest ih =>
      unfold doubleQuotes
      split
      · rename_i hc
        subst hc
        rw [heft_cons, heft_cons, heft_cons, ih]
        rfl
      · rw [heft_cons, heft_cons, ih]
  have hquote : heft "'".toList = 0 := by decide
  unfold quoted
  rw [heft_toList_append, heft_toList_append, hquote, String.toList_ofList, hdouble]
  omega

/-- A letter is as heavy as its small form. -/
theorem heft_map_toLower (text : List Char) : heft (text.map Char.toLower) = heft text := by
  have hlower : ∀ c : Char, isHeavy c.toLower = isHeavy c := by
    intro c
    by_cases hc : c.toNat < 0x80
    · exact of_ascii (P := fun c => isHeavy c.toLower = isHeavy c) (by decide) hc
    · rw [toLower_of_not_ascii hc]
  unfold heft
  rw [countP_map]
  exact countP_congr fun c _ => by rw [Function.comp_apply, hlower]

/-- Of the heavy characters of a name, the Kelvin signs are lost in lower case. -/
theorem heft_lowercase (word : String) :
    heft (lowercase word).toList + word.toList.count kelvin ≤ heft word.toList := by
  have hchar : ∀ c : Char, heft (lowerChar c) + (c == kelvin).toNat
      ≤ (isHeavy c).toNat := by
    intro c
    by_cases hascii : c.toNat < 0x80
    · rw [lowerChar_of_ascii hascii]
      exact of_ascii (P := fun c => heft [c.toLower] + (c == kelvin).toNat
        ≤ (isHeavy c).toNat) (by decide) hascii
    · by_cases hkelvin : c = kelvin
      · subst hkelvin
        rw [lowerChar_kelvin]
        decide
      · rw [heft_eq_zero fun d hd => ?_, beq_false_of_ne hkelvin]
        · exact Nat.zero_le _
        · by_contra hheavy
          simp only [isHeavy, Bool.not_eq_false, Bool.or_eq_true, beq_iff_eq] at hheavy
          rcases hheavy with (rfl | rfl) | rfl
          · exact kelvin_notMem_lowerChar c hd
          all_goals
            rcases ascii_of_mem_lowerChar hd (by decide) with h | h | h
            · exact hascii h
            · exact hkelvin h
            · exact absurd h (by decide)
  have hrun : ∀ chars before : List Char, heft (lowerAfter before chars)
      + chars.count kelvin ≤ heft chars := by
    intro chars
    induction chars with
    | nil => exact fun _ => Nat.le_refl _
    | cons c rest ih =>
      intro before
      have hhead : heft (if c == 'Σ' then [lowerSigma before rest] else lowerChar c)
          + (c == kelvin).toNat ≤ (isHeavy c).toNat := by
        split
        · rename_i hsigma
          obtain rfl := beq_iff_eq.mp hsigma
          unfold lowerSigma
          split <;> decide
        · exact hchar c
      have hcount : (c :: rest).count kelvin
          = rest.count kelvin + (c == kelvin).toNat := by
        rw [count_cons]
        cases c == kelvin <;> rfl
      have hrest := ih (c :: before)
      unfold lowerAfter
      rw [heft_append, heft_cons, hcount]
      omega
  unfold lowercase
  rw [String.toList_ofList]
  exact hrun word.toList []

/-! ## Weights -/

/-- The characters of an expression that its own text has, apart from words that
weigh nothing. -/
def Expr.given : Expr → List Char
  | .literal value => value.text.toList
  | .named name => name.toList
  | .path segments => (pathText segments).toList
  | .isEmpty _ _ => "empty".toList
  | .call function _ => function.toList
  | _ => []

/-- Printing loses something of the expression itself. -/
def Expr.isLossy : Expr → Bool
  | .like _ _ escape _ => escape.isSome
  | .call function _ => isReserved function
  | _ => false

/-- The heavy characters of the text, and what printing loses. -/
def Expr.weight (e : Expr) : Nat :=
  heft e.text.toList + e.parts.countP isLossy

theorem heft_texts : ∀ items : List Expr, heft (texts items).toList
    = (items.map fun item => heft item.text.toList).sum
  | [] => rfl
  | [item] => by simp [texts]
  | item :: next :: rest => by
    have hcomma : heft ", ".toList = 0 := by decide
    have hrest := heft_texts (next :: rest)
    rw [texts, heft_toList_append, heft_toList_append, hcomma, hrest,
      map_cons (l := next :: rest), sum_cons, Nat.add_zero]
    exact fun h => nomatch h

/-- The text is made of the characters of names and constants and of the texts
of the expressions in it; the other words weigh nothing. -/
theorem Expr.heft_text_le (e : Expr) : heft e.text.toList
    ≤ heft e.given + (e.children.map fun child => heft child.text.toList).sum := by
  have hnot : ∀ negated, heft (notText negated).toList = 0 := by decide
  cases e with
  | ordinal position =>
    have hplain : heft (toString position).toList = 0 := heft_of_numeric (.ofNat position)
    have hmark : heft "?".toList = 0 := by decide
    rw [text, heft_toList_append, hmark, hplain]
    exact Nat.zero_le _
  | logical op left right | compare op left right | arithmetic op left right =>
    have hop : heft op.text.toList = 0 := by cases op <;> decide
    simp [text, given, children, heft_append, heft_cons, heft_nil, isHeavy, kelvin, hop]
  | aggregate function distinct argument =>
    have hfunction : heft function.text.toList = 0 := by cases function <;> decide
    cases argument <;> cases distinct <;>
      simp [text, given, children, heft_append, heft_cons, heft_nil, isHeavy, kelvin, hfunction]
  | _ =>
    simp [text, given, children, heft_append, heft_cons, heft_nil, isHeavy,
      kelvin, hnot, heft_texts]

/-- An expression weighs no more than its names and constants, what printing
loses of itself, and the expressions that it is made of. -/
theorem Expr.weight_le (e : Expr) : e.weight
    ≤ heft e.given + e.isLossy.toNat + (e.children.map weight).sum := by
  have hparts : e.parts.countP isLossy = e.isLossy.toNat
      + (e.children.map fun child => child.parts.countP isLossy).sum := by
    rw [parts_eq, countP_cons, countP_flatMap]
    cases e.isLossy <;> simp [Function.comp_def, Nat.add_comm]
  have hsum : (e.children.map weight).sum
      = (e.children.map fun child => heft child.text.toList).sum
        + (e.children.map fun child => child.parts.countP isLossy).sum :=
    sum_map_add
  have htext := e.heft_text_le
  unfold weight at hsum ⊢
  omega

theorem Expr.weight_le_children {e : Expr} (hgiven : e.given = []) (hlossy : e.isLossy = false) :
    e.weight ≤ (e.children.map weight).sum := by
  have hle := e.weight_le
  rw [hgiven, hlossy, Bool.toNat_false] at hle
  simpa [heft] using hle

end EntityQuery.Query
