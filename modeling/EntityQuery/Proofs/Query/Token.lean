import EntityQuery.Proofs.Text.Case
import EntityQuery.Proofs.Text.Reader
import EntityQuery.Query.Grammar
import Mathlib.Data.List.Forall2
import Mathlib.Data.List.TakeWhile

/-!
# Tokens

What the tokens of the query language do on a text. A keyword is there exactly
if it is the next word (`keyword_eq_ok`), where the next word is read as far as
it goes and in lower case, and a symbol exactly if the text goes on with it
behind its blanks (`symbol_eq_ok`). So to show that a token is not there, it is
enough to know the next word and the next character.

Tokens do not mind a blank in front of them, and neither does a reader that
starts with one (`Blankless`).
-/

namespace EntityQuery.Query

open List Text

open Reader
open Text (skipBlanks isBlank)

namespace Token

variable {c : Char} {text rest taken : List Char} {word : String}

/-! ## Characters -/

/-- The text does not go on with a character of a name. -/
def NoName (text : List Char) : Prop :=
  ∀ c ∈ text.head?, isNameChar c = false

theorem noName_nil : NoName [] := nofun

theorem noName_cons (h : isNameChar c = false) : NoName (c :: text) := by
  intro d hd
  obtain rfl := Option.some.inj hd
  exact h

theorem noName_blank (text : List Char) : NoName (' ' :: text) :=
  noName_cons (by decide)

theorem isNameChar_of_isNameStart (h : isNameStart c) : isNameChar c = true := by
  unfold isNameStart at h
  unfold isNameChar isAlphanumeric
  rcases Bool.or_eq_true_iff.mp h with h | h <;> simp [h]

theorem isBlank_of_isNameChar (h : isNameChar c) : isBlank c = false := by
  by_cases hblank : isBlank c = true
  · simp only [isBlank, Bool.or_eq_true, beq_iff_eq] at hblank
    rcases hblank with ((rfl | rfl) | rfl) | rfl <;> exact absurd h (by decide)
  · simpa using hblank

theorem isNameStart_of_isDigit (h : c.isDigit) : isNameStart c = false := by
  exact of_ascii (P := fun c => c.isDigit = true → isNameStart c = false) (by decide)
    (ascii_of_isDigit h) h

/-! ## Blanks -/

theorem skipBlanks_cons_blank (text : List Char) : skipBlanks (' ' :: text) = skipBlanks text :=
  rfl

theorem skipBlanks_of_head (h : ∀ c ∈ text.head?, isBlank c = false) : skipBlanks text = text := by
  cases text with
  | nil => rfl
  | cons c rest =>
    unfold skipBlanks
    rw [dropWhile_cons_of_neg]
    rw [h c rfl]
    exact Bool.false_ne_true

theorem skipBlanks_cons (h : isBlank c = false) : skipBlanks (c :: text) = c :: text := by
  refine skipBlanks_of_head fun d hd => ?_
  obtain rfl := Option.some.inj hd
  exact h

theorem blanks_eq (text : List Char) : blanks text = .ok ((), skipBlanks text) := rfl

theorem skipBlanks_suffix (text : List Char) : skipBlanks text <:+ text :=
  dropWhile_suffix isBlank

/-- A reader that does not mind a blank in front. -/
def Blankless {α : Type} (p : Reader α) : Prop :=
  ∀ ⦃text : List Char⦄ ⦃a : α⦄ ⦃rest : List Char⦄,
    p (' ' :: text) = .ok (a, rest) ↔ p text = .ok (a, rest)

namespace Blankless

variable {α β : Type} {p q : Reader α}

theorem fails (h : Blankless p) : Fails p (' ' :: text) ↔ Fails p text :=
  ⟨fun hfails => fails_of_not_ok fun _ _ hok => hfails.not_ok ((@h _ _ _).mpr hok),
    fun hfails => fails_of_not_ok fun _ _ hok => hfails.not_ok ((@h _ _ _).mp hok)⟩

theorem bind (h : Blankless p) (f : α → Reader β) : Blankless (p >>= f) := by
  intro text b rest
  rw [bind_eq_ok, bind_eq_ok]
  exact exists_congr fun a => exists_congr fun mid => and_congr_left fun _ => @h ..

theorem orElse (h : Blankless p) (h' : Blankless q) : Blankless (p.orElse q) := by
  intro text a rest
  rw [orElse_eq_ok, orElse_eq_ok, h, h', h.fails]

theorem blanks (f : Unit → Reader β) : Blankless (Token.blanks >>= f) :=
  fun _ _ _ => Iff.rfl

theorem symbol (word : String) : Blankless (symbol word) := blanks _

theorem keyword (word : String) : Blankless (keyword word) := blanks _

theorem marked {mark : Reader Unit} (hmark : Blankless mark)
    (hshort : ∀ text rest, mark text = .ok ((), rest) → rest.length < text.length)
    (change : α → α) (h : Blankless p) : Blankless (marked mark change p) := by
  intro text a rest
  rw [Reader.marked, Reader.marked]
  rcases fails_or_ok mark text with hfails | ⟨⟨⟩, mid, hok⟩
  · obtain ⟨place', hplace'⟩ := hmark.fails.mpr hfails
    obtain ⟨place, hplace⟩ := hfails
    rw [hplace, hplace']
    exact @h ..
  · have hlt := hshort text mid hok
    rw [hok, (@hmark ..).mpr hok]
    simp only [hlt, Nat.lt_succ_of_lt hlt, length_cons, if_true]
    rcases fails_or_ok (Reader.marked mark change p) mid with ⟨place, hplace⟩ | ⟨b, after, hb⟩
    · rw [hplace]
      exact @h ..
    · rw [hb]

end Blankless

/-! ## Symbols -/

theorem afterWord?_eq_some {same : Char → Char → Bool} {word : List Char} :
    afterWord? same word text = some rest
      ↔ ∃ taken, text = taken ++ rest ∧ List.Forall₂ (fun c d => same c d = true) word taken := by
  induction word generalizing text with
  | nil =>
    simp only [afterWord?, Option.some.injEq, forall₂_nil_left_iff]
    constructor
    · rintro rfl
      exact ⟨[], rfl, rfl⟩
    · rintro ⟨_, rfl, rfl⟩
      rfl
  | cons c word ih =>
    cases text with
    | nil =>
      simp only [afterWord?]
      constructor
      · intro h
        cases h
      · rintro ⟨taken, htext, htaken⟩
        cases htaken
        cases htext
    | cons d text =>
      simp only [afterWord?]
      by_cases hsame : same c d = true
      · rw [if_pos hsame, ih]
        constructor
        · rintro ⟨taken, rfl, htaken⟩
          exact ⟨d :: taken, rfl, .cons hsame htaken⟩
        · rintro ⟨taken, htext, htaken⟩
          cases htaken with
          | cons hhead htail =>
            obtain ⟨rfl, rfl⟩ := List.cons.inj htext
            exact ⟨_, rfl, htail⟩
      · rw [if_neg hsame]
        constructor
        · intro h
          cases h
        · rintro ⟨taken, htext, htaken⟩
          cases htaken with
          | cons hhead htail =>
            obtain ⟨rfl, rfl⟩ := List.cons.inj htext
            exact (hsame hhead).elim

theorem exactly_eq_ok : exactly word text = .ok ((), rest) ↔ text = word.toList ++ rest := by
  have hword : ∀ {taken : List Char},
      List.Forall₂ (fun c d => (c == d) = true) word.toList taken ↔ taken = word.toList := by
    intro taken
    simp only [beq_iff_eq]
    rw [forall₂_eq_eq_eq]
    exact eq_comm
  unfold exactly
  constructor
  · intro h
    split at h
    · rename_i found hfound
      obtain ⟨taken, rfl, htaken⟩ := afterWord?_eq_some.mp hfound
      obtain rfl := hword.mp htaken
      cases h
      rfl
    · cases h
  · rintro rfl
    rw [afterWord?_eq_some.mpr ⟨word.toList, rfl, hword.mpr rfl⟩]

theorem symbol_eq_ok : symbol word text = .ok ((), rest) ↔ skipBlanks text = word.toList ++ rest :=
  exactly_eq_ok

theorem exactly_fails (h : text.head? ≠ word.toList.head?) (hword : word ≠ "") :
    Fails (exactly word) text := by
  refine fails_of_not_ok fun _ rest hok => h ?_
  rw [exactly_eq_ok.mp hok]
  cases hchars : word.toList with
  | nil => exact (hword (String.toList_eq_nil_iff.mp hchars)).elim
  | cons c tail => rfl

theorem symbol_fails (h : (skipBlanks text).head? ≠ word.toList.head?) (hword : word ≠ "") :
    Fails (symbol word) text :=
  exactly_fails h hword

theorem length_lt_of_symbol (hword : word ≠ "") (h : symbol word text = .ok ((), rest)) :
    rest.length < text.length := by
  have hle := length_of_symbol h
  have hpos : 0 < word.toList.length := by
    rw [length_pos_iff]
    exact fun hnil => hword (String.toList_eq_nil_iff.mp hnil)
  omega

/-! ## Keywords -/

/-- A word in small ASCII letters. -/
def Lower (word : String) : Prop :=
  word.toList ≠ [] ∧ ∀ c ∈ word.toList, c.isLower = true

instance (word : String) : Decidable (Lower word) :=
  inferInstanceAs (Decidable (_ ∧ _))

/-- The word that a text starts with behind its blanks, in lower case. -/
def nextWord (text : List Char) : List Char :=
  ((skipBlanks text).takeWhile isNameChar).map Char.toLower

theorem isNameChar_of_toLower (h : c.toLower.isLower) : isNameChar c = true := by
  exact of_ascii (P := fun c => c.toLower.isLower = true → isNameChar c = true) (by decide)
    (ascii_of_toLower (ascii_of_isLower h)) h

theorem takeWhile_of_noName (htaken : ∀ c ∈ taken, isNameChar c = true) (hrest : NoName rest) :
    (taken ++ rest).takeWhile isNameChar = taken := by
  rw [takeWhile_append_of_pos htaken]
  cases rest with
  | nil => simp
  | cons c rest =>
    rw [takeWhile_cons_of_neg, append_nil]
    rw [hrest c rfl]
    exact Bool.false_ne_true

theorem dropWhile_of_noName (htaken : ∀ c ∈ taken, isNameChar c = true) (hrest : NoName rest) :
    (taken ++ rest).dropWhile isNameChar = rest := by
  rw [dropWhile_append_of_pos htaken]
  cases rest with
  | nil => rfl
  | cons c rest =>
    rw [dropWhile_cons_of_neg]
    rw [hrest c rfl]
    exact Bool.false_ne_true

theorem noName_dropWhile (text : List Char) : NoName (text.dropWhile isNameChar) := by
  intro c hc
  have hnot := head?_dropWhile_not isNameChar text
  rw [Option.mem_def.mp hc] at hnot
  simpa using hnot

theorem inAnyCase_eq_ok :
    inAnyCase word text = .ok ((), rest)
      ↔ ∃ taken, text = taken ++ rest ∧ taken.map Char.toLower = word.toList := by
  have hword : ∀ {word taken : List Char},
      List.Forall₂ (fun c d => (c == d.toLower) = true) word taken
        ↔ taken.map Char.toLower = word := by
    intro word taken
    simp only [beq_iff_eq]
    rw [← forall₂_map_right_iff, forall₂_eq_eq_eq]
    exact eq_comm
  unfold inAnyCase
  constructor
  · intro h
    split at h
    · rename_i found hfound
      obtain ⟨taken, rfl, htaken⟩ := afterWord?_eq_some.mp hfound
      cases h
      exact ⟨taken, rfl, hword.mp htaken⟩
    · cases h
  · rintro ⟨taken, rfl, htaken⟩
    rw [afterWord?_eq_some.mpr ⟨taken, rfl, hword.mpr htaken⟩]

theorem notNext_eq_ok : notNext isNameChar text = .ok ((), rest) ↔ rest = text ∧ NoName text := by
  cases text with
  | nil => exact ⟨fun h => by cases h; exact ⟨rfl, noName_nil⟩, fun h => by rw [h.1]; rfl⟩
  | cons c text =>
    unfold notNext
    by_cases hc : isNameChar c = true
    · simp only [hc, if_true]
      constructor
      · exact nofun
      · rintro ⟨-, h⟩
        rw [h c rfl] at hc
        cases hc
    · simp only [hc]
      constructor
      · intro h
        cases h
        exact ⟨rfl, noName_cons (by simpa using hc)⟩
      · rintro ⟨rfl, -⟩
        rfl

theorem keyword_eq_ok (hword : Lower word) :
    keyword word text = .ok ((), rest)
      ↔ nextWord text = word.toList ∧ rest = (skipBlanks text).dropWhile isNameChar := by
  constructor
  · intro h
    obtain ⟨⟨⟩, start, hstart, h⟩ := bind_eq_ok.mp h
    obtain rfl : start = skipBlanks text := (Prod.mk.inj (Except.ok.inj hstart)).2.symm
    obtain ⟨⟨⟩, mid, hmid, h⟩ := bind_eq_ok.mp h
    obtain ⟨taken, htext, htaken⟩ := inAnyCase_eq_ok.mp hmid
    obtain ⟨rfl, hnext⟩ := notNext_eq_ok.mp h
    have hname : ∀ c ∈ taken, isNameChar c = true := by
      intro c hc
      refine isNameChar_of_toLower (hword.2 _ ?_)
      rw [← htaken]
      exact mem_map_of_mem hc
    unfold nextWord
    rw [htext, takeWhile_of_noName hname hnext, dropWhile_of_noName hname hnext]
    exact ⟨htaken, rfl⟩
  · rintro ⟨hnext, rfl⟩
    refine bind_eq_ok.mpr ⟨(), skipBlanks text, rfl,
      bind_eq_ok.mpr ⟨(), (skipBlanks text).dropWhile isNameChar, ?_, ?_⟩⟩
    · exact inAnyCase_eq_ok.mpr ⟨_, takeWhile_append_dropWhile.symm, hnext⟩
    · exact notNext_eq_ok.mpr ⟨rfl, noName_dropWhile _⟩

theorem keyword_fails (hword : Lower word) (h : nextWord text ≠ word.toList) :
    Fails (keyword word) text :=
  fails_of_not_ok fun _ _ hok => h ((keyword_eq_ok hword).mp hok).1

theorem nextWord_cons_blank (text : List Char) : nextWord (' ' :: text) = nextWord text := rfl

theorem skipBlanks_append (htaken : ∀ c ∈ taken, isNameChar c = true) (hne : taken ≠ [])
    (rest : List Char) : skipBlanks (taken ++ rest) = taken ++ rest := by
  cases taken with
  | nil => exact (hne rfl).elim
  | cons c taken => exact skipBlanks_cons (isBlank_of_isNameChar (htaken c (.head _)))

theorem nextWord_append (htaken : ∀ c ∈ taken, isNameChar c = true) (hne : taken ≠ [])
    (hrest : NoName rest) : nextWord (taken ++ rest) = taken.map Char.toLower := by
  unfold nextWord
  rw [skipBlanks_append htaken hne, takeWhile_of_noName htaken hrest]

/-- Before a character that is in no name there is no word. -/
theorem nextWord_eq_nil (h : NoName (skipBlanks text)) : nextWord text = [] := by
  unfold nextWord
  have htake := takeWhile_of_noName (forall_mem_nil _) h
  rw [nil_append] at htake
  rw [htake]
  rfl

theorem nextWord_of_head (h : (skipBlanks text).head? = some c) (hname : isNameChar c = false) :
    nextWord text = [] := by
  refine nextWord_eq_nil fun d hd => ?_
  obtain rfl := Option.some.inj (h.symm.trans hd)
  exact hname

theorem isNameChar_of_isLower (h : c.isLower) : isNameChar c = true := by
  exact of_ascii (P := fun c => c.isLower = true → isNameChar c = true) (by decide)
    (ascii_of_isLower h) h

theorem map_toLower_of_lower (hword : Lower word) : word.toList.map Char.toLower = word.toList := by
  conv_rhs => rw [← map_id word.toList]
  refine map_congr_left fun c hc => ?_
  have hlower := hword.2 c hc
  exact of_ascii (P := fun c => c.isLower = true → c.toLower = c) (by decide)
    (ascii_of_isLower hlower) hlower

theorem Lower.isNameChar (hword : Lower word) : ∀ c ∈ word.toList, isNameChar c = true :=
  fun c hc => isNameChar_of_isLower (hword.2 c hc)

theorem nextWord_word (hword : Lower word) (hrest : NoName rest) :
    nextWord (word.toList ++ rest) = word.toList := by
  rw [nextWord_append hword.isNameChar hword.1 hrest, map_toLower_of_lower hword]

theorem keyword_append (hword : Lower word) (hrest : NoName rest) :
    keyword word (word.toList ++ rest) = .ok ((), rest) := by
  refine (keyword_eq_ok hword).mpr ⟨nextWord_word hword hrest, ?_⟩
  rw [skipBlanks_append hword.isNameChar hword.1, dropWhile_of_noName hword.isNameChar hrest]

/-- Another word comes. -/
theorem keyword_fails_of_word {other : String} (hnext : nextWord text = other.toList)
    (hword : Lower word) (hne : other ≠ word) : Fails (keyword word) text :=
  keyword_fails hword fun heq => hne (String.toList_inj.mp (hnext.symm.trans heq))

theorem length_lt_of_keyword (hword : word ≠ "") (h : keyword word text = .ok ((), rest)) :
    rest.length < text.length := by
  have hle := length_of_keyword h
  have hpos : 0 < word.toList.length := by
    rw [length_pos_iff]
    exact fun hnil => hword (String.toList_eq_nil_iff.mp hnil)
  omega

/-! ## Names -/

/-- A letter or underscore, then letters, numerals and underscores. -/
def IsName (word : String) : Prop :=
  ∃ first rest, word.toList = first :: rest ∧ isNameStart first = true
    ∧ ∀ c ∈ rest, isNameChar c = true

theorem IsName.isNameChar (h : IsName word) : ∀ c ∈ word.toList, isNameChar c = true := by
  obtain ⟨first, rest, hword, hfirst, hrest⟩ := h
  rw [hword]
  exact forall_mem_cons.mpr ⟨isNameChar_of_isNameStart hfirst, hrest⟩

theorem IsName.ne_nil (h : IsName word) : word.toList ≠ [] := by
  obtain ⟨first, rest, hword, -⟩ := h
  rw [hword]
  exact cons_ne_nil _ _

theorem IsName.skipBlanks (h : IsName word) (rest : List Char) :
    skipBlanks (word.toList ++ rest) = word.toList ++ rest := by
  obtain ⟨first, tail, hword, hfirst, -⟩ := h
  rw [hword]
  exact skipBlanks_cons (isBlank_of_isNameChar (isNameChar_of_isNameStart hfirst))

theorem name_of_ok (h : name text = .ok (word, rest)) :
    IsName word ∧ text = word.toList ++ rest ∧ NoName rest := by
  obtain ⟨first, mid, hfirst, h⟩ := bind_eq_ok.mp h
  obtain ⟨tail, rest', htail, h⟩ := bind_eq_ok.mp h
  obtain ⟨rfl, rfl⟩ := pure_eq_ok.mp h
  unfold char at hfirst
  cases text with
  | nil => cases hfirst
  | cons c text =>
    simp only at hfirst
    split at hfirst
    · rename_i hc
      obtain ⟨rfl, rfl⟩ := Prod.mk.inj (Except.ok.inj hfirst)
      obtain ⟨rfl, rfl⟩ := Prod.mk.inj (Except.ok.inj htail)
      refine ⟨⟨c, _, String.toList_ofList, hc, ?_⟩, ?_, noName_dropWhile _⟩
      · intro d hd
        exact mem_takeWhile_imp hd
      · rw [String.toList_ofList, cons_append, takeWhile_append_dropWhile]
    · cases hfirst

theorem name_append (h : IsName word) (hrest : NoName rest) :
    name (word.toList ++ rest) = .ok (word, rest) := by
  obtain ⟨first, tail, hword, hfirst, htail⟩ := h
  rw [hword]
  refine bind_eq_ok.mpr ⟨first, tail ++ rest, if_pos hfirst, bind_eq_ok.mpr ⟨tail, rest, ?_, ?_⟩⟩
  · show Except.ok ((tail ++ rest).takeWhile isNameChar, (tail ++ rest).dropWhile isNameChar) = _
    rw [takeWhile_of_noName htail hrest, dropWhile_of_noName htail hrest]
  · refine pure_eq_ok.mpr ⟨?_, rfl⟩
    rw [← hword, String.ofList_toList]

/-! ## Digits -/

theorem digits_of_ok {run : List Char} (h : digits text = .ok (run, rest)) :
    run ≠ [] ∧ (∀ c ∈ run, c.isDigit = true) ∧ text = run ++ rest := by
  obtain ⟨hrun, hne⟩ := check_eq_ok.mp h
  obtain ⟨rfl, rfl⟩ := Prod.mk.inj (Except.ok.inj hrun)
  refine ⟨?_, fun c hc => mem_takeWhile_imp hc, takeWhile_append_dropWhile.symm⟩
  rintro hnil
  rw [hnil] at hne
  cases hne

end Token

end EntityQuery.Query
