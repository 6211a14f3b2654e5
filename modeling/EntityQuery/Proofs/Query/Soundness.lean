import EntityQuery.Proofs.Number.Double
import EntityQuery.Proofs.Query.Weight

/-!
# What is read

Every level of the grammar gives only trees of that level, and the tree weighs
no more than the text that was taken (`sound_expression`).
Each reader has one statement, from the tokens up to whole expressions; the
nested expressions are those that are read from less text.

A level is given a reader of nested expressions, and two of them that do the
same on shorter texts will do: behind an opening parenthesis there is less text
than before it. So an expression is read with itself as the reader of nested
expressions (`expression_eq`), which the definition says only for shorter texts.
-/

namespace EntityQuery.Query

open List Option Text Expr

open Reader Grammar Token

/-! ## Sound readers -/

section Readers

variable {α β : Type}

/-- What was read has a property, and weighs no more than what was taken. -/
structure Taken (P : α → Prop) (w : α → Nat) (text : List Char) (a : α) (rest : List Char) :
    Prop where
  suffix : rest <:+ text
  holds : P a
  weighs : w a + heft rest ≤ heft text

/-- The readers do the same on a text, and what they read there is `Taken`. -/
def SoundAt (P : α → Prop) (w : α → Nat) (p q : Reader α) (text : List Char) : Prop :=
  p text = q text ∧ ∀ ⦃a rest⦄, q text = .ok (a, rest) → Taken P w text a rest

/-- The readers do the same on all texts below a length. -/
def Sound (n : Nat) (p q : Reader α) (P : α → Prop) (w : α → Nat) : Prop :=
  ∀ text, text.length < n → SoundAt P w p q text

/-- Nothing is said of what is read. -/
def Light (p : Reader α) : Prop :=
  ∀ n, Sound n p p (fun _ => True) fun _ => 0

variable {n m : Nat} {p q r s : Reader α} {f g : α → Reader β} {P : α → Prop} {Q : β → Prop}
  {w : α → Nat} {v : β → Nat} {text mid rest : List Char} {a : α} {b : β}

theorem Taken.trans (h : Taken P w text a mid)
    (h' : Taken Q (fun b => v b - w a) mid b rest) : Taken Q v text b rest := by
  have hle := h.weighs
  have hle' := h'.weighs
  exact ⟨h'.suffix.trans h.suffix, h'.holds, by omega⟩

theorem Taken.refl (hP : P a) (hweight : w a = 0) : Taken P w text a text :=
  ⟨suffix_rfl, hP, by omega⟩

theorem Taken.mono {Q : α → Prop} {v : α → Nat} (h : Taken P w text a rest)
    (hle : P a → Q a ∧ v a ≤ w a) : Taken Q v text a rest := by
  obtain ⟨hQ, hle⟩ := hle h.holds
  have hweighs := h.weighs
  exact ⟨h.suffix, hQ, by omega⟩

theorem SoundAt.orElse (h : SoundAt P w p q text)
    (h' : Fails q text → SoundAt P w r s text) :
    SoundAt P w (p.orElse r) (q.orElse s) text := by
  rcases fails_or_ok q text with ⟨place, hplace⟩ | ⟨a, mid, hok⟩
  · unfold SoundAt
    rw [orElse_of_fails ⟨place, h.1.trans hplace⟩, orElse_of_fails ⟨place, hplace⟩]
    exact h' ⟨place, hplace⟩
  · refine ⟨?_, fun a rest hread => ?_⟩
    · rw [orElse_of_ok (h.1.trans hok), orElse_of_ok hok]
    · rw [orElse_of_ok hok] at hread
      exact h.2 (hok.trans hread)

namespace Sound

theorem of_taken (h : ∀ ⦃text a rest⦄, p text = .ok (a, rest) → Taken P w text a rest) :
    Sound n p p P w :=
  fun _ _ => ⟨rfl, fun _ _ hread => h hread⟩

theorem taken (h : ∀ n, Sound n p p P w) (hread : p text = .ok (a, rest)) :
    Taken P w text a rest :=
  (h _ text (Nat.lt_succ_self _)).2 hread

theorem mono {Q : α → Prop} {v : α → Nat} (h : Sound n p q P w)
    (hle : ∀ a, P a → Q a ∧ v a ≤ w a) : Sound n p q Q v :=
  fun text htext =>
    ⟨(h text htext).1, fun a _ hread => ((h text htext).2 hread).mono (hle a)⟩

theorem pure (hP : P a) (hweight : w a = 0) :
    Sound n (Pure.pure a) (Pure.pure a) P w := by
  refine of_taken fun text a' rest hread => ?_
  obtain ⟨rfl, rfl⟩ := pure_eq_ok.mp hread
  exact .refl hP hweight

/-- What follows reads only what the first part has left, and the weight of what
the first part gave is in hand. -/
theorem bind_of_length (h : Sound n p q P w)
    (hlength : ∀ ⦃text a mid⦄, text.length < n → q text = .ok (a, mid) → mid.length < m)
    (hf : ∀ a, P a → Sound m (f a) (g a) Q fun b => v b - w a) :
    Sound n (p >>= f) (q >>= g) Q v := by
  intro text htext
  obtain ⟨hsame, htaken⟩ := h text htext
  rcases fails_or_ok q text with ⟨place, hplace⟩ | ⟨a, mid, hok⟩
  · unfold SoundAt
    rw [bind_of_error (hsame.trans hplace), bind_of_error hplace]
    exact ⟨rfl, nofun⟩
  · have hmid := htaken hok
    obtain ⟨hsame', htaken'⟩ := hf a hmid.holds mid (hlength htext hok)
    unfold SoundAt
    rw [bind_of_ok (hsame.trans hok), bind_of_ok hok]
    exact ⟨hsame', fun b rest hb => hmid.trans (htaken' hb)⟩

theorem bind (h : Sound n p q P w)
    (hf : ∀ a, P a → Sound n (f a) (g a) Q fun b => v b - w a) :
    Sound n (p >>= f) (q >>= g) Q v :=
  h.bind_of_length (fun text _ _ htext hok => ((h text htext).2 hok).suffix.length_le.trans_lt htext) hf

theorem map {f : α → β} (h : Sound n p q P w)
    (hf : ∀ a, P a → Q (f a) ∧ v (f a) ≤ w a) :
    Sound n (p >>= fun a => Pure.pure (f a)) (q >>= fun a => Pure.pure (f a)) Q v :=
  h.bind fun a ha => .pure (hf a ha).1 (Nat.sub_eq_zero_of_le (hf a ha).2)

theorem orElse (h : Sound n p q P w) (h' : Sound n r s P w) :
    Sound n (p.orElse r) (q.orElse s) P w :=
  fun text htext => (h text htext).orElse fun _ => h' text htext

theorem optional (h : Sound n p q P w) : Sound n p.optional q.optional
    (fun found => ∀ a, found = some a → P a) fun found => found.elim 0 w := by
  intro text htext
  obtain ⟨hsame, htaken⟩ := h text htext
  refine ⟨?_, fun found rest hread => ?_⟩
  · unfold Reader.optional
    rw [hsame]
  · rcases optional_eq_ok hread with ⟨a, rfl, ha⟩ | ⟨rfl, rfl, -⟩
    · obtain ⟨hsuffix, hP, hweight⟩ := htaken ha
      exact ⟨hsuffix, fun b hb => Option.some.inj hb ▸ hP, hweight⟩
    · exact .refl nofun rfl

theorem check {test : α → Bool} (h : Sound n p q P w) :
    Sound n (p.check test) (q.check test) (fun a => P a ∧ test a = true) w := by
  intro text htext
  obtain ⟨hsame, htaken⟩ := h text htext
  refine ⟨?_, fun a rest hread => ?_⟩
  · unfold Reader.check
    rw [hsame]
  · obtain ⟨ha, htest⟩ := check_eq_ok.mp hread
    exact (htaken ha).mono fun hP => ⟨⟨hP, htest⟩, Nat.le_refl _⟩

theorem convert {f : α → Option β} (h : Sound n p q P w)
    (hf : ∀ a b, P a → f a = some b → Q b ∧ v b ≤ w a) :
    Sound n (p.convert f) (q.convert f) Q v := by
  intro text htext
  obtain ⟨hsame, htaken⟩ := h text htext
  refine ⟨?_, fun b rest hread => ?_⟩
  · unfold Reader.convert
    rw [hsame]
  · obtain ⟨a, ha, hb⟩ := convert_eq_ok.mp hread
    obtain ⟨hQ, hle⟩ := hf a b (htaken ha).holds hb
    exact (htaken ha).trans (.refl hQ (Nat.sub_eq_zero_of_le hle))

theorem many (h : Sound n p q P w) : Sound n p.many q.many (fun as => ∀ a ∈ as, P a)
    fun as => (as.map w).sum := by
  intro text
  induction hlength : text.length using Nat.strongRecOn generalizing text with
  | ind length ih =>
    intro htext
    subst hlength
    obtain ⟨hsame, htaken⟩ := h text htext
    have hnil : Taken (fun as => ∀ a ∈ as, P a) (fun as => (as.map w).sum) text [] text :=
      .refl (forall_mem_nil _) rfl
    unfold SoundAt Reader.many
    rcases fails_or_ok q text with ⟨place, hplace⟩ | ⟨a, mid, hok⟩
    · rw [repeated_of_fails ⟨place, hsame.trans hplace⟩, repeated_of_fails ⟨place, hplace⟩]
      refine ⟨rfl, fun as rest hread => ?_⟩
      cases hread
      exact hnil
    · by_cases hlt : mid.length < text.length
      · obtain ⟨hmore, htaken'⟩ := ih mid.length hlt mid rfl (by omega)
        have hmid := htaken hok
        rw [repeated_of_ok (hsame.trans hok) hlt, repeated_of_ok hok hlt, Except.ok.inj hmore]
        refine ⟨rfl, fun as rest hread => ?_⟩
        cases hread
        obtain ⟨hsuffix, hrest, hsum⟩ := htaken' rfl
        have hweighs := hmid.weighs
        refine ⟨hsuffix.trans hmid.suffix, forall_mem_cons.mpr ⟨hmid.holds, hrest⟩, ?_⟩
        rw [map_cons, sum_cons]
        omega
      · rw [Reader.repeated, Reader.repeated, hsame, hok]
        simp only [hlt, if_false, true_and]
        intro as rest hread
        cases hread
        exact hnil

theorem marked {mark : Reader Unit} {change : α → α} (hmark : Light mark)
    (h : Sound n p q P w) (hchange : ∀ a, P a → P (change a) ∧ w (change a) ≤ w a) :
    Sound n (marked mark change p) (marked mark change q) P w := by
  intro text
  induction hlength : text.length using Nat.strongRecOn generalizing text with
  | ind length ih =>
    intro htext
    subst hlength
    obtain ⟨hsame, htaken⟩ := h text htext
    refine ⟨?_, fun a rest hread => ?_⟩
    · rw [Reader.marked, Reader.marked]
      split
      · split
        · rename_i mid _ hlt
          rw [(ih mid.length hlt mid rfl (by omega)).1, hsame]
        · exact hsame
      · exact hsame
    · rcases marked_eq_ok hread with hlast | ⟨mid, b, hmid, hlt, hnext, rfl⟩
      · exact htaken hlast
      · have hb := (ih mid.length hlt mid rfl (by omega)).2 hnext
        obtain ⟨hP, hle⟩ := hchange b hb.holds
        exact (taken hmark hmid).trans (hb.trans (.refl hP (Nat.sub_eq_zero_of_le hle)))

end Sound

namespace Light

theorem of_suffix (h : ∀ ⦃text a rest⦄, p text = .ok (a, rest) → rest <:+ text) : Light p := by
  refine fun n => .of_taken fun text a rest hread => ⟨h hread, trivial, ?_⟩
  rw [Nat.zero_add]
  exact heft_le_of_suffix (h hread)

theorem of_sound (h : ∀ n, Sound n p p P w) : Light p :=
  fun n => (h n).mono fun _ _ => ⟨trivial, Nat.zero_le _⟩

theorem behind (hp : Light p) (hf : ∀ a, Sound n (f a) (g a) Q v) :
    Sound n (p >>= f) (p >>= g) Q v :=
  (hp n).bind fun a _ => hf a

theorem bind (hp : Light p) (hf : ∀ a, Light (f a)) : Light (p >>= f) :=
  fun n => hp.behind fun a => hf a n

theorem pure (a : α) : Light (Pure.pure a) :=
  fun _ => .pure trivial rfl

theorem orElse (h : Light p) (h' : Light q) : Light (p.orElse q) :=
  fun n => (h n).orElse (h' n)

theorem optional (h : Light p) : Light p.optional :=
  .of_sound fun n => (h n).optional

theorem present (h : Light p) : Light p.present :=
  h.optional.bind fun _ => .pure _

end Light

namespace Sound

variable {separator : Reader β}

theorem sepBy1 (hseparator : Light separator) (h : Sound n p q P w) :
    Sound n (separator.sepBy1 p) (separator.sepBy1 q) (fun as => as ≠ [] ∧ ∀ a ∈ as, P a)
      fun as => (as.map w).sum := by
  refine h.bind fun first hfirst => (many (hseparator.behind fun _ => h)).map fun others hothers =>
    ⟨⟨cons_ne_nil _ _, forall_mem_cons.mpr ⟨hfirst, hothers⟩⟩, ?_⟩
  rw [map_cons, sum_cons]
  omega

theorem sepBy (hseparator : Light separator) (h : Sound n p q P w) :
    Sound n (separator.sepBy p) (separator.sepBy q) (fun as => ∀ a ∈ as, P a)
      fun as => (as.map w).sum := by
  refine (h.sepBy1 hseparator).optional.map fun found hfound => ?_
  cases found with
  | none => exact ⟨forall_mem_nil _, Nat.le_refl _⟩
  | some as => exact ⟨(hfound as rfl).2, Nat.le_refl _⟩

end Sound

end Readers

/-! ## Tokens -/

section Tokens

variable {n : Nat} {text : List Char}

theorem light_blanks : Light blanks := by
  refine .of_suffix fun text _ rest hread => ?_
  obtain ⟨-, rfl⟩ := Prod.mk.inj (Except.ok.inj hread)
  exact skipBlanks_suffix text

theorem light_exactly (word : String) : Light (exactly word) :=
  .of_suffix fun _ _ _ hread => ⟨_, (exactly_eq_ok.mp hread).symm⟩

theorem light_symbol (word : String) : Light (symbol word) :=
  light_blanks.bind fun _ => light_exactly word

theorem light_notNext : Light (notNext isNameChar) := by
  refine .of_suffix fun text _ rest hread => ?_
  rw [(notNext_eq_ok.mp hread).1]

theorem sound_keyword (word : String) :
    Sound n (keyword word) (keyword word) (fun _ => True) fun _ => heft word.toList := by
  refine light_blanks.behind fun _ => Sound.bind (P := fun _ => True)
    (.of_taken fun text _ rest hread => ?_) fun _ _ => (light_notNext n).mono fun _ _ =>
      ⟨trivial, Nat.le_of_eq (Nat.sub_self _)⟩
  obtain ⟨taken, rfl, htaken⟩ := inAnyCase_eq_ok.mp hread
  refine ⟨suffix_append _ _, trivial, ?_⟩
  rw [← htaken, heft_map_toLower, heft_append]

theorem light_keyword (word : String) : Light (keyword word) :=
  .of_sound fun _ => sound_keyword word

theorem light_constant {α : Type} (word : String) (value : α) : Light (constant word value) :=
  (light_keyword word).bind fun _ => .pure value

theorem sound_digits : Sound n digits digits (fun run => run ≠ [] ∧ ∀ c ∈ run, c.isDigit = true)
    fun _ => 0 := by
  refine .of_taken fun text run rest hread => ?_
  obtain ⟨hne, hdigits, rfl⟩ := digits_of_ok hread
  exact ⟨suffix_append _ _, ⟨hne, hdigits⟩,
    (Nat.zero_add _).trans_le (heft_le_of_suffix (suffix_append _ _))⟩

theorem sound_name : Sound n name name IsName fun word => heft word.toList := by
  refine .of_taken fun text word rest hread => ?_
  obtain ⟨hname, rfl, -⟩ := name_of_ok hread
  exact ⟨suffix_append _ _, hname, by rw [heft_append]⟩

theorem sound_freeName : Sound n freeName freeName FreeName fun word => heft word.toList :=
  sound_name.check.mono fun _ h => ⟨⟨h.1, by simpa using h.2⟩, Nat.le_refl _⟩

theorem sound_dottedRest : Sound n dottedRest dottedRest
    (fun segments => ∀ segment ∈ segments, IsName segment)
    fun segments => (segments.map fun segment => heft segment.toList).sum :=
  .many ((light_exactly ".").behind fun _ => sound_name)

theorem sound_path : Sound n path path IsPath fun segments => heft (pathText segments).toList := by
  refine light_blanks.behind fun _ => sound_freeName.bind fun first hfirst =>
    sound_dottedRest.map fun others hothers => ⟨⟨first, others, rfl, hfirst, hothers⟩, ?_⟩
  rw [heft_pathText, map_cons, sum_cons]
  omega

theorem sound_quotedRest : Sound n quotedRest quotedRest (fun _ => True) heft := by
  refine .of_taken fun text body rest hread => ?_
  fun_induction quotedRest text generalizing body rest with
  | case1 | case3 | case6 => cases hread
  | case2 after inner left hinner ih =>
    obtain ⟨rfl, rfl⟩ := Prod.mk.inj (Except.ok.inj hread)
    obtain ⟨hsuffix, -, hle⟩ := ih _ _ hinner
    refine ⟨hsuffix.trans ⟨['\'', '\''], rfl⟩, trivial, ?_⟩
    rw [heft_cons, heft_cons, heft_cons]
    omega
  | case4 after hquote =>
    obtain ⟨rfl, rfl⟩ := Prod.mk.inj (Except.ok.inj hread)
    refine ⟨suffix_cons _ _, trivial, ?_⟩
    rw [heft_nil, heft_cons]
    omega
  | case5 c after hc inner left hinner ih =>
    obtain ⟨rfl, rfl⟩ := Prod.mk.inj (Except.ok.inj hread)
    obtain ⟨hsuffix, -, hle⟩ := ih _ _ hinner
    refine ⟨hsuffix.trans (suffix_cons _ _), trivial, ?_⟩
    rw [heft_cons, heft_cons]
    omega

/-! ## Literals and parameters -/

def Literal.weight (value : Literal) : Nat :=
  heft value.text.toList

theorem sound_constant {α : Type} {P : α → Prop} {weight : α → Nat} (word : String) {value : α}
    (h : P value) (hweight : weight value = 0) :
    Sound n (constant word value) (constant word value) P weight :=
  (light_keyword word).behind fun _ => .pure h hweight

theorem unsigned_of_readInt64? {k : Int} (hne : text ≠ []) (hdigits : ∀ c ∈ text, c.isDigit = true)
    (h : readInt64? text = some k) : Unsigned (.int k) := by
  cases text with
  | nil => exact (hne rfl).elim
  | cons c text =>
    unfold readInt64? at h
    rw [Double.splitSign_of_digit (hdigits c (.head _))] at h
    simp only [Bool.false_eq_true, if_false] at h
    split at h
    · rename_i hrange
      obtain rfl := Option.some.inj h
      simp only [Bool.and_eq_true, decide_eq_true_eq] at hrange
      exact ⟨Int.natCast_nonneg _, hrange.2⟩
    · cases h

theorem sound_literal : Sound n literal literal Unsigned Literal.weight := by
  have hstring : Sound n stringLiteral stringLiteral Unsigned Literal.weight := by
    refine (light_exactly "'").behind fun _ => sound_quotedRest.map fun body _ => ⟨trivial, ?_⟩
    rw [Literal.weight, Literal.text, heft_quoted, String.toList_ofList]
  have hdouble : Sound n doubleLiteral doubleLiteral Unsigned Literal.weight := by
    refine Sound.convert (w := fun _ => 0)
      (P := fun text => ∃ c rest, text = c :: rest ∧ c.isDigit = true) ?_ ?_
    · refine sound_digits.bind fun whole hwhole => (light_exactly ".").behind fun _ =>
        sound_digits.map fun fraction _ => ⟨?_, Nat.le_refl _⟩
      cases whole with
      | nil => exact (hwhole.1 rfl).elim
      | cons c whole => exact ⟨c, _, rfl, hwhole.2 c (.head _)⟩
    · rintro _ _ ⟨c, rest, rfl, hdigit⟩ hvalue
      obtain ⟨x, hx, rfl⟩ := map_eq_some_iff.mp hvalue
      exact ⟨Double.isNegative_of_read? hdigit hx,
        Nat.le_of_eq (heft_of_numeric (Numeric.ofDouble _ x))⟩
  have hint : Sound n intLiteral intLiteral Unsigned Literal.weight := by
    refine Sound.convert (sound_digits.bind (v := fun _ => 0) fun run hrun =>
      light_notNext.behind fun _ => .pure hrun rfl) fun run value hrun hvalue => ?_
    obtain ⟨k, hk, rfl⟩ := map_eq_some_iff.mp hvalue
    exact ⟨unsigned_of_readInt64? hrun.1 hrun.2 hk,
      Nat.le_of_eq (heft_of_numeric (Numeric.ofInt k))⟩
  exact light_blanks.behind fun _ => hstring.orElse (hdouble.orElse (hint.orElse
    ((sound_constant "true" trivial (by decide)).orElse
      ((sound_constant "false" trivial (by decide)).orElse
        (sound_constant "null" trivial (by decide))))))

theorem lt_of_readBelow? {bound position : Nat} (h : readBelow? bound text = some position) :
    position < bound := by
  unfold readBelow? at h
  simp only [ite_none_right_eq_some, Bool.and_eq_true, decide_eq_true_eq, Option.some.injEq] at h
  obtain ⟨⟨-, hlt⟩, rfl⟩ := h
  exact hlt

theorem sound_parameter : Sound n parameter parameter (Parsed .operand) weight := by
  have hnamed : Sound n namedParameter namedParameter (Parsed .operand) weight :=
    (light_exactly ":").behind fun _ => sound_name.map fun name hname =>
      ⟨.named hname, (named name).weight_le⟩
  have hordinal : Sound n ordinalParameter ordinalParameter (Parsed .operand) weight := by
    refine Sound.convert ((light_exactly "?").behind fun _ => sound_digits) ?_
    intro run e _ hvalue
    obtain ⟨position, hposition, rfl⟩ := map_eq_some_iff.mp hvalue
    exact ⟨.ordinal (lt_of_readBelow? hposition), weight_le_children rfl rfl⟩
  have hlegacy : Sound n legacyParameter legacyParameter (Parsed .operand) weight :=
    (light_exactly "?").behind fun _ =>
      .pure .legacy (Nat.le_zero.mp (weight_le_children rfl rfl))
  exact light_blanks.behind fun _ => hnamed.orElse (hordinal.orElse hlegacy)

end Tokens

/-! ## Operands -/

section Levels

variable {n : Nat} {p q nested : Reader Expr} {text : List Char} {function : String}
  {subject : Expr}

/-- Behind a parenthesis there is less text. -/
theorem sound_behind_parenthesis {α : Type} {f g : Unit → Reader α} {P : α → Prop}
    {w : α → Nat} (h : Sound n (f ()) (g ()) P w) :
    Sound (n + 1) (symbol "(" >>= f) (symbol "(" >>= g) P w := by
  refine (light_symbol "(" (n + 1)).bind_of_length (fun text _ mid htext hok => ?_) fun _ _ => h
  have hlt := length_lt_of_symbol (by decide) hok
  omega

theorem sound_parenthesized (h : Sound n p q (Parsed .disjunction) weight) :
    Sound (n + 1) (parenthesized p) (parenthesized q) (Parsed .operand) weight :=
  sound_behind_parenthesis <| h.bind fun _ hinner => (light_symbol ")").behind fun _ =>
    .pure (.nested hinner) (Nat.sub_eq_zero_of_le (weight_le_children rfl rfl))

theorem light_aggregateFunction : Light aggregateFunction :=
  (light_constant _ _).orElse ((light_constant _ _).orElse ((light_constant _ _).orElse
    ((light_constant _ _).orElse (light_constant _ _))))

theorem sound_aggregate (h : Sound n p q (Parsed .disjunction) weight) :
    Sound (n + 1) (aggregate p) (aggregate q) (Parsed .operand) weight := by
  have hargument : Sound n (aggregateArgument p) (aggregateArgument q)
      (fun found => (∀ e ∈ found.2, Parsed .disjunction e) ∧ (found.2 = none → found.1 = false))
      fun found => found.2.elim 0 weight := by
    refine Sound.orElse ?_ ?_
    · exact (light_symbol "*").behind fun _ => .pure ⟨nofun, fun _ => rfl⟩ rfl
    · refine (light_keyword "distinct").present.behind fun distinct => h.map fun e he => ?_
      exact ⟨⟨fun e' he' => Option.some.inj he' ▸ he, nofun⟩, Nat.le_refl _⟩
  refine light_aggregateFunction.behind fun function => sound_behind_parenthesis <|
    hargument.bind fun found hfound => (light_symbol ")").behind fun _ => ?_
  obtain ⟨distinct, argument⟩ := found
  cases argument with
  | none =>
    obtain rfl : distinct = false := hfound.2 rfl
    exact .pure .everything (Nat.sub_eq_zero_of_le (weight_le_children rfl rfl))
  | some e =>
    exact .pure (.aggregate (hfound.1 e rfl)) (Nat.sub_eq_zero_of_le (weight_le_children rfl rfl))
theorem isAscii_of_isReserved {word : String} (h : isReserved word) :
    IsAscii word.toList := by
  have hwords : ∀ word ∈ reservedWords, IsAscii word.toList := by decide
  intro c hc
  have hlower : c.toLower ∈ (lowerAscii word).toList := by
    rw [lowerAscii, String.toList_ofList]
    exact mem_map_of_mem hc
  exact ascii_of_toLower (hwords _ (isReserved_iff.mp h) _ hlower)

/-- A name gets reserved in lower case only through a Kelvin sign. -/
theorem one_le_count_kelvin (hfree : isReserved function = false)
    (h : isReserved (lowercase function)) : 1 ≤ function.toList.count kelvin := by
  refine one_le_count_iff.mpr ?_
  by_contra hkelvin
  have hmem := isReserved_iff.mp h
  rw [lowercase_eq_lowerAscii (isAscii_of_isReserved h) hkelvin, lowerAscii_lowerAscii]
    at hmem
  rw [isReserved_iff.mpr hmem] at hfree
  cases hfree

/-- There is one reserved word that a Kelvin sign can get into. -/
theorem lowercase_eq_like (hfree : isReserved function = false)
    (h : isReserved (lowercase function)) : lowercase function = "like" := by
  have hwords : ∀ word ∈ reservedWords, 'k' ∈ word.toList → word = "like" := by decide
  have hascii := isAscii_of_isReserved h
  have hkelvin : kelvin ∈ function.toList :=
    one_le_count_iff.mp (one_le_count_kelvin hfree h)
  have hmem := isReserved_iff.mp h
  rw [lowerAscii_lowercase hascii] at hmem
  refine hwords _ hmem ?_
  rw [(lowercase_of_isAscii hascii).1]
  exact mem_map.mpr ⟨_, hkelvin, by decide⟩

/-- No aggregate function is spelled with a Kelvin sign. -/
theorem lowerAscii_of_aggregate {aggregate : AggregateFunction}
    (h : lowercase function = aggregate.text) : lowerAscii function = aggregate.text := by
  have hascii : IsAscii (lowercase function).toList := by
    rw [h]
    cases aggregate <;> decide
  rw [← h]
  refine (lowercase_eq_lowerAscii hascii fun hkelvin => ?_).symm
  have hk : 'k' ∈ aggregate.text.toList := by
    rw [← h, (lowercase_of_isAscii hascii).1]
    exact mem_map.mpr ⟨_, hkelvin, by decide⟩
  revert hk
  cases aggregate <;> decide

/-- An aggregate function with one argument is read as an aggregate. -/
theorem aggregate_of_call {mid inner after rest : List Char} {aggregate : AggregateFunction}
    {argument : Expr} (hstart : ∀ text, NoStart text → Fails nested text)
    (hname : name (skipBlanks text) = .ok (function, mid))
    (hfunction : lowercase function = aggregate.text)
    (hopen : symbol "(" mid = .ok ((), inner)) (hargument : nested inner = .ok (argument, after))
    (hclose : symbol ")" after = .ok ((), rest)) :
    Grammar.aggregate nested text = .ok (.aggregate aggregate false (some argument), rest) := by
  obtain ⟨hword, htext, hmid⟩ := name_of_ok hname
  have hnext : nextWord text = aggregate.text.toList := by
    rw [nextWord_of_name hname, lowerAscii_of_aggregate hfunction]
  have hread := aggregateFunction_of_word hnext
  rw [htext, dropWhile_of_noName hword.isNameChar hmid] at hread
  unfold Grammar.aggregate
  rw [bind_of_ok hread, bind_of_ok hopen,
    bind_of_ok (aggregateArgument_of_ok (hstart inner) hargument)]
  simp only
  rw [bind_of_ok hclose]
  rfl

theorem ne_aggregate_of_call {rest : List Char} {argument : Expr} {aggregate : AggregateFunction}
    (hstart : ∀ text, NoStart text → Fails nested text)
    (haggregate : Fails (Grammar.aggregate nested) text)
    (hread : call nested text = .ok (.call function [argument], rest)) :
    function ≠ aggregate.text := by
  obtain ⟨_, start, hblanks, hread⟩ := bind_eq_ok.mp hread
  obtain rfl : start = skipBlanks text := (Prod.mk.inj (Except.ok.inj hblanks)).2.symm
  obtain ⟨name, mid, hname, hread⟩ := bind_eq_ok.mp hread
  obtain ⟨⟨⟩, inner, hopen, hread⟩ := bind_eq_ok.mp hread
  obtain ⟨arguments, after, hsepBy, hread⟩ := bind_eq_ok.mp hread
  obtain ⟨⟨⟩, last, hclose, hread⟩ := bind_eq_ok.mp hread
  obtain ⟨hcall, rfl⟩ := pure_eq_ok.mp hread
  obtain ⟨rfl, rfl⟩ := call.inj hcall
  intro hlower
  exact haggregate.not_ok (aggregate_of_call hstart (freeName_eq_ok.mp hname).1 hlower hopen
    (of_sepBy_singleton hsepBy) hclose)

/-- A call, though perhaps of an aggregate function. -/
theorem sound_call (h : Sound n p q (Parsed .disjunction) weight) :
    Sound (n + 1) (call p) (call q) (fun e => ∃ function arguments,
      e = .call (lowercase function) arguments ∧ FreeName function
        ∧ ∀ argument ∈ arguments, Parsed .disjunction argument) weight := by
  refine light_blanks.behind fun _ => sound_freeName.bind fun function hfunction =>
    sound_behind_parenthesis <| (h.sepBy (light_symbol ",")).bind fun arguments harguments =>
      (light_symbol ")").behind fun _ => .pure ⟨_, _, rfl, hfunction, harguments⟩ ?_
  have hlower := heft_lowercase function
  have hreserved : (isReserved (lowercase function)).toNat ≤ function.toList.count kelvin := by
    cases hlike : isReserved (lowercase function) with
    | false => exact Nat.zero_le _
    | true => exact one_le_count_kelvin hfunction.2 hlike
  have hle : (call (lowercase function) arguments).weight
      ≤ heft (lowercase function).toList + (isReserved (lowercase function)).toNat
        + (arguments.map weight).sum :=
    (call (lowercase function) arguments).weight_le
  omega

theorem sound_operand (h : Sound n p q (Parsed .disjunction) weight)
    (hstart : ∀ text, NoStart text → Fails q text) :
    Sound (n + 1) (operand p) (operand q) (Parsed .operand) weight := by
  intro text htext
  refine (sound_parenthesized h text htext).orElse fun _ => SoundAt.orElse
    (sound_literal.map (fun value hvalue => ⟨.literal hvalue, (literal value).weight_le⟩)
      text htext) fun _ => (sound_parameter text htext).orElse fun _ =>
    (sound_aggregate h text htext).orElse fun haggregate => SoundAt.orElse ?_ fun _ => ?_
  · obtain ⟨hsame, htaken⟩ := sound_call h text htext
    refine ⟨hsame, fun e rest hread => (htaken hread).mono fun hcall => ⟨?_, Nat.le_refl _⟩⟩
    obtain ⟨function, arguments, rfl, hfunction, harguments⟩ := hcall
    refine .call hfunction harguments fun aggregate hlower hone => ?_
    -- with one argument the aggregate would have been read before the call
    obtain ⟨argument, rfl⟩ := length_eq_one_iff.mp hone
    exact ne_aggregate_of_call hstart haggregate hread hlower
  · refine sound_path.map (fun segments hsegments => ?_) text htext
    obtain ⟨first, others, rfl, hfirst, hothers⟩ := hsegments
    exact ⟨.path hfirst hothers, (path (first :: others)).weight_le⟩

/-! ## Operators -/

/-- A sign before an expression is taken into a number, and a number with a sign
before it stands at the same level. -/
theorem Grammar.Parsed.withSign {e : Expr} (h : Parsed .signed e) :
    Parsed .signed (Grammar.withSign e) := by
  cases h with
  | negativeInt hneg hmin =>
    exact .signed (.literal ⟨by omega, by omega⟩)
  | negativeDouble h =>
    refine .signed (.literal ?_)
    show Double.isNegative _ = false
    rw [Double.isNegative_neg, h]
    rfl
  | negate h hsign => exact .negate (.negate h hsign) rfl
  | signed hoperand =>
    cases hoperand with
    | @literal value hvalue =>
      cases value with
      | int n =>
        obtain ⟨hnonneg, hmax⟩ := hvalue
        by_cases hzero : n = 0
        · subst hzero
          exact .signed (.literal ⟨by decide, by decide⟩)
        · exact .negativeInt (by omega) (by omega)
      | double x =>
        refine .negativeDouble ?_
        rw [Double.isNegative_neg, show x.isNegative = false from hvalue]
        rfl
      | _ => exact .negate (.signed (.literal hvalue)) rfl
    | named h => exact .negate (.signed (.named h)) rfl
    | ordinal h => exact .negate (.signed (.ordinal h)) rfl
    | legacy => exact .negate (.signed .legacy) rfl
    | path hfirst hrest => exact .negate (.signed (.path hfirst hrest)) rfl
    | nested h => exact .negate (.signed (.nested h)) rfl
    | everything => exact .negate (.signed .everything) rfl
    | aggregate h => exact .negate (.signed (.aggregate h)) rfl
    | call hfunction harguments haggregate =>
      exact .negate (.signed (.call hfunction harguments haggregate)) rfl

theorem weight_withSign (e : Expr) : (withSign e).weight ≤ e.weight := by
  have hnumber : ∀ value : Literal, Numeric value.text.toList → ∀ n, (literal value).weight ≤ n :=
    fun value h n => Nat.le_trans (literal value).weight_le (heft_of_numeric h ▸ Nat.zero_le n)
  unfold withSign
  split
  · exact hnumber _ (Numeric.ofInt _) _
  · exact hnumber (.double _) (Numeric.ofDouble _ _) _
  · exact weight_le_children rfl rfl

theorem Sound.leftGrouped {ω : Type} {operator : Reader ω} {join : ω → Expr → Expr → Expr}
    {P Q : Expr → Prop} {O : ω → Prop} (hoperator : Sound n operator operator O fun _ => 0)
    (h : Sound n p q P weight) (hfirst : ∀ e, P e → Q e)
    (hjoin : ∀ op left right, O op → Q left → P right → Q (join op left right))
    (hweight : ∀ op left right, (join op left right).weight ≤ left.weight + right.weight) :
    Sound n (leftGrouped operator p join) (leftGrouped operator q join) Q weight := by
  have hfold : ∀ (rest : List (ω × Expr)) (first : Expr), Q first →
      (∀ pair ∈ rest, O pair.1 ∧ P pair.2) →
      Q (rest.foldl (fun left pair => join pair.1 left pair.2) first)
        ∧ (rest.foldl (fun left pair => join pair.1 left pair.2) first).weight
          ≤ first.weight + (rest.map fun pair => pair.2.weight).sum := by
    intro rest
    induction rest with
    | nil => exact fun first hfirst _ => ⟨hfirst, Nat.le_refl _⟩
    | cons pair rest ih =>
      intro first hfirst hrest
      obtain ⟨⟨hop, hright⟩, hrest⟩ := forall_mem_cons.mp hrest
      obtain ⟨hall, hsum⟩ :=
        ih (join pair.1 first pair.2) (hjoin _ _ _ hop hfirst hright) hrest
      have hle := hweight pair.1 first pair.2
      rw [foldl_cons, map_cons, sum_cons]
      exact ⟨hall, by omega⟩
  refine h.bind fun first hP => Sound.map (many (P := fun pair => O pair.1 ∧ P pair.2)
    (w := fun pair => pair.2.weight) (hoperator.bind fun op hop => h.map fun right hright =>
      ⟨⟨hop, hright⟩, Nat.le_refl _⟩)) fun others hothers => ?_
  obtain ⟨hall, hle⟩ := hfold others first (hfirst first hP) hothers
  exact ⟨hall, Nat.sub_le_iff_le_add'.mpr hle⟩

theorem sound_sign {ω : Type} {O : ω → Prop} {word : String} {value : ω} (h : O value) :
    Sound n (sign word value) (sign word value) O fun _ => 0 :=
  (light_symbol word).behind fun _ => .pure h rfl

theorem sound_signed (h : Sound n p q (Parsed .disjunction) weight)
    (hstart : ∀ text, NoStart text → Fails q text) :
    Sound (n + 1) (signed p) (signed q) (Parsed .signed) weight :=
  .marked (light_symbol "-") ((sound_operand h hstart).mono fun _ he => ⟨.signed he, Nat.le_refl _⟩)
    fun e he => ⟨he.withSign, weight_withSign e⟩

theorem sound_sum (h : Sound n p q (Parsed .disjunction) weight)
    (hstart : ∀ text, NoStart text → Fails q text) :
    Sound (n + 1) (sum p) (sum q) (Parsed .sum) weight := by
  have hweight : ∀ op left right, (arithmetic op left right).weight
      ≤ left.weight + right.weight := fun op left right => weight_le_children rfl rfl
  refine .leftGrouped (O := (· ∈ [.concat, .add, .sub])) ?_ (.leftGrouped
    (O := (· ∈ [.mul, .div, .mod])) ?_ (sound_signed h hstart) (fun _ => .product)
    (fun _ _ _ hop hleft hright => .multiply hop hleft hright) hweight) (fun _ => .sum)
    (fun _ _ _ hop hleft hright => .add hop hleft hright) hweight
  all_goals
    exact (sound_sign (by decide)).orElse ((sound_sign (by decide)).orElse
      (sound_sign (by decide)))

/-! ## Predicates

A test is read behind its subject, which has been weighed already: what is left
to weigh is the rest of the test. -/

def Expr.weightBehind (subject e : Expr) : Nat :=
  e.weight - subject.weight

theorem sound_compareTail (hsubject : Parsed .sum subject)
    (hsum : Sound n (sum p) (sum q) (Parsed .sum) weight) :
    Sound n (compareTail p subject) (compareTail q subject) (Parsed .predicate)
      subject.weightBehind := by
  have hop : Light compareOp := fun _ =>
    (sound_sign trivial).orElse ((sound_sign trivial).orElse ((sound_sign trivial).orElse
      ((sound_sign trivial).orElse ((sound_sign trivial).orElse ((sound_sign trivial).orElse
        (sound_sign trivial))))))
  refine hop.behind fun op => hsum.map fun right hright => ⟨.compare hsubject hright, ?_⟩
  exact Nat.sub_le_iff_le_add'.mpr (weight_le_children rfl rfl)

theorem sound_isTail (hsubject : Parsed .sum subject) :
    Sound n (isTail subject) (isTail subject) (Parsed .predicate) subject.weightBehind := by
  refine (light_keyword "is").behind fun _ => (light_keyword "not").present.behind fun negated =>
    (sound_constant "null" (.isNull hsubject) ?_).orElse
      ((sound_keyword "empty").map fun _ _ => ⟨.isEmpty hsubject, ?_⟩)
  · exact Nat.sub_eq_zero_of_le (weight_le_children rfl rfl)
  · have hle : (isEmpty subject negated).weight ≤ heft "empty".toList + 0 + subject.weight :=
      (isEmpty subject negated).weight_le
    exact Nat.sub_le_iff_le_add.mpr hle

theorem sound_likeTail (hsubject : Parsed .sum subject)
    (hsum : Sound n (sum p) (sum q) (Parsed .sum) weight) :
    Sound n (likeTail p subject) (likeTail q subject) (Parsed .predicate)
      subject.weightBehind := by
  have hword : heft "escape".toList = 1 := by decide
  -- what printing loses of the escape is the heavy character of its word
  have hescape : Sound n (keyword "escape" >>= fun _ => sum p) (keyword "escape" >>= fun _ => sum q)
      (Parsed .sum) fun e => e.weight + 1 :=
    (sound_keyword "escape").bind fun _ _ => hsum.mono fun e he => ⟨he, by omega⟩
  refine (light_keyword "not").present.behind fun negated => (light_keyword "like").behind fun _ =>
    hsum.bind fun pattern hpattern => hescape.optional.map fun escape hescape =>
      ⟨.like hsubject hpattern hescape, ?_⟩
  unfold weightBehind
  cases escape with
  | none =>
    have hle : (like subject pattern none negated).weight
        ≤ subject.weight + pattern.weight := weight_le_children rfl rfl
    dsimp only [elim_none]
    omega
  | some e =>
    have hle : (like subject pattern (some e) negated).weight
        ≤ 0 + 1 + (subject.weight + (pattern.weight + e.weight)) :=
      (like subject pattern (some e) negated).weight_le
    dsimp only [elim_some]
    omega

theorem sound_betweenTail (hsubject : Parsed .sum subject)
    (hsum : Sound n (sum p) (sum q) (Parsed .sum) weight) :
    Sound n (betweenTail p subject) (betweenTail q subject) (Parsed .predicate)
      subject.weightBehind := by
  refine (light_keyword "not").present.behind fun negated =>
    (light_keyword "between").behind fun _ => hsum.bind fun low hlow =>
      (light_keyword "and").behind fun _ => hsum.map fun high hhigh =>
        ⟨.between hsubject hlow hhigh, ?_⟩
  have hle : (between subject low high negated).weight
      ≤ subject.weight + (low.weight + high.weight) := weight_le_children rfl rfl
  unfold weightBehind
  omega

theorem sound_inItems (h : Sound n p q (Parsed .disjunction) weight) :
    Sound (n + 1) (inItems p) (inItems q)
      (fun items => items ≠ [] ∧ ∀ item ∈ items, Parsed .disjunction item)
      fun items => (items.map weight).sum := by
  refine Sound.orElse (sound_behind_parenthesis <| (h.sepBy1 (light_symbol ",")).bind
    fun items hitems => (light_symbol ")").behind fun _ => .pure hitems (Nat.sub_self _))
    (sound_parameter.map fun item hitem => ?_)
  exact ⟨⟨cons_ne_nil _ _, forall_mem_singleton.mpr hitem.whole⟩, by simp⟩

theorem sound_inTail (hsubject : Parsed .sum subject)
    (h : Sound n p q (Parsed .disjunction) weight) :
    Sound (n + 1) (inTail p subject) (inTail q subject) (Parsed .predicate)
      subject.weightBehind := by
  refine (light_keyword "not").present.behind fun negated => (light_keyword "in").behind fun _ =>
    (sound_inItems h).map fun items hitems => ⟨.inList hsubject hitems.1 hitems.2, ?_⟩
  exact Nat.sub_le_iff_le_add'.mpr (weight_le_children rfl rfl)

theorem sound_predicate (h : Sound n p q (Parsed .disjunction) weight)
    (hstart : ∀ text, NoStart text → Fails q text) :
    Sound (n + 1) (predicate p) (predicate q) (Parsed .predicate) weight := by
  have hsum := sound_sum h hstart
  refine hsum.bind fun subject hsubject => ((sound_compareTail hsubject hsum).orElse
    ((sound_isTail hsubject).orElse ((sound_likeTail hsubject hsum).orElse
      ((sound_betweenTail hsubject hsum).orElse (sound_inTail hsubject h))))).optional.map
    fun tested htested => ?_
  cases tested with
  | none => exact ⟨.predicate hsubject, Nat.le_of_eq (Nat.sub_self _)⟩
  | some test => exact ⟨htested test rfl, Nat.le_refl _⟩

theorem sound_disjunction (h : Sound n p q (Parsed .disjunction) weight)
    (hstart : ∀ text, NoStart text → Fails q text) :
    Sound (n + 1) (disjunction p) (disjunction q) (Parsed .disjunction) weight := by
  have hweight : ∀ op left right, (logical op left right).weight
      ≤ left.weight + right.weight := fun op left right => weight_le_children rfl rfl
  have hnegation : Sound (n + 1) (negation p) (negation q) (Parsed .negation) weight :=
    .marked (light_keyword "not")
      ((sound_predicate h hstart).mono fun _ he => ⟨.negation he, Nat.le_refl _⟩)
      fun e he => ⟨.not he, weight_le_children rfl rfl⟩
  refine .leftGrouped (sound_constant (P := (· = .or)) _ rfl rfl) (.leftGrouped
    (sound_constant (P := (· = .and)) _ rfl rfl) hnegation (fun _ => .conjunction) ?_ hweight)
    (fun _ => .disjunction) ?_ hweight
  · rintro _ left right rfl hleft hright
    exact .and hleft hright
  · rintro _ left right rfl hleft hright
    exact .or hleft hright

end Levels

/-! ## Expressions -/

theorem Grammar.NoStart.nested_fails {text : List Char} (n : Nat) (h : NoStart text) :
    Fails (fun rest => if rest.length < n then expression rest else .error rest) text := by
  by_cases hlt : text.length < n
  · obtain ⟨place, hplace⟩ := h.expression_fails
    exact ⟨place, (if_pos hlt).trans hplace⟩
  · exact ⟨text, if_neg hlt⟩

/-- Reading an expression gives a tree of the loosest level, which weighs no
more than the text that was taken. -/
theorem sound_expression (n : Nat) :
    Sound n expression expression (Parsed .disjunction) weight := by
  refine .of_taken fun text => ?_
  induction hlength : text.length using Nat.strongRecOn generalizing text with
  | ind length ih =>
    subst hlength
    intro e rest hread
    rw [expression] at hread
    refine (sound_disjunction (n := text.length) (fun inner hinner => ⟨rfl, ?_⟩)
      (fun _ h => h.nested_fails _) text (Nat.lt_succ_self _)).2 hread
    intro e rest hread
    exact ih inner.length hinner inner rfl ((if_pos hinner).symm.trans hread)

theorem expression_eq : expression = disjunction expression := by
  funext text
  rw [expression]
  refine (sound_disjunction (n := text.length) (fun inner hinner => ⟨if_pos hinner, ?_⟩)
    (fun _ h => h.expression_fails) text (Nat.lt_succ_self _)).1
  exact (sound_expression _ inner hinner).2

theorem reader_disjunction : Level.reader .disjunction = expression := expression_eq.symm

theorem blankless_expression : Blankless expression := by
  rw [expression_eq]
  exact Level.blankless .disjunction

end EntityQuery.Query
