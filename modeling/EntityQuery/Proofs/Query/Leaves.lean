import EntityQuery.Proofs.Number.Digits
import EntityQuery.Proofs.Query.Soundness

/-!
# Names and constants read back

Names, paths, literals and parameters are read back from their own text, as long
as the text behind them cannot be taken for more of the same: it has to stop
them, with a blank, a parenthesis or a comma, or be at its end.
-/

namespace EntityQuery.Query

open List Text

open Reader Grammar Token

variable {rest run : List Char} {n : Nat}

variable {whole fraction : List Char} {others : List String} {value : Literal} {first : String}
  {x : Double} {c : Char}

def Stops (text : List Char) : Prop :=
  ∀ c ∈ text.head?, c ∈ [' ', '(', ')', ',']

theorem stops_nil : Stops [] := nofun

theorem stops_cons {text : List Char} (h : c ∈ [' ', '(', ')', ',']) :
    Stops (c :: text) := by
  intro d hd
  obtain rfl := Option.some.inj hd
  exact h

namespace Stops

variable {text : List Char}

theorem head_ne (h : Stops text) (hc : c ∉ [' ', '(', ')', ',']) : text.head? ≠ some c :=
  fun hhead => hc (h c hhead)

theorem noName (h : Stops text) : NoName text := by
  have hname : ∀ c ∈ [' ', '(', ')', ','], isNameChar c = false := by decide
  exact fun c hc => hname c (h c hc)

theorem undigited (h : Stops text) : Undigited text := by
  have hdigit : ∀ c ∈ [' ', '(', ')', ','], c.isDigit = false := by decide
  rintro c rest rfl
  exact hdigit c (h c rfl)

end Stops

/-! ## Names -/

theorem freeName_append {word : String} (h : FreeName word) (hrest : NoName rest) :
    freeName (word.toList ++ rest) = .ok (word, rest) :=
  freeName_eq_ok.mpr ⟨name_append h.1 hrest, h.2⟩

/-- The names of a path behind the first one, each with its dot. -/
def dotted (segments : List String) : List Char :=
  segments.flatMap fun segment => '.' :: segment.toList

theorem dotted_cons (segment : String) (segments : List String) :
    dotted (segment :: segments) = '.' :: (segment.toList ++ dotted segments) := rfl

theorem toList_pathText (first : String) (others : List String) :
    (pathText (first :: others)).toList
      = first.toList ++ dotted others := by
  unfold pathText
  induction others generalizing first with
  | nil => simp [dotted]
  | cons next others ih =>
    rw [String.intercalate_cons_cons, String.toList_append, String.toList_append, ih,
      dotted_cons, append_assoc]
    rfl

theorem noName_dotted (segments : List String) (hrest : NoName rest) :
    NoName (dotted segments ++ rest) := by
  cases segments with
  | nil => exact hrest
  | cons next segments => exact noName_cons (by decide)

theorem dottedRest_append {segments : List String}
    (hsegments : ∀ segment ∈ segments, IsName segment) (hrest : NoName rest)
    (hdot : rest.head? ≠ some '.') :
    dottedRest (dotted segments ++ rest) = .ok (segments, rest) := by
  refine many_eq_ok.mpr ?_
  induction segments with
  | nil => exact repeated_of_fails (exactly_fails hdot (by decide)).bind
  | cons segment segments ih =>
    obtain ⟨hsegment, hsegments⟩ := forall_mem_cons.mp hsegments
    have hread : (exactly "." >>= fun _ => name)
        ('.' :: (segment.toList ++ (dotted segments ++ rest)))
        = .ok (segment, dotted segments ++ rest) :=
      bind_ok (exactly_eq_ok.mpr rfl) (name_append hsegment (noName_dotted segments hrest))
    rw [dotted_cons, cons_append, append_assoc]
    refine (repeated_of_ok hread ?_).trans (by rw [ih hsegments])
    simp only [length_cons, length_append]
    omega

theorem path_append (hfirst : FreeName first) (hothers : ∀ segment ∈ others, IsName segment)
    (hrest : Stops rest) :
    path ((pathText (first :: others)).toList ++ rest) = .ok (first :: others, rest) := by
  have hnext := noName_dotted others hrest.noName
  rw [toList_pathText, append_assoc]
  unfold path
  rw [bind_of_ok (blanks_eq _), hfirst.1.skipBlanks, bind_of_ok (freeName_append hfirst hnext),
    bind_of_ok (dottedRest_append hothers hrest.noName (hrest.head_ne (by decide)))]
  rfl

theorem entityName_append (hsegments : ∀ segment ∈ first :: others, IsName segment)
    (hrest : Stops rest) :
    entityName ((pathText (first :: others)).toList ++ rest)
      = .ok (pathText (first :: others), rest) := by
  obtain ⟨hfirst, hothers⟩ := forall_mem_cons.mp hsegments
  have hnext := noName_dotted others hrest.noName
  rw [toList_pathText, append_assoc]
  unfold entityName
  rw [bind_of_ok (blanks_eq _), hfirst.skipBlanks, bind_of_ok (name_append hfirst hnext),
    bind_of_ok (dottedRest_append hothers hrest.noName (hrest.head_ne (by decide)))]
  rfl

/-! ## Literals -/

theorem quotedRest_append (body : List Char) (hrest : rest.head? ≠ some '\'') :
    quotedRest (doubleQuotes body ++ '\'' :: rest) = .ok (body, rest) := by
  induction body with
  | nil =>
    show quotedRest ('\'' :: rest) = _
    unfold quotedRest
    rw [if_pos rfl]
    split
    · exact (hrest rfl).elim
    · rfl
  | cons c body ih =>
    unfold doubleQuotes
    by_cases hc : c = '\''
    · rw [if_pos hc]
      show quotedRest ('\'' :: '\'' :: (doubleQuotes body ++ '\'' :: rest)) = _
      unfold quotedRest
      rw [if_pos rfl]
      simp only [ih, hc]
    · rw [if_neg hc]
      show quotedRest (c :: (doubleQuotes body ++ '\'' :: rest)) = _
      unfold quotedRest
      rw [if_neg hc]
      simp only [ih]

theorem digits_append (hne : run ≠ []) (hrun : ∀ c ∈ run, c.isDigit = true)
    (hrest : Undigited rest) : digits (run ++ rest) = .ok (run, rest) := by
  refine check_eq_ok.mpr ⟨?_, ?_⟩
  · unfold chars
    rw [takeWhile_append_of_undigited hrun hrest, dropWhile_append_of_undigited hrun hrest]
  · cases run with
    | nil => exact (hne rfl).elim
    | cons c run => rfl

/-- The text of the number is digits on both sides of a point, which read back
to it, with a minus sign in front if it is negative. -/
def WrittenInFull (x : Double) : Prop :=
  ∃ whole fraction : List Char, isDigits whole = true ∧ isDigits fraction = true
    ∧ (DecimalStyle.plain.text x).toList
      = (if x.isNegative then ['-'] else []) ++ (whole ++ '.' :: fraction)
    ∧ Double.read? (whole ++ '.' :: fraction) = some (.ofMagnitude false x.magnitude)

theorem doubleLiteral_append (hwhole : isDigits whole) (hfraction : isDigits fraction)
    (hread : Double.read? (whole ++ '.' :: fraction) = some x) (hrest : Undigited rest) :
    doubleLiteral (whole ++ '.' :: fraction ++ rest) = .ok (.double x, rest) := by
  obtain ⟨hne, hdigits⟩ := isDigits_iff.mp hwhole
  obtain ⟨hne', hdigits'⟩ := isDigits_iff.mp hfraction
  refine convert_eq_ok.mpr ⟨whole ++ '.' :: fraction, ?_, by rw [hread]; rfl⟩
  rw [append_assoc]
  exact bind_ok (digits_append hne hdigits (undigited_cons (by decide))) <|
    bind_ok (exactly_eq_ok.mpr rfl) <| bind_ok (digits_append hne' hdigits' hrest) rfl

theorem doubleLiteral_fails (hrun : isDigits run) (hrest : Stops rest) :
    Fails doubleLiteral (run ++ rest) := by
  obtain ⟨hne, hdigits⟩ := isDigits_iff.mp hrun
  refine fails_of_not_ok fun _ _ hok => ?_
  obtain ⟨_, hok, -⟩ := convert_eq_ok.mp hok
  refine (Fails.after (digits_append hne hdigits hrest.undigited) ?_).not_ok hok
  exact (exactly_fails (hrest.head_ne (by decide)) (by decide)).bind

theorem readInt64?_toString (n : Nat) :
    readInt64? (toString n).toList = if (n : Int) ≤ maxInt64 then some (n : Int) else none := by
  have hdigits := isDigits_toString n
  have hvalue := digitsValue_toString n
  cases hchars : (toString n).toList with
  | nil => exact (toString_nat_ne_nil n hchars).elim
  | cons c run =>
    have hc : c.isDigit = true := isDigit_of_mem_toString (n := n) (hchars ▸ mem_cons_self)
    rw [hchars] at hdigits hvalue
    have hmin : minInt64 ≤ (n : Int) := Int.le_trans (by decide) (Int.natCast_nonneg n)
    unfold readInt64?
    rw [Double.splitSign_of_digit hc]
    simp [hdigits, hvalue, hmin]

theorem intLiteral_append (h : (n : Int) ≤ maxInt64) (hrest : Stops rest) :
    intLiteral ((toString n).toList ++ rest) = .ok (.int n, rest) := by
  obtain ⟨hne, hdigits⟩ := isDigits_iff.mp (isDigits_toString n)
  refine convert_eq_ok.mpr ⟨(toString n).toList, ?_, by rw [readInt64?_toString, if_pos h]; rfl⟩
  rw [bind_of_ok (digits_append hne hdigits hrest.undigited),
    bind_of_ok (notNext_eq_ok.mpr ⟨rfl, hrest.noName⟩)]
  rfl

theorem skipBlanks_digits (hrun : isDigits run) (rest : List Char) :
    skipBlanks (run ++ rest) = run ++ rest ∧ (run ++ rest).head? ≠ some '\'' := by
  obtain ⟨hne, hdigits⟩ := isDigits_iff.mp hrun
  cases run with
  | nil => exact (hne rfl).elim
  | cons c run =>
    have hc := hdigits c (.head _)
    have hblank : isBlank c = false ∧ c ≠ '\'' :=
      of_ascii (P := fun c => c.isDigit = true → isBlank c = false ∧ c ≠ '\'')
        (by decide) (ascii_of_isDigit hc) hc
    exact ⟨skipBlanks_cons hblank.1, fun h => hblank.2 (Option.some.inj h)⟩

theorem literal_append_double (hwhole : isDigits whole)
    (hfraction : isDigits fraction)
    (hread : Double.read? (whole ++ '.' :: fraction) = some x) (hrest : Stops rest) :
    literal (whole ++ '.' :: fraction ++ rest) = .ok (.double x, rest) := by
  obtain ⟨hskip, hquote⟩ := skipBlanks_digits hwhole ('.' :: fraction ++ rest)
  have hok := doubleLiteral_append hwhole hfraction hread hrest.undigited
  rw [append_assoc] at hok ⊢
  unfold literal
  rw [bind_of_ok (blanks_eq _), hskip]
  exact (orElse_of_fails (exactly_fails hquote (by decide)).bind).trans (orElse_of_ok hok)

theorem literal_append_int (h : (n : Int) ≤ maxInt64) (hrest : Stops rest) :
    literal ((toString n).toList ++ rest) = .ok (.int n, rest) := by
  obtain ⟨hskip, hquote⟩ := skipBlanks_digits (isDigits_toString n) rest
  unfold literal
  rw [bind_of_ok (blanks_eq _), hskip]
  exact (orElse_of_fails (exactly_fails hquote (by decide)).bind).trans
    ((orElse_of_fails (doubleLiteral_fails (isDigits_toString n) hrest)).trans
      (orElse_of_ok (intLiteral_append h hrest)))

theorem literal_append_string (value : String) (hrest : Stops rest) :
    literal ((quoted value).toList ++ rest) = .ok (.string value, rest) := by
  have hchars : (quoted value).toList ++ rest
      = '\'' :: (doubleQuotes value.toList ++ '\'' :: rest) := by
    simp [quoted]
  have hbody := quotedRest_append value.toList (hrest.head_ne (c := '\'') (by decide))
  rw [hchars]
  refine orElse_of_ok (bind_ok (exactly_eq_ok.mpr rfl) <| bind_ok hbody (pure_eq_ok.mpr ⟨?_, rfl⟩))
  rw [String.ofList_toList]

/-- A word that stands for a value, in any case. -/
theorem literal_append_constant (word : String)
    (hvalue : (word, value) ∈ [("true", .bool true), ("false", .bool false), ("null", .null)])
    {chars : List Char} (hchars : chars.map Char.toLower = word.toList)
    (hletters : ∀ c ∈ chars, isNameChar c = true ∧ c.isDigit = false) (hrest : Stops rest) :
    literal (chars ++ rest) = .ok (value, rest) := by
  have hname : ∀ c ∈ chars, isNameChar c = true := fun c hc => (hletters c hc).1
  have hne : chars ≠ [] := by
    rintro rfl
    obtain rfl : word = "" := String.toList_eq_nil_iff.mp hchars.symm
    simp at hvalue
  have hskip := skipBlanks_append hname hne rest
  have hnext : nextWord (chars ++ rest) = word.toList := by
    rw [nextWord_append hname hne hrest.noName, hchars]
  have hhead : ∀ c ∈ (skipBlanks (chars ++ rest)).head?, c ≠ '\'' ∧ c.isDigit = false := by
    rw [hskip]
    cases chars with
    | nil => exact (hne rfl).elim
    | cons c chars =>
      intro d hd
      obtain rfl := Option.some.inj hd
      obtain ⟨hc, hdigit⟩ := hletters c (.head _)
      refine ⟨?_, hdigit⟩
      rintro rfl
      exact absurd hc (by decide)
  have hok : ∀ (word' : String) (value' : Literal), word = word' → Lower word' →
      constant word' value' (chars ++ rest) = .ok (value', rest) := by
    rintro word' value' rfl hlower
    rw [constant_of_word hlower value' hnext, hskip, dropWhile_of_noName hname hrest.noName]
  have hfails : ∀ (word' : String) (value' : Literal), word ≠ word' → Lower word' →
      Fails (constant word' value') (chars ++ rest) :=
    fun word' value' hne hlower => (keyword_fails_of_word hnext hlower hne).bind
  rw [literal_eq hhead, hskip]
  simp only [mem_cons, Prod.mk.injEq, not_mem_nil, or_false] at hvalue
  rcases hvalue with ⟨rfl, rfl⟩ | ⟨rfl, rfl⟩ | ⟨rfl, rfl⟩
  · exact orElse_of_ok (hok _ _ rfl (by decide))
  · exact (orElse_of_fails (hfails _ _ (by decide) (by decide))).trans
      (orElse_of_ok (hok _ _ rfl (by decide)))
  · exact (orElse_of_fails (hfails _ _ (by decide) (by decide))).trans
      ((orElse_of_fails (hfails _ _ (by decide) (by decide))).trans (hok _ _ rfl (by decide)))

theorem literal_append (hvalue : Unsigned value)
    (hdouble : ∀ x, value = .double x → WrittenInFull x) (hrest : Stops rest) :
    literal (value.text.toList ++ rest) = .ok (value, rest) := by
  cases value with
  | null => exact literal_append_constant "null" (by decide) (by decide) (by decide) hrest
  | bool value =>
    cases value with
    | true => exact literal_append_constant "true" (by decide) (by decide) (by decide) hrest
    | false => exact literal_append_constant "false" (by decide) (by decide) (by decide) hrest
  | int n =>
    obtain ⟨hnonneg, hmax⟩ := hvalue
    obtain ⟨n, rfl⟩ := Int.eq_ofNat_of_zero_le hnonneg
    exact literal_append_int hmax hrest
  | double x =>
    obtain ⟨whole, fraction, hwhole, hfraction, htext, hread⟩ := hdouble x rfl
    have hsign : x.isNegative = false := hvalue
    have hself : Double.ofMagnitude false x.magnitude = x := by
      rw [← hsign]
      exact x.ofMagnitude_magnitude
    rw [hself] at hread
    simp only [hsign, Bool.false_eq_true, if_false, nil_append] at htext
    rw [Literal.text, htext]
    exact literal_append_double hwhole hfraction hread hrest
  | string value => exact literal_append_string value hrest

/-! ## Parameters -/

theorem parameter_append_named {name : String} (hname : IsName name) (hrest : Stops rest) :
    parameter ((Expr.named name).text.toList ++ rest) = .ok (.named name, rest) := by
  have hread : namedParameter (':' :: (name.toList ++ rest)) = .ok (.named name, rest) :=
    bind_ok (exactly_eq_ok.mpr rfl) <| bind_ok (name_append hname hrest.noName) rfl
  rw [Expr.text, String.toList_append, append_assoc]
  exact orElse_of_ok hread

theorem namedParameter_fails (rest : List Char) : Fails namedParameter ('?' :: rest) := by
  have hcolon : Fails (exactly ":") ('?' :: rest) :=
    exactly_fails (show some '?' ≠ some ':' by decide) (by decide)
  exact hcolon.bind

theorem readBelow?_toString {bound : Nat} (h : n < bound) :
    readBelow? bound (toString n).toList = some n := by
  have hdigits := isDigits_toString n
  have hvalue := digitsValue_toString n
  unfold readBelow?
  split
  · rename_i run hchars
    rw [hchars] at hdigits
    cases hdigits
  · dsimp only
    rw [hdigits, hvalue]
    simp [h]

theorem parameter_append_ordinal {position : Nat} (h : position < Nat.pow 2 32)
    (hrest : Stops rest) :
    parameter ((Expr.ordinal position).text.toList ++ rest) = .ok (.ordinal position, rest) := by
  obtain ⟨hne, hdigits⟩ := isDigits_iff.mp (isDigits_toString position)
  have hread : ordinalParameter ('?' :: ((toString position).toList ++ rest))
      = .ok (.ordinal position, rest) :=
    convert_eq_ok.mpr ⟨(toString position).toList, bind_ok (exactly_eq_ok.mpr rfl)
        (digits_append hne hdigits hrest.undigited), by rw [readBelow?_toString h]; rfl⟩
  have hnamed := namedParameter_fails ((toString position).toList ++ rest)
  rw [Expr.text, String.toList_append, append_assoc]
  exact (orElse_of_fails hnamed).trans (orElse_of_ok hread)

theorem parameter_append_legacy (hrest : Stops rest) :
    parameter (Expr.legacy.text.toList ++ rest) = .ok (.legacy, rest) := by
  have hordinal : Fails ordinalParameter ('?' :: rest) := by
    refine fails_of_not_ok fun _ _ hok => ?_
    obtain ⟨_, hok, -⟩ := convert_eq_ok.mp hok
    refine (Fails.after (exactly_eq_ok.mpr rfl) (digits_fails fun c hc => ?_)).not_ok hok
    exact (hrest.undigited _ _ (head?_eq_some_iff.mp hc).choose_spec)
  exact (orElse_of_fails (namedParameter_fails rest)).trans ((orElse_of_fails hordinal).trans
    (bind_of_ok (exactly_eq_ok.mpr rfl)))

end EntityQuery.Query
