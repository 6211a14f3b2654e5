import EntityQuery.Text.Case

/-!
# Lower case and ASCII

Lower-casing keeps texts apart from ASCII that are not in it, with one
exception: the Kelvin sign is a letter beyond ASCII whose lower case is the
letter `k`. So a text whose lower case is in ASCII is made of ASCII characters
and Kelvin signs (`lowercase_of_isAscii`), and the Kelvin signs are lost, since
no text in lower case has one.

Both facts come down to the table of letters, whose runs are checked one by
one.
-/

namespace EntityQuery.Text

open List

variable {c : Char} {code : Nat} {text : String}

/-- To check all characters of a text, go through the text and not through all
characters there are. -/
instance (priority := 2000) decidableForallMem (text : List Char) (P : Char → Prop) [DecidablePred P] :
    Decidable (∀ c ∈ text, P c) :=
  List.decidableBAll P text

/-- The letter beyond ASCII whose lower case is in ASCII. -/
def kelvin : Char := '\u212a'

/-- All characters of the text are in ASCII. -/
def IsAscii (text : List Char) : Prop :=
  ∀ c ∈ text, c.toNat < 0x80

instance (text : List Char) : Decidable (IsAscii text) :=
  inferInstanceAs (Decidable (∀ c ∈ text, c.toNat < 0x80))

/-- What holds of the first 128 characters. -/
theorem of_ascii {P : Char → Prop} (h : ∀ n < 0x80, P (Char.ofNat n)) (hc : c.toNat < 0x80) :
    P c := by
  have hn := h c.toNat hc
  rwa [Char.ofNat_toNat] at hn

theorem ascii_of_isDigit (h : c.isDigit) : c.toNat < 0x80 := by
  simp only [Char.isDigit, Bool.and_eq_true, decide_eq_true_eq] at h
  have hle : c.val.toNat ≤ '9'.val.toNat := h.2
  have hnine : '9'.val.toNat < 0x80 := by decide
  exact Nat.lt_of_le_of_lt hle hnine

theorem ascii_of_isLower (h : c.isLower) : c.toNat < 0x80 := by
  have hbounds : (decide ('a'.val ≤ c.val) && decide (c.val ≤ 'z'.val)) = true := h
  simp only [Bool.and_eq_true, decide_eq_true_eq] at hbounds
  have hle : c.val.toNat ≤ 'z'.val.toNat := hbounds.2
  have hz : 'z'.val.toNat < 0x80 := by decide
  exact Nat.lt_of_le_of_lt hle hz

/-! ## ASCII letters -/

theorem toLower_of_not_ascii (h : ¬ c.toNat < 0x80) : c.toLower = c := by
  unfold Char.toLower
  refine dif_neg fun hc => h ?_
  have hle : c.val.toNat ≤ 'Z'.val.toNat := hc.2
  have hz : 'Z'.val.toNat < 0x80 := by decide
  exact Nat.lt_of_le_of_lt hle hz

theorem toNat_toLower_lt (h : c.toNat < 0x80) : c.toLower.toNat < 0x80 :=
  of_ascii (P := fun c => c.toLower.toNat < 0x80) (by decide) h

theorem ascii_of_toLower (h : c.toLower.toNat < 0x80) : c.toNat < 0x80 := by
  by_cases hc : c.toNat < 0x80
  · exact hc
  · rwa [toLower_of_not_ascii hc] at h

theorem toLower_toLower (c : Char) : c.toLower.toLower = c.toLower := by
  by_cases hc : c.toNat < 0x80
  · exact of_ascii (P := fun c => c.toLower.toLower = c.toLower) (by decide) hc
  · rw [toLower_of_not_ascii hc, toLower_of_not_ascii hc]

theorem lowerAscii_lowerAscii (text : String) : lowerAscii (lowerAscii text) = lowerAscii text := by
  rw [← String.toList_inj]
  unfold lowerAscii
  rw [String.toList_ofList, String.toList_ofList, map_map]
  exact map_congr_left fun c _ => toLower_toLower c

theorem toLower_ne_kelvin (h : c.toNat < 0x80) : c.toLower ≠ kelvin := by
  intro heq
  have hlt := toNat_toLower_lt h
  rw [heq] at hlt
  exact absurd hlt (by decide)

/-! ## The table of letters -/

/-- The runs stay clear of ASCII, of the Kelvin sign and of what is no
character. Only the run of the Kelvin sign itself leads into ASCII. -/
def CaseRun.clear (run : CaseRun) : Bool :=
  let low : Int := run.first + run.offset
  let high : Int := run.last + run.offset
  (decide (0x80 ≤ low) || (run.first == 0x212a && run.last == 0x212a))
    && (decide (high < 0x212a) || decide (0x212a < low))
    && (decide (high < 0xd800) || (decide (0xdfff < low) && decide (high < 0x110000)))

theorem caseRuns_clear : ∀ run ∈ caseRuns, run.clear = true := by
  decide +kernel

/-- Where the table leads to. -/
theorem exists_run_of_findSome? {lower : Nat}
    (h : (caseRuns.findSome? fun run => run.lower? code) = some lower) :
    ∃ run ∈ caseRuns, run.first ≤ code ∧ code ≤ run.last
      ∧ lower = ((code : Int) + run.offset).toNat := by
  obtain ⟨run, hrun, hlower⟩ := exists_of_findSome?_eq_some h
  unfold CaseRun.lower? at hlower
  split at hlower
  · rename_i hcovers
    simp only [Bool.and_eq_true, decide_eq_true_eq] at hcovers
    exact ⟨run, hrun, hcovers.1.1, hcovers.1.2, (Option.some.inj hlower).symm⟩
  · cases hlower

theorem toNat_ofNat_of_valid (h : code < 0xd800 ∨ 0xdfff < code ∧ code < 0x110000) :
    (Char.ofNat code).toNat = code := by
  unfold Char.ofNat
  rw [dif_pos h]
  show (BitVec.ofNatLT code _).toNat = code
  exact BitVec.toNat_ofNatLT ..

/-- A letter of the table becomes another character that is not the Kelvin sign,
and not in ASCII unless the letter is the Kelvin sign. -/
theorem toNat_of_findSome? {lower : Nat}
    (h : (caseRuns.findSome? fun run => run.lower? code) = some lower) :
    (Char.ofNat lower).toNat ≠ 0x212a
      ∧ ((Char.ofNat lower).toNat < 0x80 → code = 0x212a) := by
  obtain ⟨run, hrun, hfirst, hlast, rfl⟩ := exists_run_of_findSome? h
  have hclear := caseRuns_clear run hrun
  simp only [CaseRun.clear, Bool.and_eq_true, Bool.or_eq_true, decide_eq_true_eq,
    beq_iff_eq] at hclear
  obtain ⟨⟨hascii, hkelvin⟩, hvalid⟩ := hclear
  rw [toNat_ofNat_of_valid (by omega)]
  constructor
  · omega
  · intro hlt
    rcases hascii with hascii | ⟨hfirst', hlast'⟩ <;> omega

/-! ## Lower case -/

theorem lowerChar_of_ascii (h : c.toNat < 0x80) : lowerChar c = [c.toLower] := by
  unfold lowerChar
  exact if_pos h

theorem lowerChar_kelvin : lowerChar kelvin = ['k'] := by
  decide +kernel

theorem kelvin_notMem_lowerChar (c : Char) : kelvin ∉ lowerChar c := by
  unfold lowerChar
  split
  · rename_i hc
    rw [mem_singleton]
    exact (toLower_ne_kelvin hc).symm
  · split
    · decide
    · split
      · rename_i lower hlower
        rw [mem_singleton]
        intro heq
        exact (toNat_of_findSome? hlower).1 (heq ▸ rfl)
      · rename_i hnone
        rw [mem_singleton]
        rintro rfl
        exact absurd hnone (by decide +kernel)

/-- Where an ASCII character in lower case comes from. -/
theorem ascii_of_mem_lowerChar {d : Char} (hd : d ∈ lowerChar c) (hascii : d.toNat < 0x80) :
    c.toNat < 0x80 ∨ c = kelvin ∨ d = 'i' := by
  by_cases hc : c.toNat < 0x80
  · exact .inl hc
  · refine .inr ?_
    unfold lowerChar at hd
    rw [if_neg hc] at hd
    split at hd
    · rcases mem_cons.mp hd with rfl | hd
      · exact .inr rfl
      · obtain rfl := mem_singleton.mp hd
        exact absurd hascii (by decide)
    · split at hd
      · rename_i lower hlower
        obtain rfl := mem_singleton.mp hd
        exact .inl (Char.toNat_inj.mp ((toNat_of_findSome? hlower).2 hascii))
      · obtain rfl := mem_singleton.mp hd
        exact (hc hascii).elim

/-- Only ASCII characters and the Kelvin sign become ASCII. -/
theorem ascii_or_kelvin_of_lowerChar (h : IsAscii (lowerChar c)) : c.toNat < 0x80 ∨ c = kelvin := by
  by_cases hc : c.toNat < 0x80
  · exact .inl hc
  · refine .inr ?_
    unfold lowerChar at h
    rw [if_neg hc] at h
    split at h
    · have hdot := h '\u0307' (by decide)
      exact absurd hdot (by decide)
    · split at h
      · rename_i lower hlower
        have hcode := (toNat_of_findSome? hlower).2 (h _ (.head _))
        exact Char.toNat_inj.mp hcode
      · exact (hc (h c (.head _))).elim

/-- An ASCII character in lower case, and the letter `k` for the Kelvin sign. -/
def asciiLower (c : Char) : Char :=
  if c = kelvin then 'k' else c.toLower

theorem lowerChar_eq_asciiLower (h : c.toNat < 0x80 ∨ c = kelvin) :
    lowerChar c = [asciiLower c] := by
  unfold asciiLower
  rcases h with h | rfl
  · have hne : c ≠ kelvin := by
      rintro rfl
      exact absurd h (by decide)
    rw [if_neg hne, lowerChar_of_ascii h]
  · rw [if_pos rfl, lowerChar_kelvin]

theorem lowerSigma_not_ascii (before after : List Char) :
    ¬ (lowerSigma before after).toNat < 0x80 ∧ lowerSigma before after ≠ kelvin := by
  unfold lowerSigma
  split <;> decide

theorem kelvin_notMem_lowerAfter : ∀ {text before : List Char}, kelvin ∉ lowerAfter before text
  | [], _ => not_mem_nil
  | c :: rest, before => by
    unfold lowerAfter
    rw [mem_append, not_or]
    refine ⟨?_, kelvin_notMem_lowerAfter⟩
    split
    · rw [mem_singleton]
      exact (lowerSigma_not_ascii before rest).2.symm
    · exact kelvin_notMem_lowerChar c

theorem lowerAfter_of_isAscii : ∀ {text before : List Char}, IsAscii (lowerAfter before text) →
    lowerAfter before text = text.map asciiLower ∧ ∀ c ∈ text, c.toNat < 0x80 ∨ c = kelvin
  | [], _, _ => ⟨rfl, forall_mem_nil _⟩
  | c :: rest, before, h => by
    unfold lowerAfter at h ⊢
    have hhead : IsAscii (if c == 'Σ' then [lowerSigma before rest] else lowerChar c) :=
      fun d hd => h d (mem_append_left _ hd)
    have hrest : IsAscii (lowerAfter (c :: before) rest) :=
      fun d hd => h d (mem_append_right _ hd)
    obtain ⟨htext, hascii⟩ := lowerAfter_of_isAscii hrest
    by_cases hsigma : (c == 'Σ') = true
    · rw [if_pos hsigma] at hhead
      exact ((lowerSigma_not_ascii before rest).1 (hhead _ (.head _))).elim
    · rw [if_neg hsigma] at hhead ⊢
      have hc := ascii_or_kelvin_of_lowerChar hhead
      rw [lowerChar_eq_asciiLower hc, htext]
      exact ⟨rfl, forall_mem_cons.mpr ⟨hc, hascii⟩⟩

theorem kelvin_notMem_lowercase (text : String) : kelvin ∉ (lowercase text).toList := by
  unfold lowercase
  rw [String.toList_ofList]
  exact kelvin_notMem_lowerAfter

/-- A text whose lower case is in ASCII. -/
theorem lowercase_of_isAscii (h : IsAscii (lowercase text).toList) :
    (lowercase text).toList = text.toList.map asciiLower
      ∧ ∀ c ∈ text.toList, c.toNat < 0x80 ∨ c = kelvin := by
  unfold lowercase at h ⊢
  rw [String.toList_ofList] at h ⊢
  exact lowerAfter_of_isAscii h

/-- Without Kelvin signs it makes no difference how the text is lower-cased. -/
theorem lowercase_eq_lowerAscii (h : IsAscii (lowercase text).toList)
    (hkelvin : kelvin ∉ text.toList) : lowercase text = lowerAscii text := by
  rw [← String.toList_inj, (lowercase_of_isAscii h).1, lowerAscii, String.toList_ofList]
  refine map_congr_left fun c hc => ?_
  unfold asciiLower
  rw [if_neg]
  rintro rfl
  exact hkelvin hc

/-- Nothing is left to do for an ASCII text in lower case. -/
theorem lowercase_lowercase (h : IsAscii (lowercase text).toList) :
    lowercase (lowercase text) = lowercase text := by
  have hself : ∀ {chars before : List Char}, (∀ c ∈ chars, c.toNat < 0x80 ∧ c.toLower = c) →
      lowerAfter before chars = chars := by
    intro chars
    induction chars with
    | nil => exact fun _ => rfl
    | cons c rest ih =>
      intro before hchars
      obtain ⟨⟨hascii, hlower⟩, hrest⟩ := forall_mem_cons.mp hchars
      have hsigma : ¬ (c == 'Σ') = true := by
        intro heq
        rw [beq_iff_eq.mp heq] at hascii
        exact absurd hascii (by decide)
      unfold lowerAfter
      rw [if_neg hsigma, lowerChar_of_ascii hascii, hlower, ih hrest]
      rfl
  have hlower : ∀ c ∈ (lowercase text).toList, c.toNat < 0x80 ∧ c.toLower = c := by
    intro c hc
    refine ⟨h c hc, ?_⟩
    rw [(lowercase_of_isAscii h).1] at hc
    obtain ⟨d, hd, rfl⟩ := mem_map.mp hc
    unfold asciiLower
    split
    · decide
    · exact toLower_toLower d
  rw [← String.toList_inj]
  show (String.ofList (lowerAfter [] (lowercase text).toList)).toList = _
  rw [String.toList_ofList, hself hlower]

theorem lowerAscii_lowercase (h : IsAscii (lowercase text).toList) :
    lowerAscii (lowercase text) = lowercase text := by
  have hself := lowercase_lowercase h
  have hascii : IsAscii (lowercase (lowercase text)).toList := by
    rw [hself]
    exact h
  rw [← lowercase_eq_lowerAscii hascii (kelvin_notMem_lowercase text), hself]

end EntityQuery.Text
