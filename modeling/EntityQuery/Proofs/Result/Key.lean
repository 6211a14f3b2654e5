import EntityQuery.Proofs.Number.Plain
import EntityQuery.Proofs.Projection
import EntityQuery.Proofs.Time.Writing
import EntityQuery.Result.Merge

/-!
# Keys tell rows apart

The key of a row is one text, put together from the texts of its values. The
texts may hold the marks that separate them, and a name of an entity may be any
text at all, so that a key cannot be taken apart from its beginning. It can be
taken apart from its end: a value ends a key with its own text, and what stands
before that text is one of the marks `#`, `(` and blank, none of which can be
followed by the whole text of a value inside the text of another
(`Value.keyText_inj`). The parts of a key are then found one after the other,
the last one first (`FoundFromEnd.joined`).

Two rows of one plan have the same key if and only if they agree in what
identifies their values; doubles count by their text.
-/

namespace EntityQuery

open List

variable {before before' : List Char} {c : Char}

/-! ## Identities -/

/-- A value as it counts for identity: a double by its text. -/
inductive Mark where
  | number (text : String)
  | plain (value : Value)
  deriving Repr, DecidableEq

def Value.mark : Value → Mark
  | .double x => .number (DecimalStyle.sql.text x)
  | value => .plain value

/-- What identifies a value of a result: entity and identifier, or else the
value itself. -/
inductive Identity where
  | scalar (mark : Mark)
  | component (component : String) (fields : List (String × Mark))
  | entity (entity : String) (id : Mark)
  deriving Repr, DecidableEq

def ResultValue.identity : ResultValue → Identity
  | .scalar value => .scalar value.mark
  | .component component fields =>
    .component component (fields.map fun (field, value) => (field, value.mark))
  | .reference owner id => .entity owner id.mark
  | .entity found => .entity found.entity found.id.mark

/-- The text of a mark in a key. -/
def Mark.text : Mark → String
  | .number text => "Float(" ++ text ++ ")"
  | .plain value => value.keyText

theorem Value.keyText_eq (value : Value) : value.keyText = value.mark.text := by
  cases value <;> rfl

/-- The text of an identity in a key. -/
def Identity.text : Identity → String
  | .scalar mark => "Scalar(" ++ mark.text ++ ")"
  | .component name fields =>
    componentKeyText name (fields.map fun (field, mark) => quoted field ++ ": " ++ mark.text)
  | .entity name id => name ++ "#" ++ id.text

theorem ResultValue.keyText_eq (value : ResultValue) : value.keyText = value.identity.text := by
  cases value with
  | scalar value => rw [keyText, value.keyText_eq]; rfl
  | component name fields =>
    refine congrArg (componentKeyText name) ?_
    rw [map_map]
    exact map_congr_left fun entry _ =>
      congrArg (fun text => quoted entry.1 ++ ": " ++ text) entry.2.keyText_eq
  | reference owner id => rw [keyText, id.keyText_eq]; rfl
  | entity found => rw [keyText, found.id.keyText_eq]; rfl

/-! ## Plain texts -/

theorem Plain.ofTimestamp (t : Timestamp) : Plain t.jsonText.toList := by
  have hfraction : Plain (Timestamp.fractionText t.time.nano).toList := by
    unfold Timestamp.fractionText
    split
    · decide
    · split
      · rw [String.toList_append]
        exact append (by decide) (zeroPadded _ _)
      · split <;> (rw [String.toList_append]; exact append (by decide) (zeroPadded _ _))
  have hyear : Plain (Date.yearText t.date.year).toList := by
    simp only [Date.yearText, String.toList_append]
    refine append ?_ (zeroPadded _ _)
    split
    · decide
    · split <;> decide
  have hdate : Plain t.date.text.toList := by
    simp only [Date.text, String.toList_append]
    refine append (append (append (append hyear ?_) (zeroPadded _ _)) ?_) (zeroPadded _ _) <;> decide
  have hclock : Plain t.time.clockText.toList := by
    simp only [TimeOfDay.clockText, String.toList_append]
    refine append (append (append (append (zeroPadded _ _) ?_) (zeroPadded _ _)) ?_)
      (zeroPadded _ _) <;> decide
  simp only [Timestamp.jsonText, Timestamp.textWith, String.toList_append]
  exact ((hdate.append (by decide)).append hclock).append hfraction

/-! ## The text of a value -/

theorem cut_inj_right {before before' after after' : List Char} (h : c ∉ after) (h' : c ∉ after')
    (heq : before ++ c :: after = before' ++ c :: after') :
    before = before' ∧ after = after' := by
  have hreverse := congrArg reverse heq
  simp only [reverse_append, reverse_cons, append_assoc, singleton_append]
    at hreverse
  obtain ⟨hafter, hbefore⟩ := Projection.cut_inj (by simpa using h) (by simpa using h') hreverse
  exact ⟨reverse_injective hbefore, reverse_injective hafter⟩

/-- Texts that are the same end alike. -/
theorem last_eq (inner inner' : List Char) {d : Char}
    (h : before ++ (inner ++ [c]) = before' ++ (inner' ++ [d])) : c = d := by
  have hlast := congrArg getLast? h
  simpa using hlast

/-- The characters of a text between its quotes. -/
def escaped (text : List Char) : List Char :=
  text.flatMap fun c => if c = '"' ∨ c = '\\' then ['\\', c] else [c]

theorem toList_quoted (text : String) :
    (quoted text).toList = '"' :: (escaped text.toList ++ ['"']) := by
  simp [quoted, escaped]

theorem escaped_cons (c : Char) (rest : List Char) : escaped (c :: rest)
    = (if c = '"' ∨ c = '\\' then ['\\', c] else [c]) ++ escaped rest := rfl

theorem escaped_injective : ∀ {text text' : List Char}, escaped text = escaped text' → text = text'
  | [], [], _ => rfl
  | [], c :: rest, h | c :: rest, [], h => by
    rw [escaped_cons] at h
    split at h <;> simp [escaped] at h
  | c :: rest, c' :: rest', h => by
    rw [escaped_cons, escaped_cons] at h
    by_cases hc : c = '"' ∨ c = '\\' <;> by_cases hc' : c' = '"' ∨ c' = '\\'
    · simp only [hc, hc', if_true, cons_append, nil_append, cons.injEq, true_and] at h
      rw [h.1, escaped_injective h.2]
    · simp only [hc, hc', if_true, if_false, cons_append, nil_append, cons.injEq] at h
      exact (hc' (.inr h.1.symm)).elim
    · simp only [hc, hc', if_true, if_false, cons_append, nil_append, cons.injEq] at h
      exact (hc (.inr h.1)).elim
    · simp only [hc, hc', if_false, cons_append, nil_append, cons.injEq] at h
      rw [h.1, escaped_injective h.2]

theorem escaped_ne_quote (text after : List Char) : escaped text ≠ '"' :: after := by
  cases text with
  | nil => simp [escaped]
  | cons c rest =>
    rw [escaped_cons]
    by_cases hc : c = '"' ∨ c = '\\'
    · simp [hc]
    · rw [if_neg hc]
      intro h
      exact hc (.inl (cons.inj h).1)

/-- Between quotes, a quote comes after a backslash. -/
theorem eq_backslash_of_escaped : ∀ {text before after : List Char} {c : Char},
    escaped text = before ++ c :: '"' :: after → c = '\\'
  | [], before, after, c, h => by simp [escaped] at h
  | d :: rest, before, after, c, h => by
    rw [escaped_cons] at h
    by_cases hd : d = '"' ∨ d = '\\'
    · rw [if_pos hd] at h
      match before, h with
      | [], h => exact (cons.inj h).1.symm
      | [_], h =>
        have htail := (cons.inj (cons.inj h).2).2
        exact (escaped_ne_quote rest after htail).elim
      | _ :: _ :: before, h =>
        exact eq_backslash_of_escaped (cons.inj (cons.inj h).2).2
    · rw [if_neg hd] at h
      match before, h with
      | [], h => exact (escaped_ne_quote rest after (cons.inj h).2).elim
      | _ :: before, h => exact eq_backslash_of_escaped (cons.inj h).2

namespace Value

/-- What a value other than null starts its text with. -/
def tag : Value → List Char
  | .null => []
  | .bool _ => ['B', 'o', 'o', 'l']
  | .int _ => ['I', 'n', 't']
  | .double _ => ['F', 'l', 'o', 'a', 't']
  | .string _ => ['S', 't', 'r', 'i', 'n', 'g']
  | .timestamp _ => ['T', 'i', 'm', 'e', 's', 't', 'a', 'm', 'p']

/-- What stands in parentheses in the text of a value other than null. -/
def body : Value → List Char
  | .null => []
  | .bool value => (toString value).toList
  | .int value => (toString value).toList
  | .double value => (DecimalStyle.sql.text value).toList
  | .string value => (quoted value).toList
  | .timestamp value => value.jsonText.toList

theorem toList_keyText {value : Value} (h : value ≠ .null) :
    value.keyText.toList = value.tag ++ '(' :: (value.body ++ [')']) := by
  cases value
  case null => exact (h rfl).elim
  all_goals
    rw [keyText, String.toList_append, String.toList_append]
    simp [tag, body]

theorem plain_tag (value : Value) : Plain value.tag := by
  cases value <;> (simp only [tag]; decide)

/-- Only a text has something else than plain characters in parentheses. -/
theorem plain_body {value : Value} (h : ∀ text, value ≠ .string text) : Plain value.body := by
  cases value with
  | null => simp only [body]; decide
  | bool value => exact .ofBool value
  | int value => exact (Numeric.ofInt value).plain
  | double value => exact (Numeric.ofDouble _ value).plain
  | string text => exact (h text rfl).elim
  | timestamp value => exact .ofTimestamp value

/-- What stands in parentheses tells a value of a given kind. -/
theorem mark_eq_of_body {value value' : Value} (hnull : value ≠ .null) (hnull' : value' ≠ .null)
    (htag : value.tag = value'.tag) (hbody : value.body = value'.body) :
    value.mark = value'.mark := by
  cases value <;> cases value' <;> simp only [tag, reduceCtorEq, ne_eq, cons.injEq,
    Char.reduceEq, false_and, not_true_eq_false] at htag hnull hnull'
  case bool.bool x y =>
    cases x <;> cases y <;> first | rfl | exact absurd hbody (by decide)
  case int.int x y =>
    rw [toString_int_injective (String.toList_injective hbody)]
  case double.double x y =>
    exact congrArg Mark.number (String.toList_injective hbody)
  case string.string x y =>
    rw [body, body, toList_quoted, toList_quoted] at hbody
    have hescaped := append_cancel_right (cons.inj hbody).2
    rw [String.toList_injective (escaped_injective hescaped)]
  case timestamp.timestamp x y =>
    rw [Timestamp.jsonText_injective (String.toList_injective hbody)]

/-- Two quoted texts that end alike and stand after an opening parenthesis start
in the same place: a quote inside either of them would come after a backslash. -/
theorem cut_quoted {before before' text text' : List Char}
    (h : before ++ '(' :: '"' :: escaped text = before' ++ '(' :: '"' :: escaped text') :
    before = before' ∧ escaped text = escaped text' := by
  -- One of the two parentheses cannot stand behind the other.
  have hbehind : ∀ {before before' text text' : List Char} (more : List Char),
      before' ++ ['('] = before ++ ['('] ++ more →
      '"' :: escaped text = more ++ '"' :: escaped text' → more = [] := by
    intro before before' text text' more hbefore htext
    cases more with
    | nil => rfl
    | cons c rest =>
      rw [cons_append] at htext
      obtain ⟨rfl, htail⟩ := cons.inj htext
      rcases eq_nil_or_concat rest with rfl | ⟨inner, d, rfl⟩
      · exact absurd (last_eq [] [] hbefore) (by decide)
      · rw [concat_eq_append, ← cons_append] at hbefore
        obtain rfl := last_eq [] _ hbefore
        rw [concat_eq_append, append_assoc, singleton_append] at htail
        exact absurd (eq_backslash_of_escaped htail) (by decide)
  have hsplit : (before ++ ['(']) ++ '"' :: escaped text
      = (before' ++ ['(']) ++ '"' :: escaped text' := by
    simpa using h
  rcases append_eq_append_iff.mp hsplit with ⟨more, hbefore, htext⟩ | ⟨more, hbefore, htext⟩
  · obtain rfl := hbehind more hbefore htext
    rw [append_nil] at hbefore
    exact ⟨(append_cancel_right hbefore).symm, (cons.inj htext).2⟩
  · obtain rfl := hbehind more hbefore htext
    rw [append_nil] at hbefore
    exact ⟨append_cancel_right hbefore, (cons.inj htext).2.symm⟩

/-- Null ends a text with a letter, all other values with a parenthesis. -/
theorem append_keyText_null_ne (before before' : List Char) {value : Value} (h : value ≠ .null) :
    before ++ Value.null.keyText.toList ≠ before' ++ value.keyText.toList := by
  intro heq
  have hends : before ++ (['N', 'u', 'l'] ++ ['l'])
      = before' ++ (value.tag ++ '(' :: value.body ++ [')']) := by
    rw [toList_keyText h] at heq
    simpa [keyText] using heq
  exact absurd (last_eq _ _ hends) (by decide)

/-- Only a text ends with a quote inside its parentheses. -/
theorem append_body_string_ne {text : String} {value : Value} (h : ¬∃ text, value = .string text) :
    before ++ '(' :: (Value.string text).body ≠ before' ++ '(' :: value.body := by
  intro heq
  have hplain := plain_body fun text heq => h ⟨text, heq⟩
  have hquote : (Value.string text).body = '"' :: escaped text.toList ++ ['"'] := toList_quoted text
  rw [hquote, ← cons_append] at heq
  rcases eq_nil_or_concat value.body with hnil | ⟨inner, d, hbody⟩
  · rw [hnil] at heq
    exact absurd (last_eq _ [] heq) (by decide)
  · rw [hbody, concat_eq_append, ← cons_append] at heq
    have hd : isPlain d = true := hplain d (by simp [hbody])
    rw [← last_eq _ _ heq] at hd
    exact absurd hd (by decide)

/-- The text of a value at the end of a text, after a mark that is no plain
character, is found from the end. -/
theorem keyText_inj (hc : isPlain c = false) {value value' : Value}
    (h : before ++ c :: value.keyText.toList = before' ++ c :: value'.keyText.toList) :
    before = before' ∧ value.mark = value'.mark := by
  by_cases hnull : value = .null <;> by_cases hnull' : value' = .null
  · rw [hnull, hnull'] at h
    exact ⟨append_cancel_right h, by rw [hnull, hnull']⟩
  · rw [hnull] at h
    refine (append_keyText_null_ne (before ++ [c]) (before' ++ [c]) hnull' ?_).elim
    simpa using h
  · rw [hnull'] at h
    refine (append_keyText_null_ne (before' ++ [c]) (before ++ [c]) hnull ?_).elim
    simpa using h.symm
  · rw [toList_keyText hnull, toList_keyText hnull'] at h
    have htags : before ++ c :: value.tag = before' ++ c :: value'.tag →
        value.body = value'.body → before = before' ∧ value.mark = value'.mark := by
      intro htag hbody
      obtain ⟨hbefore, htag⟩ := cut_inj_right (value.plain_tag.notMem hc)
        (value'.plain_tag.notMem hc) htag
      exact ⟨hbefore, mark_eq_of_body hnull hnull' htag hbody⟩
    have hbodies : (before ++ c :: value.tag) ++ '(' :: value.body
        = (before' ++ c :: value'.tag) ++ '(' :: value'.body := by
      refine (append_left_inj [')']).mp ?_
      simpa using h
    by_cases hstring : ∃ text, value = .string text <;>
      by_cases hstring' : ∃ text, value' = .string text
    · obtain ⟨text, rfl⟩ := hstring
      obtain ⟨text', rfl⟩ := hstring'
      have hquoted : (before ++ c :: tag (.string text)) ++ '(' :: '"' :: escaped text.toList
          = (before' ++ c :: tag (.string text')) ++ '(' :: '"' :: escaped text'.toList := by
        rw [body, body, toList_quoted, toList_quoted] at hbodies
        refine (append_left_inj ['"']).mp ?_
        simpa using hbodies
      obtain ⟨htag, hescaped⟩ := cut_quoted hquoted
      refine htags htag ?_
      rw [body, body, toList_quoted, toList_quoted, hescaped]
    · obtain ⟨text, rfl⟩ := hstring
      exact (append_body_string_ne hstring' hbodies).elim
    · obtain ⟨text', rfl⟩ := hstring'
      exact (append_body_string_ne hstring hbodies.symm).elim
    · have hopen : isPlain '(' = false := by decide
      obtain ⟨htag, hbody⟩ := cut_inj_right
        ((plain_body fun text heq => hstring ⟨text, heq⟩).notMem hopen)
        ((plain_body fun text heq => hstring' ⟨text, heq⟩).notMem hopen) hbodies
      exact htags htag hbody

end Value

/-! ## The parts of a key -/

section Joined

variable {ι α β : Type} {Fits : ι → α → Prop} {text : α → String} {f : α → β}

/-- Where a text ends with the text of a part of a known shape, one can tell where
the part starts and what it stands for. -/
def FoundFromEnd (Fits : ι → α → Prop) (text : α → String) (f : α → β) : Prop :=
  ∀ (i : ι) (a b : α) (before before' : List Char), Fits i a → Fits i b →
    before ++ (text a).toList = before' ++ (text b).toList → before = before' ∧ f a = f b

theorem toList_intercalate_concat (separator : String) (parts : List String) (last : String)
    (h : parts ≠ []) : (separator.intercalate (parts ++ [last])).toList
      = (separator.intercalate parts).toList ++ separator.toList ++ last.toList := by
  rw [String.intercalate_append_of_ne_nil h (by simp), String.intercalate_singleton,
    String.toList_append, String.toList_append]

/-- Parts that are found from the end of a text are found in a joined text, the
last one first. -/
theorem FoundFromEnd.reverse_joined (hfound : FoundFromEnd Fits text f) (separator : String) :
    ∀ {is : List ι} {as bs : List α} {before before' : List Char},
      List.Forall₂ Fits is as → List.Forall₂ Fits is bs →
      before ++ (separator.intercalate (as.reverse.map text)).toList
        = before' ++ (separator.intercalate (bs.reverse.map text)).toList →
      before = before' ∧ as.map f = bs.map f
  | [], _, _, before, before', .nil, .nil, h => ⟨by simpa using h, rfl⟩
  | i :: is, a :: as, b :: bs, before, before', .cons ha has, .cons hb hbs, h => by
    rw [List.reverse_cons, List.reverse_cons, List.map_append, List.map_append, List.map_singleton,
      List.map_singleton] at h
    by_cases hempty : is = []
    · subst hempty
      cases has
      cases hbs
      have h' : before ++ (text a).toList = before' ++ (text b).toList := by simpa using h
      obtain ⟨hbefore, hf⟩ := hfound i a b before before' ha hb h'
      exact ⟨hbefore, by rw [List.map_cons, List.map_cons, hf]⟩
    · have hpos := List.length_pos_of_ne_nil hempty
      have hnonempty : ∀ {as : List α}, List.Forall₂ Fits is as → as.reverse.map text ≠ [] := by
        intro as has
        have hlength := has.length_eq
        refine List.ne_nil_of_length_pos ?_
        rw [List.length_map, List.length_reverse]
        omega
      rw [toList_intercalate_concat _ _ _ (hnonempty has),
        toList_intercalate_concat _ _ _ (hnonempty hbs)] at h
      have h' : (before ++ (separator.intercalate (as.reverse.map text)).toList
            ++ separator.toList) ++ (text a).toList
          = (before' ++ (separator.intercalate (bs.reverse.map text)).toList
            ++ separator.toList) ++ (text b).toList := by
        simpa only [List.append_assoc] using h
      obtain ⟨hbefore, hf⟩ := hfound i a b _ _ ha hb h'
      obtain ⟨hbefore, hrest⟩ :=
        hfound.reverse_joined separator has hbs (List.append_cancel_right hbefore)
      exact ⟨hbefore, by rw [List.map_cons, List.map_cons, hf, hrest]⟩

theorem FoundFromEnd.joined (hfound : FoundFromEnd Fits text f) (separator : String)
    {is : List ι} {as bs : List α}
    (has : List.Forall₂ Fits is as) (hbs : List.Forall₂ Fits is bs)
    (h : before ++ (separator.intercalate (as.map text)).toList
      = before' ++ (separator.intercalate (bs.map text)).toList) :
    before = before' ∧ as.map f = bs.map f := by
  have h' : before ++ (separator.intercalate (as.reverse.reverse.map text)).toList
      = before' ++ (separator.intercalate (bs.reverse.reverse.map text)).toList := by
    rw [List.reverse_reverse, List.reverse_reverse]
    exact h
  obtain ⟨hbefore, hf⟩ := hfound.reverse_joined separator (List.forall₂_reverse_iff.mpr has)
    (List.forall₂_reverse_iff.mpr hbs) h'
  rw [List.map_reverse, List.map_reverse] at hf
  exact ⟨hbefore, List.reverse_injective hf⟩

end Joined

/-- What the key texts of a selected value have in common. -/
inductive KeyShape where
  | scalar
  | component (name : String) (fields : List String)
  | reference (name : String)
  | entity (name : String)

/-- A value of this shape. All but a scalar may be missing, and an entity has an
identifier. -/
def KeyShape.Fits : KeyShape → ResultValue → Prop
  | .scalar, value => ∃ scalar, value = .scalar scalar
  | .component name fields, value => value = .scalar .null
    ∨ ∃ entries, value = .component name entries ∧ entries.map (·.1) = fields
  | .reference name, value => value = .scalar .null ∨ ∃ id, value = .reference name id ∧ id ≠ .null
  | .entity name, value => value = .scalar .null
    ∨ ∃ found : Instance, value = .entity found ∧ found.entity = name ∧ found.id ≠ .null

namespace ResultValue

theorem toList_keyText_scalar (value : Value) :
    (keyText (.scalar value)).toList
      = ['S', 'c', 'a', 'l', 'a', 'r'] ++ '(' :: (value.keyText.toList ++ [')']) := by
  rw [keyText, String.toList_append, String.toList_append]
  simp

theorem toList_keyText_entity (name : String) (id : Value) :
    (name ++ "#" ++ id.keyText).toList = name.toList ++ '#' :: id.keyText.toList := by
  rw [String.toList_append, String.toList_append]
  simp

theorem scalar_inj {value value' : Value}
    (h : before ++ (keyText (.scalar value)).toList
      = before' ++ (keyText (.scalar value')).toList) :
    before = before' ∧ value.mark = value'.mark := by
  rw [toList_keyText_scalar, toList_keyText_scalar] at h
  have hvalues : (before ++ ['S', 'c', 'a', 'l', 'a', 'r']) ++ '(' :: value.keyText.toList
      = (before' ++ ['S', 'c', 'a', 'l', 'a', 'r']) ++ '(' :: value'.keyText.toList := by
    refine (List.append_left_inj [')']).mp ?_
    simpa using h
  obtain ⟨hbefore, hmark⟩ := Value.keyText_inj (by decide) hvalues
  exact ⟨List.append_cancel_right hbefore, hmark⟩

theorem entity_inj {name : String} {id id' : Value}
    (h : before ++ (name ++ "#" ++ id.keyText).toList
      = before' ++ (name ++ "#" ++ id'.keyText).toList) :
    before = before' ∧ id.mark = id'.mark := by
  rw [toList_keyText_entity, toList_keyText_entity, ← List.append_assoc, ← List.append_assoc] at h
  obtain ⟨hbefore, hmark⟩ := Value.keyText_inj (by decide) h
  exact ⟨List.append_cancel_right hbefore, hmark⟩

/-- The text of a missing value differs at its end from the text of an entity. -/
theorem append_scalar_null_ne (before before' : List Char) {name : String} {id : Value}
    (h : id ≠ .null) :
    before ++ (keyText (.scalar .null)).toList ≠ before' ++ (name ++ "#" ++ id.keyText).toList := by
  intro heq
  rw [toList_keyText_scalar, toList_keyText_entity, Value.toList_keyText h] at heq
  have hnull : (before ++ ['S', 'c', 'a', 'l', 'a', 'r']) ++ '(' :: ['N', 'u', 'l', 'l']
      = (before' ++ name.toList ++ '#' :: id.tag) ++ '(' :: id.body := by
    refine (List.append_left_inj [')']).mp ?_
    simpa [Value.keyText] using heq
  by_cases hstring : ∃ text, id = .string text
  · obtain ⟨text, rfl⟩ := hstring
    rw [Value.body, toList_quoted, ← List.cons_append, ← List.cons_append] at hnull
    exact absurd (last_eq ['(', 'N', 'u', 'l'] _ hnull) (by decide)
  · obtain ⟨htag, -⟩ := cut_inj_right (by decide)
      ((Value.plain_body fun text heq => hstring ⟨text, heq⟩).notMem (by decide)) hnull
    have hlast := congrArg List.getLast? htag
    cases id
    case null => exact h rfl
    all_goals simp [Value.tag] at hlast

/-- The fields of a component in a key. -/
theorem field_found : FoundFromEnd (fun name (entry : String × Value) => entry.1 = name)
    (fun entry => quoted entry.1 ++ ": " ++ entry.2.keyText)
    (fun entry => (entry.1, entry.2.mark)) := by
  intro name entry entry' before before' hname hname' h
  dsimp only at h ⊢
  rw [hname, hname', String.toList_append, String.toList_append, String.toList_append,
    String.toList_append] at h
  have hvalues : (before ++ (quoted name).toList ++ [':']) ++ ' ' :: entry.2.keyText.toList
      = (before' ++ (quoted name).toList ++ [':']) ++ ' ' :: entry'.2.keyText.toList := by
    simpa using h
  obtain ⟨hbefore, hmark⟩ := Value.keyText_inj (by decide) hvalues
  refine ⟨List.append_cancel_right (List.append_cancel_right hbefore), ?_⟩
  rw [hname, hname', hmark]

theorem component_inj {component : String}
    {entries entries' : List (String × Value)} (hnames : entries.map (·.1) = entries'.map (·.1))
    (h : before ++ (keyText (.component component entries)).toList
      = before' ++ (keyText (.component component entries')).toList) :
    before = before' ∧ entries.map (fun entry => (entry.1, entry.2.mark))
      = entries'.map fun entry => (entry.1, entry.2.mark) := by
  rw [keyText, keyText] at h
  unfold componentKeyText at h
  simp only [String.toList_append, ← List.append_assoc] at h
  have hfits : ∀ entries : List (String × Value),
      List.Forall₂ (fun name entry => entry.1 = name) (entries.map (·.1)) entries := by
    intro entries
    rw [List.forall₂_map_left_iff]
    exact List.forall₂_same.mpr fun _ _ => rfl
  obtain ⟨hbefore, hmarks⟩ := field_found.joined ", "
    (hfits entries) (hnames ▸ hfits entries') (List.append_cancel_right h)
  exact ⟨by simpa using hbefore, hmarks⟩

/-- A component ends with a brace. -/
theorem append_scalar_null_ne_component (before before' : List Char) (component : String)
    (entries : List (String × Value)) :
    before ++ (keyText (.scalar .null)).toList
      ≠ before' ++ (keyText (.component component entries)).toList := by
  intro heq
  obtain ⟨inner, hinner⟩ : ∃ inner, (keyText (.component component entries)).toList
      = inner ++ ['\x7d'] := by
    rw [keyText]
    unfold componentKeyText
    rw [String.toList_append]
    exact ⟨_, (List.append_assoc _ ['\x7d', ' '] ['\x7d']).symm⟩
  rw [toList_keyText_scalar, hinner, ← List.cons_append,
    ← List.append_assoc ['S', 'c', 'a', 'l', 'a', 'r']] at heq
  exact absurd (last_eq _ _ heq) (by decide)

/-- Loaded entities and references have the same texts in a key. -/
theorem identified_found : FoundFromEnd
    (fun name (value : ResultValue) => value = .scalar .null ∨ ∃ id : Value, id ≠ .null
      ∧ value.keyText = name ++ "#" ++ id.keyText ∧ value.identity = .entity name id.mark)
    keyText identity := by
  intro name value value' before before' hvalue hvalue' h
  rcases hvalue with rfl | ⟨id, hid, htext, hidentity⟩ <;>
    rcases hvalue' with rfl | ⟨id', hid', htext', hidentity'⟩
  · exact ⟨List.append_cancel_right h, rfl⟩
  · rw [htext'] at h
    exact (append_scalar_null_ne _ _ hid' h).elim
  · rw [htext] at h
    exact (append_scalar_null_ne _ _ hid h.symm).elim
  · rw [htext, htext'] at h
    obtain ⟨hbefore, hmark⟩ := entity_inj h
    exact ⟨hbefore, by rw [hidentity, hidentity', hmark]⟩

theorem found : FoundFromEnd KeyShape.Fits keyText identity := by
  intro shape value value' before before' hvalue hvalue' h
  cases shape with
  | scalar =>
    obtain ⟨scalar, rfl⟩ := hvalue
    obtain ⟨scalar', rfl⟩ := hvalue'
    obtain ⟨hbefore, hmark⟩ := scalar_inj h
    exact ⟨hbefore, congrArg Identity.scalar hmark⟩
  | component name fields =>
    rcases hvalue with rfl | ⟨entries, rfl, hentries⟩ <;>
      rcases hvalue' with rfl | ⟨entries', rfl, hentries'⟩
    · exact ⟨List.append_cancel_right h, rfl⟩
    · exact (append_scalar_null_ne_component _ _ _ _ h).elim
    · exact (append_scalar_null_ne_component _ _ _ _ h.symm).elim
    · obtain ⟨hbefore, hmarks⟩ := component_inj (hentries.trans hentries'.symm) h
      exact ⟨hbefore, congrArg (Identity.component name) hmarks⟩
  | reference name =>
    refine identified_found name value value' before before' ?_ ?_ h
    · rcases hvalue with rfl | ⟨id, rfl, hnull⟩
      · exact .inl rfl
      · exact .inr ⟨id, hnull, rfl, rfl⟩
    · rcases hvalue' with rfl | ⟨id, rfl, hnull⟩
      · exact .inl rfl
      · exact .inr ⟨id, hnull, rfl, rfl⟩
  | entity name =>
    refine identified_found name value value' before before' ?_ ?_ h
    · rcases hvalue with rfl | ⟨found, rfl, rfl, hnull⟩
      · exact .inl rfl
      · exact .inr ⟨found.id, hnull, rfl, rfl⟩
    · rcases hvalue' with rfl | ⟨found, rfl, rfl, hnull⟩
      · exact .inl rfl
      · exact .inr ⟨found.id, hnull, rfl, rfl⟩

end ResultValue

/-! ## Keys of rows -/

/-- Two rows with values of the same shapes have one key just if they agree in
what identifies their values. -/
theorem rowKey_eq_iff {shapes : List KeyShape} {values values' : List ResultValue}
    (h : List.Forall₂ KeyShape.Fits shapes values) (h' : List.Forall₂ KeyShape.Fits shapes values') :
    rowKey values = rowKey values'
      ↔ values.map ResultValue.identity = values'.map ResultValue.identity := by
  constructor
  · intro hkey
    have hchars := congrArg String.toList hkey
    have hjoined : [] ++ (rowKey values).toList = [] ++ (rowKey values').toList := hchars
    exact (ResultValue.found.joined "|" h h' hjoined).2
  · intro hidentities
    have hkey : ∀ values, rowKey values
        = "|".intercalate ((values.map ResultValue.identity).map Identity.text) := by
      intro values
      rw [rowKey, map_map]
      exact congrArg _ (map_congr_left fun value _ => value.keyText_eq)
    rw [hkey, hkey, hidentities]

end EntityQuery
