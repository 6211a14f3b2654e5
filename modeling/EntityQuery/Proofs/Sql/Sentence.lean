import Mathlib.Data.List.Forall2
import EntityQuery.Proofs.Sql.Template
import EntityQuery.Sql.Printer

/-!
# Reading conditions with the precedence of SQL

The text of a condition is a row of operands with `and` or `or` between them;
an operand is a comparison, a negated operand or a condition in parentheses.
`not` binds its operand, and `and` binds more tightly than `or`, so a row is
read as alternatives, each of which asks for the operands up to the next `or`
(`Sentence.alternatives`, `reading_eq`).

A `Sentence` is such a row together with the spelling of its words, so that it
gives its text back (`Sentence.template`). What counts as a comparison is left
open: any text can be one.

Conditions are put together by writing `and` between their texts
(`Sentence.Conjoined`). What the result asks for is said by `Sentence.IsAndOf`:
for all of the conditions as long as none has an `or` outside parentheses.
-/

namespace EntityQuery.Sql

open List

variable {behind : Sentence} {truth : Template → Bool}

mutual
/-- What stands between the connectives of a condition. -/
inductive Operand where
  | comparison (text : Template)
  | negation (word : String) (operand : Operand)
  | group (opening : String) (inner : Sentence) (closing : String)

/-- A condition as it is written: operands with connectives between them. -/
inductive Sentence where
  | single (operand : Operand)
  | more (operand : Operand) (op : Query.LogicalOp) (word : String) (rest : Sentence)
end

/-! ## The text of a sentence -/

mutual
def Operand.template : Operand → Template
  | .comparison text => text
  | .negation word operand => .text word ++ operand.template
  | .group opening inner closing => .text opening ++ inner.template ++ .text closing

def Sentence.template : Sentence → Template
  | .single operand => operand.template
  | .more operand _ word rest => operand.template ++ .text word ++ rest.template
end

/-- The keyword in upper or lower case, with blanks around it. -/
def Spells (keyword word : String) : Prop :=
  ∃ before spelled after, word.toList = before ++ spelled ++ after
    ∧ spelled.map Char.toLower = keyword.toList
    ∧ (before ++ after).all Char.isWhitespace = true

mutual
def Operand.Spelled : Operand → Prop
  | .comparison _ => True
  | .negation word operand => Spells "not" word ∧ operand.Spelled
  | .group opening inner closing => Spells "(" opening ∧ inner.Spelled ∧ Spells ")" closing

def Sentence.Spelled : Sentence → Prop
  | .single operand => operand.Spelled
  | .more operand op word rest => operand.Spelled ∧ Spells op.text word ∧ rest.Spelled
end

/-- The text can be read as the sentence. -/
structure Reads (text : Template) (sentence : Sentence) : Prop where
  template_eq : sentence.template = text
  spelled : sentence.Spelled

theorem Reads.templates_eq {texts : List Template} {sentences : List Sentence}
    (h : List.Forall₂ Reads texts sentences) :
    texts = sentences.map Sentence.template ∧ ∀ sentence ∈ sentences, sentence.Spelled := by
  induction h with
  | nil => exact ⟨rfl, forall_mem_nil _⟩
  | cons hread _ ih =>
    obtain ⟨rfl, hspelled⟩ := ih
    exact ⟨congrArg (· :: _) hread.template_eq.symm,
      forall_mem_cons.mpr ⟨hread.spelled, hspelled⟩⟩

/-! ## The meaning of a sentence -/

mutual
/-- Whether an operand is true, given which comparisons are. -/
def Operand.holds (truth : Template → Bool) : Operand → Bool
  | .comparison text => truth text
  | .negation _ operand => !operand.holds truth
  | .group _ inner _ => (inner.reading truth).1 || (inner.reading truth).2

/-- Whether the operands up to the first `or` are true, and whether one of the
alternatives after it is. -/
def Sentence.reading (truth : Template → Bool) : Sentence → Bool × Bool
  | .single operand => (operand.holds truth, false)
  | .more operand .and _ rest =>
    (operand.holds truth && (rest.reading truth).1, (rest.reading truth).2)
  | .more operand .or _ rest =>
    (operand.holds truth, (rest.reading truth).1 || (rest.reading truth).2)
end

namespace Sentence

def holds (truth : Template → Bool) (sentence : Sentence) : Bool :=
  (sentence.reading truth).1 || (sentence.reading truth).2

def operands : Sentence → List Operand
  | .single operand => [operand]
  | .more operand _ _ rest => operand :: rest.operands

/-- The operands up to the first `or`. -/
def first : Sentence → List Operand
  | .single operand => [operand]
  | .more operand .and _ rest => operand :: rest.first
  | .more operand .or _ _ => [operand]

/-- The operands between further `or`s. -/
def others : Sentence → List (List Operand)
  | .single _ => []
  | .more _ .and _ rest => rest.others
  | .more _ .or _ rest => rest.first :: rest.others

/-- The operands between the `or`s: one of these has to hold as a whole. -/
def alternatives (sentence : Sentence) : List (List Operand) :=
  sentence.first :: sentence.others

/-- Whether there is an `or` outside parentheses. -/
def hasOr : Sentence → Bool
  | .single _ => false
  | .more _ .and _ rest => rest.hasOr
  | .more _ .or _ _ => true

theorem reading_eq (truth : Template → Bool) : ∀ sentence : Sentence,
    sentence.reading truth = (sentence.first.all (·.holds truth),
      sentence.others.any fun alternative => alternative.all (·.holds truth))
  | .single _ => by simp [reading, first, others]
  | .more _ .and _ rest | .more _ .or _ rest => by
    simp [reading, first, others, reading_eq truth rest]

theorem others_eq_nil_iff : ∀ sentence : Sentence, sentence.others = [] ↔ sentence.hasOr = false
  | .single _ => by simp [others, hasOr]
  | .more _ .and _ rest => by
    rw [others, hasOr]
    exact others_eq_nil_iff rest
  | .more _ .or _ _ => by simp [others, hasOr]

theorem first_eq_operands : ∀ {sentence : Sentence}, sentence.hasOr = false →
    sentence.first = sentence.operands
  | .single _, _ => rfl
  | .more operand .and _ _, h => congrArg (operand :: ·) (first_eq_operands h)
  | .more _ .or _ _, h => by cases h

theorem subset_operands : ∀ {sentence : Sentence} {alternative : List Operand},
    alternative ∈ sentence.alternatives → alternative ⊆ sentence.operands
  | .single _, _, h => by
    rw [mem_singleton.mp h]
    exact List.Subset.refl _
  | .more _ .and _ _, _, h => by
    rcases mem_cons.mp h with rfl | hothers
    · exact cons_subset_cons _ (subset_operands (.head _))
    · exact subset_cons_of_subset _ (subset_operands (.tail _ hothers))
  | .more _ .or _ _, _, h => by
    rcases mem_cons.mp h with rfl | hrest
    · exact cons_subset_cons _ (nil_subset _)
    · exact subset_cons_of_subset _ (subset_operands hrest)

/-! ## Sentences put together -/

def append (op : Query.LogicalOp) (word : String) : Sentence → Sentence → Sentence
  | .single operand, behind => .more operand op word behind
  | .more operand op' word' rest, behind => .more operand op' word' (rest.append op word behind)

section

variable {op : Query.LogicalOp} {word : String}

theorem template_append : ∀ sentence behind : Sentence,
    (sentence.append op word behind).template
      = sentence.template ++ .text word ++ behind.template
  | .single _, _ => rfl
  | .more _ _ _ rest, behind => by
    simp only [append, template, template_append rest behind, Template.append_assoc]

theorem spelled_append (hword : Spells op.text word) : ∀ {sentence behind : Sentence},
    sentence.Spelled → behind.Spelled → (sentence.append op word behind).Spelled
  | .single _, _, h, hbehind => ⟨h, hword, hbehind⟩
  | .more .., _, ⟨hoperand, hword', hrest⟩, hbehind =>
    ⟨hoperand, hword', spelled_append hword hrest hbehind⟩

theorem operands_append : ∀ sentence behind : Sentence,
    (sentence.append op word behind).operands = sentence.operands ++ behind.operands
  | .single _, _ => rfl
  | .more operand _ _ rest, behind =>
    congrArg (operand :: ·) (operands_append rest behind)

theorem hasOr_append_and : ∀ sentence behind : Sentence,
    (sentence.append .and word behind).hasOr = (sentence.hasOr || behind.hasOr)
  | .single _, _ => by simp [append, hasOr]
  | .more _ .and _ rest, behind => hasOr_append_and rest behind
  | .more _ .or _ _, _ => by simp [append, hasOr]

variable {truth : Template → Bool}

/-- Without an `or` on the left, `and` asks for the left side and what the right
side asks for up to its first `or`. -/
theorem reading_append_and : ∀ sentence behind : Sentence,
    sentence.hasOr = false →
      (sentence.append .and word behind).reading truth
        = ((sentence.reading truth).1 && (behind.reading truth).1, (behind.reading truth).2)
  | .single _, _, _ => by simp [append, reading]
  | .more _ .and _ rest, behind, h => by
    simp [append, reading, reading_append_and rest behind h, Bool.and_assoc]
  | .more _ .or _ _, _, h => by cases h

/-- With an `or` on the left, what stands before it is enough. -/
theorem reading_append_of_hasOr : ∀ sentence behind : Sentence,
    sentence.hasOr = true →
      ((sentence.append .and word behind).reading truth).1 = (sentence.reading truth).1
  | .single _, _, h => by cases h
  | .more _ .and _ rest, behind, h => by
    simp [append, reading, reading_append_of_hasOr rest behind h]
  | .more _ .or _ _, _, _ => rfl

/-- What stands after an `or` on the right is enough. -/
theorem reading_append_right (h : (behind.reading truth).2) :
    ∀ sentence : Sentence, ((sentence.append .and word behind).reading truth).2 = true
  | .single _ => h
  | .more _ .and _ rest => reading_append_right h rest
  | .more _ .or _ rest => by simp [append, reading, reading_append_right h rest]

/-- Without an `or` on the right, `and` asks for the left side. -/
theorem reading_append_left (hbehind : behind.hasOr = false) :
    ∀ sentence : Sentence,
      (((sentence.append .and word behind).reading truth).1 = true →
          (sentence.reading truth).1 = true)
        ∧ (((sentence.append .and word behind).reading truth).2 = true →
          (sentence.reading truth).2 = true)
  | .single _ => by
    have hothers := (others_eq_nil_iff behind).mpr hbehind
    simp +contextual [append, reading, reading_eq truth behind, hothers]
  | .more _ .and _ rest => by
    obtain ⟨hfirst, hothers⟩ := reading_append_left hbehind rest
    simp only [append, reading, Bool.and_eq_true]
    exact ⟨And.imp_right hfirst, hothers⟩
  | .more _ .or _ rest => by
    obtain ⟨hfirst, hothers⟩ := reading_append_left hbehind rest
    simp only [append, reading, Bool.or_eq_true]
    exact ⟨id, Or.imp hfirst hothers⟩

/-- Where both sides hold, the sentence with `and` between them does. -/
theorem reading_append_of_holds (word : String) (hbehind : behind.holds truth) :
    ∀ sentence : Sentence,
      ((sentence.reading truth).1 = true →
          (sentence.append .and word behind).holds truth = true)
        ∧ ((sentence.reading truth).2 = true →
          ((sentence.append .and word behind).reading truth).2 = true)
  | .single _ => by
    rw [holds, Bool.or_eq_true] at hbehind
    simp +contextual [append, holds, reading, hbehind]
  | .more _ .and _ rest => by
    obtain ⟨hfirst, hothers⟩ := reading_append_of_holds word hbehind rest
    simp only [append, holds, reading, Bool.and_eq_true, Bool.or_eq_true] at hfirst ⊢
    refine ⟨?_, hothers⟩
    rintro ⟨hoperand, hrest⟩
    exact (hfirst hrest).imp_left fun h => ⟨hoperand, h⟩
  | .more _ .or _ rest => by
    obtain ⟨hfirst, hothers⟩ := reading_append_of_holds word hbehind rest
    simp only [append, holds, reading, Bool.or_eq_true] at hfirst ⊢
    refine ⟨Or.inl, ?_⟩
    rintro (hrest | hrest)
    · exact hfirst hrest
    · exact .inr (hothers hrest)

theorem holds_append {sentence : Sentence} (h : sentence.holds truth)
    (hbehind : behind.holds truth) :
    (sentence.append .and word behind).holds truth = true := by
  obtain ⟨hfirst, hothers⟩ := reading_append_of_holds word hbehind sentence
  rw [holds, Bool.or_eq_true] at h
  rcases h with h | h
  · exact hfirst h
  · rw [holds, hothers h]
    exact Bool.or_true _

/-- Where all operands are true, so are those before the first `or`, and those
after it if there is one. -/
theorem reading_of_operands {sentence : Sentence}
    (h : ∀ operand ∈ sentence.operands, operand.holds truth = true) :
    (sentence.reading truth).1 = true
      ∧ (sentence.hasOr = true → (sentence.reading truth).2 = true) := by
  have halternative : ∀ alternative ∈ sentence.alternatives,
      alternative.all (·.holds truth) = true := by
    intro alternative halternative
    exact all_eq_true.mpr fun operand hoperand =>
      h operand (subset_operands halternative hoperand)
  rw [reading_eq]
  refine ⟨halternative _ (.head _), fun hor => ?_⟩
  have hothers : sentence.others ≠ [] := by
    rw [Ne, others_eq_nil_iff, hor]
    exact Bool.noConfusion
  obtain ⟨alternative, hmem⟩ := exists_mem_of_ne_nil _ hothers
  exact any_eq_true.mpr ⟨alternative, hmem, halternative alternative (.tail _ hmem)⟩

end

/-! ## Conjoined sentences -/

/-- The sentence is the parts with `and` between them. -/
inductive Conjoined : Sentence → List Sentence → Prop where
  | single (part : Sentence) : Conjoined part [part]
  | cons (part : Sentence) {whole : Sentence} {rest : List Sentence} (h : Conjoined whole rest) :
      Conjoined (part.append .and " and " whole) (part :: rest)

/-- What `and` between the parts comes to. It never asks for more than all of
them. It asks for a part exactly if no other part has an `or` outside
parentheses: with such an `or`, the operands of the other parts are enough. -/
structure IsAndOf (whole : Sentence) (parts : List Sentence) : Prop where
  conjunction : whole.alternatives = [parts.flatMap operands]
    ↔ ∀ part ∈ parts, part.hasOr = false
  complete : ∀ truth, (∀ part ∈ parts, part.holds truth = true) → whole.holds truth = true
  restricts : ∀ before part after, parts = before ++ part :: after →
    (∀ other ∈ before ++ after, other.hasOr = false) →
      ∀ truth, whole.holds truth = true → part.holds truth = true
  widens : ∀ before part after, parts = before ++ part :: after →
    (∃ other ∈ before ++ after, other.hasOr = true) →
      ∀ truth, (∀ operand ∈ (before ++ after).flatMap operands, operand.holds truth = true) →
        whole.holds truth = true

namespace Conjoined

variable {whole : Sentence} {parts : List Sentence}

theorem operands_eq (h : Conjoined whole parts) : whole.operands = parts.flatMap operands := by
  induction h with
  | single part => simp
  | cons part _ ih => rw [operands_append, ih, flatMap_cons]

theorem hasOr_eq (h : Conjoined whole parts) : whole.hasOr = parts.any hasOr := by
  induction h with
  | single part => simp
  | cons part _ ih => rw [hasOr_append_and, ih, any_cons]

theorem hasOr_eq_false (h : Conjoined whole parts) :
    whole.hasOr = false ↔ ∀ part ∈ parts, part.hasOr = false := by
  rw [h.hasOr_eq, any_eq_false]
  simp

theorem holds (h : Conjoined whole parts) (hparts : ∀ part ∈ parts, part.holds truth = true) :
    whole.holds truth = true := by
  induction h with
  | single part => exact hparts part (.head _)
  | cons part _ ih =>
    obtain ⟨hpart, hrest⟩ := forall_mem_cons.mp hparts
    exact holds_append hpart (ih hrest)

/-- Where no other part has an `or`, the whole asks for the part. -/
theorem part_holds : ∀ {before after : List Sentence} {part : Sentence}
    {whole : Sentence}, Conjoined whole (before ++ part :: after) →
      (∀ other ∈ before ++ after, other.hasOr = false) → whole.holds truth = true →
      part.holds truth = true
  | [], after, part, _, h, hnone, htrue => by
    cases h with
    | single part => exact htrue
    | cons part hrest =>
      obtain ⟨hfirst, hothers⟩ := reading_append_left (hrest.hasOr_eq_false.mpr hnone) part
      rw [Sentence.holds, Bool.or_eq_true] at htrue ⊢
      exact htrue.imp hfirst hothers
  | first :: before, after, part, _, h, hnone, htrue => by
    obtain ⟨hfirst, hnone⟩ := forall_mem_cons.mp hnone
    rw [cons_append] at h
    generalize hparts : before ++ part :: after = rest at h
    cases h with
    | single _ => simp at hparts
    | cons _ hrest =>
      subst hparts
      refine part_holds hrest hnone ?_
      rw [Sentence.holds, reading_append_and _ _ hfirst, Bool.or_eq_true] at htrue
      rw [Sentence.holds, Bool.or_eq_true]
      exact htrue.imp_left fun h => (Bool.and_eq_true_iff.mp h).2

/-- Where another part has an `or`, the operands of the other parts are enough. -/
theorem holds_without_part :
    ∀ {before after : List Sentence} {part : Sentence} {whole : Sentence},
      Conjoined whole (before ++ part :: after) →
      (∃ other ∈ before ++ after, other.hasOr = true) →
      (∀ operand ∈ (before ++ after).flatMap operands, operand.holds truth = true) →
      whole.holds truth = true
  | [], after, part, _, h, ⟨other, hother, hor⟩, htrue => by
    cases h with
    | single part => cases hother
    | @cons _ rest _ hrest =>
      -- The alternatives of the parts behind stand for themselves.
      have hrestOr : rest.hasOr = true := by
        rw [hrest.hasOr_eq]
        exact any_eq_true.mpr ⟨other, hother, hor⟩
      have hreading := (reading_of_operands (hrest.operands_eq ▸ htrue)).2 hrestOr
      rw [Sentence.holds, reading_append_right hreading]
      exact Bool.or_true _
  | first :: before, after, part, _, h, ⟨other, hother, hor⟩, htrue => by
    rw [cons_append, flatMap_cons, forall_mem_append] at htrue
    have hreading := (reading_of_operands htrue.1).1
    rw [cons_append] at h
    generalize hparts : before ++ part :: after = rest at h
    cases h with
    | single _ => simp at hparts
    | @cons _ rest _ hrest =>
      subst hparts
      rw [Sentence.holds]
      cases hfirst : first.hasOr with
      | true =>
        rw [reading_append_of_hasOr _ _ hfirst, hreading]
        exact Bool.true_or _
      | false =>
        rcases mem_cons.mp hother with rfl | hother
        · rw [hor] at hfirst
          cases hfirst
        · rw [reading_append_and _ _ hfirst, hreading, Bool.true_and]
          exact holds_without_part hrest ⟨other, hother, hor⟩ htrue.2

theorem isAndOf (h : Conjoined whole parts) : whole.IsAndOf parts := by
  refine ⟨?_, fun _ => h.holds, ?_, ?_⟩
  · rw [← h.operands_eq, ← h.hasOr_eq_false, alternatives, List.cons.injEq, others_eq_nil_iff]
    exact ⟨And.right, fun hnone => ⟨first_eq_operands hnone, hnone⟩⟩
  · rintro before part after rfl hnone truth htrue
    exact h.part_holds hnone htrue
  · rintro before part after rfl hor truth htrue
    exact h.holds_without_part hor htrue

end Conjoined

theorem spells_and : Spells Query.LogicalOp.and.text " and " :=
  ⟨[' '], ['a', 'n', 'd'], [' '], by decide, by decide, by decide⟩

/-- Parts can be put together, and the text is that of the parts. -/
theorem exists_conjoined : ∀ (part : Sentence) (rest : List Sentence), part.Spelled →
    (∀ next ∈ rest, next.Spelled) →
      ∃ whole, Conjoined whole (part :: rest) ∧ whole.Spelled
        ∧ whole.template = Template.join " and " ((part :: rest).map template)
  | part, [], hpart, _ => ⟨part, .single part, hpart, rfl⟩
  | part, next :: rest, hpart, hrest => by
    obtain ⟨hnext, hrest⟩ := forall_mem_cons.mp hrest
    obtain ⟨whole, hwhole, hspelled, htemplate⟩ := exists_conjoined next rest hnext hrest
    refine ⟨_, .cons part hwhole, spelled_append spells_and hpart hspelled, ?_⟩
    rw [template_append, htemplate]
    rfl

end Sentence

/-- Texts with `and` between them read as their sentences put together. -/
theorem Reads.exists_isAndOf {first : Template} {rest : List Template} {part : Sentence}
    {sentences : List Sentence} (hfirst : Reads first part)
    (hrest : List.Forall₂ Reads rest sentences) :
    ∃ whole, Reads (Template.join " and " (first :: rest)) whole
      ∧ whole.IsAndOf (part :: sentences) := by
  obtain ⟨rfl, hspelled⟩ := Reads.templates_eq hrest
  obtain ⟨whole, hwhole, hwholeSpelled, htemplate⟩ :=
    Sentence.exists_conjoined part sentences hfirst.spelled hspelled
  rw [map_cons, hfirst.template_eq] at htemplate
  exact ⟨whole, ⟨htemplate, hwholeSpelled⟩, hwhole.isAndOf⟩

/-! ## The conditions of queries as sentences -/

def Sentence.grouped (inner : Sentence) : Sentence :=
  .single (.group "(" inner ")")

theorem Reads.grouped {inner : Template} {sentence : Sentence} (h : Reads inner sentence) :
    Reads (.text "(" ++ inner ++ .text ")") sentence.grouped := by
  have hopening : Spells "(" "(" := ⟨[], ['('], [], by decide, by decide, by decide⟩
  have hclosing : Spells ")" ")" := ⟨[], [')'], [], by decide, by decide, by decide⟩
  exact ⟨congrArg (.text "(" ++ · ++ .text ")") h.template_eq, hopening, h.spelled, hclosing⟩

def Sentence.negateFirst (word : String) : Sentence → Sentence
  | .single operand => .single (.negation word operand)
  | .more operand op word' rest => .more (.negation word operand) op word' rest

theorem Sentence.template_negateFirst (word : String) (sentence : Sentence) :
    (sentence.negateFirst word).template = .text word ++ sentence.template := by
  cases sentence with
  | single operand => rfl
  | more operand op word' rest =>
    simp only [negateFirst, template, Operand.template, Template.append_assoc]

theorem Sentence.spelled_negateFirst {word : String} (hword : Spells "not" word)
    {sentence : Sentence} (h : sentence.Spelled) : (sentence.negateFirst word).Spelled := by
  cases sentence with
  | single operand => exact ⟨hword, h⟩
  | more operand op word' rest => exact ⟨⟨hword, h.1⟩, h.2⟩

/-- How a condition of a query reads once it is written. -/
def Term.sentence (dialect : Dialect) : Term → Sentence
  | .group inner => (inner.sentence dialect).grouped
  | .not inner => (inner.sentence dialect).negateFirst "not "
  | .logical op left right =>
    (left.sentence dialect).append op (" " ++ op.text ++ " ") (right.sentence dialect)
  | term => .single (.comparison (term.template dialect))

theorem Term.reads_sentence (dialect : Dialect) : ∀ term : Term,
    Reads (term.template dialect) (term.sentence dialect)
  | .group inner => by
    rw [template, sentence]
    exact (reads_sentence dialect inner).grouped
  | .not inner => by
    obtain ⟨htemplate, hspelled⟩ := reads_sentence dialect inner
    have hnot : Spells "not" "not " :=
      ⟨[], ['n', 'o', 't'], [' '], by decide, by decide, by decide⟩
    refine ⟨?_, Sentence.spelled_negateFirst hnot hspelled⟩
    rw [sentence, Sentence.template_negateFirst, htemplate, template]
  | .logical op left right => by
    obtain ⟨hleft, hleftSpelled⟩ := reads_sentence dialect left
    obtain ⟨hright, hrightSpelled⟩ := reads_sentence dialect right
    have hword : Spells op.text (" " ++ op.text ++ " ") := by
      cases op with
      | and => exact Sentence.spells_and
      | or => exact ⟨[' '], ['o', 'r'], [' '], by decide, by decide, by decide⟩
    refine ⟨?_, Sentence.spelled_append hword hleftSpelled hrightSpelled⟩
    rw [sentence, Sentence.template_append, hleft, hright, template]
  | .literal _ | .column _ | .slot _ | .negate _ | .compare _ _ _ | .arithmetic _ _ _
  | .concat _ | .like _ _ _ _ | .inList _ _ _ | .between _ _ _ _ | .isNull _ _ | .areNull _ _
  | .noneFound _ _ | .call _ _ | .aggregate _ _ _ => ⟨rfl, trivial⟩

end EntityQuery.Sql
