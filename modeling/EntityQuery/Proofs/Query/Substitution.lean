import EntityQuery.Plan.Compile
import EntityQuery.Proofs.Scoped

/-!
# Substitution goes once over the text

A text can be put together from segments: plain text, quotations and marks.
Scanning takes it apart at the same places (`scan_written`), although quotations
and marks compete for every character. A quotation keeps the braces in it from
being seen, and of two quotations side by side each is closed by its own quote.
So the marks of the text are the marks among the segments, and what is put in
their place is never scanned (`substituted_written`).
-/

namespace EntityQuery

open List String

variable {rest : List Char} {segment : Segment}

/-- The text is a word. -/
def Text.isWord : List Char → Bool
  | [] => false
  | first :: rest => isWordStart first && rest.all isWordChar

/-- A word ends where a character follows that cannot stand in one. -/
theorem Text.splitWord?_append {word : List Char} {c : Char} (hword : isWord word)
    (hc : isWordChar c = false) : splitWord? (word ++ c :: rest) = some (word, c :: rest) := by
  cases word with
  | nil => cases hword
  | cons first others =>
    obtain ⟨hfirst, hothers⟩ := Bool.and_eq_true_iff.mp hword
    rw [all_eq_true] at hothers
    simp [splitWord?, hfirst, takeWhile_append_of_pos hothers, dropWhile_append_of_pos hothers, hc]

namespace Query

/-- A stretch of a query text. -/
inductive Segment where
  | plain (text : String) (unquoted : '\'' ∉ text.toList) (unopened : '{' ∉ text.toList)
  | quoted (body : String) (unquoted : '\'' ∉ body.toList)
  | mark (name : String) (word : Text.isWord name.toList = true)

namespace Segment

def text : Segment → String
  | .plain text .. => text
  | .quoted body _ => "'" ++ body ++ "'"
  | .mark name _ => "\x7b" ++ name ++ "\x7d"

/-- The text that comes in its place, if there is one. -/
def filled? (substitutions : List (String × String)) : Segment → Option String
  | .mark name _ => substitutions.lookup name
  | segment => some segment.text

/-- The name of a mark that has no substitution. -/
def unknown? (substitutions : List (String × String)) : Segment → Option String
  | .mark name _ => if (substitutions.lookup name).isNone then some name else none
  | _ => none

def pieces : Segment → List Piece
  | .plain text .. => text.toList.map .plain
  | .quoted body _ => [.quoted body.toList]
  | .mark name _ => [.mark name.toList]

end Segment

def written (segments : List Segment) : String :=
  join (segments.map Segment.text)

/-- The text of segments with their substitutions in place of the marks. -/
def filled (substitutions : List (String × String)) (segments : List Segment) : String :=
  join (segments.filterMap (Segment.filled? substitutions))

/-- The first mark in the order of the text that has no substitution. -/
def unknown? (substitutions : List (String × String)) (segments : List Segment) : Option String :=
  segments.findSome? (Segment.unknown? substitutions)

/-! ## Scanning -/

namespace Piece

theorem closeQuote?_append {body : List Char} (h : '\'' ∉ body) :
    closeQuote? (body ++ '\'' :: rest) = some (body, rest) := by
  have hbody : ∀ c ∈ body, (c != '\'') = true := by
    intro c hc
    rw [bne_iff_ne]
    rintro rfl
    exact h hc
  simp [closeQuote?, takeWhile_append_of_pos hbody, dropWhile_append_of_pos hbody]

theorem closeMark?_append {name : List Char} (h : Text.isWord name) :
    closeMark? (name ++ '}' :: rest) = some (name, rest) := by
  rw [closeMark?, Text.splitWord?_append h (by decide)]
  rfl

theorem scan_plain : ∀ {text : List Char}, '\'' ∉ text → '{' ∉ text →
    scan (text ++ rest) = text.map .plain ++ scan rest
  | [], _, _ => rfl
  | c :: text, hquote, hbrace => by
    rw [mem_cons, not_or] at hquote hbrace
    have hnext : next c (text ++ rest) = (.plain c, text ++ rest) := by
      rw [next, if_neg (Ne.symm hquote.1), if_neg (Ne.symm hbrace.1)]
    rw [cons_append, scan, hnext, scan_plain hquote.2 hbrace.2]
    rfl

theorem scan_quoted {body : List Char} (h : '\'' ∉ body) :
    scan ('\'' :: (body ++ '\'' :: rest)) = .quoted body :: scan rest := by
  have hnext : next '\'' (body ++ '\'' :: rest) = (.quoted body, rest) := by
    rw [next, if_pos rfl, closeQuote?_append h]
  rw [scan, hnext]

theorem scan_mark {name : List Char} (h : Text.isWord name) :
    scan ('{' :: (name ++ '}' :: rest)) = .mark name :: scan rest := by
  have hnext : next '{' (name ++ '}' :: rest) = (.mark name, rest) := by
    rw [next, if_neg (by decide), if_pos rfl, closeMark?_append h]
  rw [scan, hnext]

end Piece

/-- One segment is scanned as its own pieces, whatever comes after it. -/
theorem Segment.scan_text (segment : Segment) (rest : List Char) :
    Piece.scan (segment.text.toList ++ rest) = segment.pieces ++ Piece.scan rest := by
  cases segment with
  | plain text unquoted unopened => exact Piece.scan_plain unquoted unopened
  | quoted body unquoted =>
    have htext : (text (.quoted body unquoted)).toList ++ rest
        = '\'' :: (body.toList ++ '\'' :: rest) := by
      simp [text, toList_append]
    rw [htext, Piece.scan_quoted unquoted]
    rfl
  | mark name word =>
    have htext : (text (.mark name word)).toList ++ rest
        = '{' :: (name.toList ++ '}' :: rest) := by
      simp [text, toList_append]
    rw [htext, Piece.scan_mark word]
    rfl

/-- Scanning takes a text apart where its segments meet. -/
theorem scan_written (segments : List Segment) :
    Piece.scan (written segments).toList = segments.flatMap Segment.pieces := by
  rw [written, toList_join, flatMap_map]
  induction segments with
  | nil => rw [flatMap_nil, flatMap_nil, Piece.scan]
  | cons segment rest ih => rw [flatMap_cons, flatMap_cons, segment.scan_text, ih]

/-! ## Replacing -/

variable {substitutions : List (String × String)}

/-- The pieces of a segment are replaced by the text that comes in its place. -/
theorem Segment.replace_pieces (h : segment.unknown? substitutions = none) :
    ∃ text parts, segment.filled? substitutions = some text
      ∧ segment.pieces.mapM (Piece.replace substitutions) = .ok parts
      ∧ parts.flatten = text.toList := by
  cases segment with
  | plain body unquoted unopened =>
    refine ⟨body, body.toList.map fun c => [c], rfl, mapM_eq_ok_iff.mpr ?_, ?_⟩
    · rw [pieces, forall₂_map_left_iff, forall₂_map_right_iff]
      exact forall₂_same.mpr fun _ _ => rfl
    · rw [← flatMap_def, flatMap_singleton']
  | quoted body unquoted =>
    refine ⟨"'" ++ body ++ "'", [(Piece.quoted body.toList).chars], rfl, rfl, ?_⟩
    simp [Piece.chars, toList_append]
  | mark name word =>
    cases hfound : substitutions.lookup name with
    | none => simp [unknown?, hfound] at h
    | some text =>
      have hreplace : Piece.replace substitutions (.mark name.toList) = .ok text.toList := by
        rw [Piece.replace, ofList_toList, hfound]
      refine ⟨text, [text.toList], hfound, ?_, append_nil _⟩
      rw [pieces, mapM_cons, hreplace]
      rfl

/-- Without unknown marks, the pieces are replaced by the texts in place of the
segments. -/
theorem replace_segments : ∀ {segments : List Segment},
    (∀ segment ∈ segments, segment.unknown? substitutions = none) →
      ∃ parts, (segments.flatMap Segment.pieces).mapM (Piece.replace substitutions) = .ok parts
        ∧ parts.flatten = (filled substitutions segments).toList
  | [], _ => ⟨[], rfl, rfl⟩
  | segment :: rest, h => by
    obtain ⟨hfirst, hrest⟩ := forall_mem_cons.mp h
    obtain ⟨text, parts, hfilled, hparts, hflatten⟩ := Segment.replace_pieces hfirst
    obtain ⟨parts', hparts', hflatten'⟩ := replace_segments hrest
    refine ⟨parts ++ parts', ?_, ?_⟩
    · rw [flatMap_cons, mapM_append, hparts, hparts']
      rfl
    · rw [flatten_append, hflatten, hflatten', filled, filled,
        filterMap_cons_some hfilled, join_cons, toList_append]

/-- A mark without a substitution cannot be replaced. -/
theorem Segment.replace_unknown {name : String} (h : segment.unknown? substitutions = some name) :
    segment.pieces.mapM (Piece.replace substitutions) = .error name := by
  cases segment with
  | plain | quoted => cases h
  | mark found word =>
    have hnone : substitutions.lookup found = none ∧ found = name := by
      simpa [unknown?] using h
    have hreplace : Piece.replace substitutions (.mark found.toList) = .error name := by
      rw [Piece.replace, ofList_toList, hnone.1, hnone.2]
    rw [pieces, mapM_cons, hreplace]
    rfl

/-- The first unknown mark is the one that replacing stops at. -/
theorem replace_of_unknown {before after : List Segment} {name : String}
    (hbefore : ∀ known ∈ before, known.unknown? substitutions = none)
    (hsegment : segment.unknown? substitutions = some name) :
    ((before ++ segment :: after).flatMap Segment.pieces).mapM (Piece.replace substitutions)
      = .error name := by
  obtain ⟨parts, hparts, -⟩ := replace_segments hbefore
  rw [flatMap_append, flatMap_cons, mapM_append, hparts, mapM_append,
    Segment.replace_unknown hsegment]
  rfl

end Query

namespace Plan

open Query

/-- Substitution replaces the marks of a text and nothing else, or stops at the
first of them that has no substitution and blames it together with the text as it
was given. What a mark is replaced by can be any text, with quotes and braces
too. -/
theorem substituted_written (substitutions : List (String × String)) (segments : List Segment) :
    substituted substitutions (written segments)
      = (unknown? substitutions segments).elim (.ok (filled substitutions segments))
        fun name => .error (.query (.unknownMark name (written segments))) := by
  rw [substituted, substitute, scan_written]
  cases hunknown : unknown? substitutions segments with
  | none =>
    obtain ⟨parts, hparts, hflatten⟩ :=
      replace_segments (findSome?_eq_none_iff.mp hunknown)
    rw [hparts]
    simp only [Bind.bind, Except.bind, Pure.pure, Except.pure, hflatten, ofList_toList]
    rfl
  | some name =>
    obtain ⟨before, segment, after, rfl, hsegment, hbefore⟩ :=
      findSome?_eq_some_iff.mp hunknown
    rw [replace_of_unknown hbefore hsegment]
    rfl

end Plan

end EntityQuery
