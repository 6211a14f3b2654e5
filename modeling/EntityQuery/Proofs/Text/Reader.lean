import EntityQuery.Text.Reader

/-!
# How readers behave

What each way of joining readers does, said once: when a joined reader succeeds
and with what, and when it fails. A failure is only ever looked at for being
one (`Fails`), since no reader depends on the place where another one stopped.
-/

namespace EntityQuery.Reader

open Except

variable {α β : Type}

def Fails (p : Reader α) (text : List Char) : Prop :=
  ∃ place, p text = .error place

section Joined

variable {p q : Reader α} {f : α → Reader β} {text mid rest : List Char} {a : α} {b : β}

theorem fails_or_ok (p : Reader α) (text : List Char) :
    Fails p text ∨ ∃ a rest, p text = .ok (a, rest) := by
  cases h : p text with
  | error place => exact .inl ⟨place, h⟩
  | ok result => exact .inr ⟨result.1, result.2, rfl⟩

theorem Fails.not_ok (h : Fails p text) : p text ≠ .ok (a, rest) := by
  obtain ⟨place, h⟩ := h
  rw [h]
  exact nofun

theorem fails_of_not_ok (h : ∀ a rest, p text ≠ .ok (a, rest)) : Fails p text := by
  rcases fails_or_ok p text with hfails | ⟨a, rest, hok⟩
  · exact hfails
  · exact (h a rest hok).elim

theorem pure_eq_ok {a' : α} : (pure a : Reader α) text = .ok (a', rest) ↔ a' = a ∧ rest = text := by
  show ok (a, text) = ok (a', rest) ↔ _
  rw [ok.injEq, Prod.mk.injEq]
  exact ⟨fun h => ⟨h.1.symm, h.2.symm⟩, fun h => ⟨h.1.symm, h.2.symm⟩⟩

theorem bind_of_ok (h : p text = .ok (a, mid)) : (p >>= f) text = f a mid := by
  simp only [Bind.bind, h]

theorem bind_of_error {place : List Char} (h : p text = .error place) :
    (p >>= f) text = .error place := by
  simp only [Bind.bind, h]

theorem bind_ok (h : p text = .ok (a, mid)) (hf : f a mid = .ok (b, rest)) :
    (p >>= f) text = .ok (b, rest) :=
  (bind_of_ok h).trans hf

theorem bind_eq_ok :
    (p >>= f) text = .ok (b, rest) ↔ ∃ a mid, p text = .ok (a, mid) ∧ f a mid = .ok (b, rest) := by
  constructor
  · intro h
    rcases fails_or_ok p text with ⟨place, hfails⟩ | ⟨a, mid, hok⟩
    · rw [bind_of_error hfails] at h
      cases h
    · rw [bind_of_ok hok] at h
      exact ⟨a, mid, hok, h⟩
  · rintro ⟨a, mid, hok, h⟩
    rw [bind_of_ok hok, h]

theorem Fails.bind (h : Fails p text) : Fails (p >>= f) text := by
  refine fails_of_not_ok fun b rest hok => ?_
  obtain ⟨a, mid, hp, -⟩ := bind_eq_ok.mp hok
  exact h.not_ok hp

/-- The second part fails on what the first one leaves. -/
theorem Fails.after (h : p text = .ok (a, mid)) (hf : Fails (f a) mid) : Fails (p >>= f) text := by
  obtain ⟨place, hf⟩ := hf
  exact ⟨place, (bind_of_ok h).trans hf⟩

theorem orElse_of_ok (h : p text = .ok (a, rest)) : p.orElse q text = .ok (a, rest) := by
  unfold orElse
  rw [h]

theorem orElse_of_fails (h : Fails p text) : p.orElse q text = q text := by
  obtain ⟨place, h⟩ := h
  unfold orElse
  rw [h]

theorem orElse_eq_ok :
    p.orElse q text = .ok (a, rest)
      ↔ p text = .ok (a, rest) ∨ Fails p text ∧ q text = .ok (a, rest) := by
  constructor
  · intro h
    rcases fails_or_ok p text with hfails | ⟨a', rest', hok⟩
    · rw [orElse_of_fails hfails] at h
      exact .inr ⟨hfails, h⟩
    · rw [orElse_of_ok hok] at h
      exact .inl (hok.trans h)
  · rintro (h | ⟨hfails, h⟩)
    · exact orElse_of_ok h
    · rw [orElse_of_fails hfails, h]

theorem Fails.orElse (h : Fails p text) (h' : Fails q text) : Fails (p.orElse q) text := by
  obtain ⟨place, h'⟩ := h'
  exact ⟨place, (orElse_of_fails h).trans h'⟩

theorem oneOf_nil (last : Reader α) : oneOf last [] = last := rfl

theorem oneOf_cons (last p : Reader α) (others : List (Reader α)) :
    oneOf last (p :: others) = p.orElse (oneOf last others) := rfl

theorem optional_of_ok (h : p text = .ok (a, rest)) : p.optional text = .ok (some a, rest) := by
  unfold optional
  rw [h]

theorem optional_of_fails (h : Fails p text) : p.optional text = .ok (none, text) := by
  obtain ⟨place, h⟩ := h
  unfold optional
  rw [h]

theorem optional_eq_ok {found : Option α} (h : p.optional text = .ok (found, rest)) :
    (∃ a, found = some a ∧ p text = .ok (a, rest))
      ∨ (found = none ∧ rest = text ∧ Fails p text) := by
  rcases fails_or_ok p text with hfails | ⟨a, mid, hok⟩
  · rw [optional_of_fails hfails] at h
    cases h
    exact .inr ⟨rfl, rfl, hfails⟩
  · rw [optional_of_ok hok] at h
    cases h
    exact .inl ⟨a, rfl, hok⟩

theorem present_of_ok (h : p text = .ok (a, rest)) : p.present text = .ok (true, rest) :=
  bind_of_ok (optional_of_ok h)

theorem present_of_fails (h : Fails p text) : p.present text = .ok (false, text) :=
  bind_of_ok (optional_of_fails h)

theorem present_eq_ok {found : Bool} (h : p.present text = .ok (found, rest)) :
    (found = true ∧ ∃ a, p text = .ok (a, rest))
      ∨ (found = false ∧ rest = text ∧ Fails p text) := by
  rcases fails_or_ok p text with hfails | ⟨a, mid, hok⟩
  · rw [present_of_fails hfails] at h
    cases h
    exact .inr ⟨rfl, rfl, hfails⟩
  · rw [present_of_ok hok] at h
    cases h
    exact .inl ⟨rfl, a, hok⟩

theorem check_of_ok {test : α → Bool} (h : p text = .ok (a, rest)) (htest : test a) :
    p.check test text = .ok (a, rest) := by
  unfold check
  rw [h]
  exact if_pos htest

theorem check_eq_ok {test : α → Bool} :
    p.check test text = .ok (a, rest) ↔ p text = .ok (a, rest) ∧ test a = true := by
  constructor
  · intro h
    unfold check at h
    split at h
    · rename_i a' rest' hok
      split at h
      · rename_i htest
        cases h
        exact ⟨hok, htest⟩
      · cases h
    · cases h
  · rintro ⟨h, htest⟩
    exact check_of_ok h htest

theorem convert_of_ok {g : α → Option β} (h : p text = .ok (a, rest)) (hg : g a = some b) :
    p.convert g text = .ok (b, rest) := by
  simp only [convert, h, hg]

theorem convert_eq_ok {g : α → Option β} :
    p.convert g text = .ok (b, rest) ↔ ∃ a, p text = .ok (a, rest) ∧ g a = some b := by
  constructor
  · intro h
    unfold convert at h
    split at h
    · rename_i a rest' hok
      split at h
      · rename_i b' hg
        cases h
        exact ⟨a, hok, hg⟩
      · cases h
    · cases h
  · rintro ⟨a, h, hg⟩
    exact convert_of_ok h hg

theorem repeated_of_ok (h : p text = .ok (a, rest)) (hlt : rest.length < text.length) :
    repeated p text = (a :: (repeated p rest).1, (repeated p rest).2) := by
  rw [repeated, h]
  exact if_pos hlt

theorem repeated_of_fails (h : Fails p text) : repeated p text = ([], text) := by
  obtain ⟨place, h⟩ := h
  rw [repeated, h]

theorem many_eq_ok {as : List α} : p.many text = .ok (as, rest) ↔ repeated p text = (as, rest) := by
  show ok (repeated p text) = ok (as, rest) ↔ _
  rw [ok.injEq]

/-- Where nothing was read, nothing was taken. -/
theorem eq_of_repeated_nil (h : repeated p text = ([], rest)) : rest = text := by
  rcases fails_or_ok p text with hfails | ⟨a, mid, hok⟩
  · rw [repeated_of_fails hfails] at h
    exact (Prod.mk.inj h).2.symm
  · by_cases hlt : mid.length < text.length
    · rw [repeated_of_ok hok hlt] at h
      cases (Prod.mk.inj h).1
    · rw [repeated, hok] at h
      simp only [hlt, if_false] at h
      exact (Prod.mk.inj h).2.symm

theorem of_sepBy_singleton {separator : Reader β}
    (h : separator.sepBy p text = .ok ([a], rest)) : p text = .ok (a, rest) := by
  obtain ⟨found, mid, hfound, h⟩ := bind_eq_ok.mp h
  obtain ⟨hlist, rfl⟩ := pure_eq_ok.mp h
  rcases optional_eq_ok hfound with ⟨as, rfl, has⟩ | ⟨rfl, -, -⟩
  · obtain ⟨first, after, hfirst, has⟩ := bind_eq_ok.mp has
    obtain ⟨others, last, hothers, has⟩ := bind_eq_ok.mp has
    obtain ⟨rfl, rfl⟩ := pure_eq_ok.mp has
    obtain ⟨rfl, rfl⟩ := List.cons.inj hlist
    rw [eq_of_repeated_nil (many_eq_ok.mp hothers)]
    exact hfirst
  · cases hlist

section Marked

variable {mark : Reader Unit} {change : α → α}

theorem marked_of_fails (h : Fails mark text) : marked mark change p text = p text := by
  obtain ⟨place, h⟩ := h
  rw [marked, h]

theorem marked_of_ok (h : mark text = .ok ((), mid)) (hlt : mid.length < text.length)
    (hmid : marked mark change p mid = .ok (a, rest)) :
    marked mark change p text = .ok (change a, rest) := by
  rw [marked, h]
  simp only [hlt, if_true, hmid]

theorem marked_eq_ok (h : marked mark change p text = .ok (a, rest)) :
    p text = .ok (a, rest)
      ∨ ∃ mid b, mark text = .ok ((), mid) ∧ mid.length < text.length
        ∧ marked mark change p mid = .ok (b, rest) ∧ a = change b := by
  rw [marked] at h
  rcases fails_or_ok mark text with ⟨place, hplace⟩ | ⟨⟨⟩, mid, hmark⟩
  · rw [hplace] at h
    exact .inl h
  · rw [hmark] at h
    by_cases hlt : mid.length < text.length
    · simp only [hlt, if_true] at h
      rcases fails_or_ok (marked mark change p) mid with ⟨place, hplace⟩ | ⟨b, left, hb⟩
      · rw [hplace] at h
        exact .inl h
      · rw [hb] at h
        obtain ⟨rfl, rfl⟩ := Prod.mk.inj (ok.inj h)
        exact .inr ⟨mid, b, hmark, hlt, hb, rfl⟩
    · simp only [hlt, if_false] at h
      exact .inl h

end Marked

end Joined

end EntityQuery.Reader
