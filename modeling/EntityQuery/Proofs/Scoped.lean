import Mathlib.Data.List.Forall2
import EntityQuery.Scope.Basic

/-!
# Runs of a compilation step

A step of the compilation takes a scope and gives a value with the scope
after it, or fails. The lemmas here take a run that succeeded apart: a
sequence into the runs of its parts, each basic step into what it returns
and what it leaves behind. With them the other proofs read off what a step
did without opening the monad again.

Failing never succeeds, so the branches of a definition that fail drop out
of a case analysis (`not_run_fail`, `not_run_misuse`).
-/

namespace EntityQuery

open List

/-! ## Results that may fail -/

section

variable {ε α β : Type} {x : Except ε α} {f : α → Except ε β} {a : α} {b : β} {fault : ε}
  {R : α → β → Prop} {as : List α} {bs : List β}

theorem bind_eq_ok : (x >>= f) = .ok b ↔ ∃ a, x = .ok a ∧ f a = .ok b := by
  cases x with
  | error fault | ok a => simp [bind, Except.bind]

theorem bind_eq_error (h : (x >>= f) = .error fault) :
    x = .error fault ∨ ∃ a, x = .ok a ∧ f a = .error fault := by
  cases x with
  | error fault' =>
    obtain rfl := Except.error.inj h
    exact .inl rfl
  | ok a => exact .inr ⟨a, rfl, h⟩

theorem toOption_bind (x : Except ε α) (f : α → Except ε β) :
    (x >>= f).toOption = x.toOption.bind fun a => (f a).toOption := by
  cases x <;> rfl

theorem toOption_eq_some : x.toOption = some a ↔ x = .ok a := by
  cases x <;> simp [Except.toOption]

theorem exists_ok_of_any {p : α → Bool} (h : x.toOption.any p) :
    ∃ a, x = .ok a ∧ p a = true := by
  cases x with
  | error fault => cases h
  | ok a => exact ⟨a, rfl, h⟩

/-! Of what a computation gives, `P` is evaluated, and the rest follows. -/

theorem exists_ok_and {Q : α → Prop} (P : α → Prop) [DecidablePred P]
    (hx : x.toOption.any (fun a => decide (P a)) = true) (h : ∀ a, x = .ok a → P a → Q a) :
    ∃ a, x = .ok a ∧ Q a := by
  obtain ⟨a, ha, htest⟩ := exists_ok_of_any hx
  exact ⟨a, ha, h a ha (of_decide_eq_true htest)⟩

theorem exists_ok_exists_and {Q : α → β → Prop} (P : α → Prop) [DecidablePred P]
    (hx : x.toOption.any (fun a => decide (P a)) = true)
    (h : ∀ a, x = .ok a → P a → ∃ b, Q a b) : ∃ a b, x = .ok a ∧ Q a b := by
  obtain ⟨a, ha, b, hb⟩ := exists_ok_and P hx h
  exact ⟨a, b, ha, hb⟩

theorem exists_ok_of_isSome (h : x.toOption.isSome) : ∃ a, x = .ok a := by
  obtain ⟨a, ha⟩ := Option.isSome_iff_exists.mp h
  exact ⟨a, toOption_eq_some.mp ha⟩

theorem mapM_eq_ok_iff : ∀ {as : List α} {bs : List β},
    as.mapM f = .ok bs ↔ List.Forall₂ (fun a b => f a = .ok b) as bs
  | [], bs => by
    simp [pure, Except.pure, eq_comm]
  | a :: rest, bs => by
    rw [mapM_cons, forall₂_cons_left_iff]
    cases ha : f a with
    | error fault => simp [bind, Except.bind]
    | ok b =>
      cases hrest : rest.mapM f with
      | error fault =>
        have hnone : ∀ bs', ¬List.Forall₂ (fun a b => f a = .ok b) rest bs' := by
          intro bs' h
          rw [mapM_eq_ok_iff.mpr h] at hrest
          cases hrest
        simp [bind, Except.bind, hnone]
      | ok bs' =>
        have hrest' := mapM_eq_ok_iff.mp hrest
        simp only [bind, Except.bind, pure, Except.pure, Except.ok.injEq]
        constructor
        · rintro rfl
          exact ⟨b, bs', rfl, hrest', rfl⟩
        · rintro ⟨_, bs'', rfl, h, rfl⟩
          rw [mapM_eq_ok_iff.mpr h] at hrest
          rw [Except.ok.inj hrest]

theorem exists_mapM_eq_ok : ∀ {as : List α},
    (∃ bs, as.mapM f = .ok bs) ↔ ∀ a ∈ as, ∃ b, f a = .ok b
  | [] => iff_of_true ⟨[], rfl⟩ (forall_mem_nil _)
  | a :: rest => by
    rw [forall_mem_cons, ← exists_mapM_eq_ok]
    constructor
    · rintro ⟨bs, h⟩
      cases mapM_eq_ok_iff.mp h with
      | cons hhead htail => exact ⟨⟨_, hhead⟩, _, mapM_eq_ok_iff.mpr htail⟩
    · rintro ⟨⟨b, hhead⟩, bs, htail⟩
      exact ⟨b :: bs, mapM_eq_ok_iff.mpr (.cons hhead (mapM_eq_ok_iff.mp htail))⟩

/-- A map over a list fails as the first element does at which it fails. -/
theorem mapM_eq_error_iff : ∀ {as : List α},
    as.mapM f = .error fault ↔ ∃ before a after, as = before ++ a :: after
      ∧ (∀ b ∈ before, ∃ c, f b = .ok c) ∧ f a = .error fault
  | [] => by
    constructor
    · intro h
      cases h
    · rintro ⟨before, a, after, has, -⟩
      cases before <;> cases has
  | a :: rest => by
    rw [mapM_cons]
    cases ha : f a with
    | error fault' =>
      constructor
      · intro h
        obtain rfl := Except.error.inj h
        exact ⟨[], a, rest, rfl, forall_mem_nil _, ha⟩
      · rintro ⟨before, a', after, has, hbefore, hfault⟩
        cases before with
        | nil =>
          obtain ⟨rfl, -⟩ := List.cons.inj has
          obtain rfl := Except.error.inj (ha.symm.trans hfault)
          rfl
        | cons first before =>
          obtain ⟨rfl, -⟩ := List.cons.inj has
          obtain ⟨c, hc⟩ := hbefore a (.head _)
          cases ha.symm.trans hc
    | ok b =>
      have hrest : (rest.mapM f >>= fun bs => pure (b :: bs)) = .error fault
          ↔ rest.mapM f = .error fault := by
        cases rest.mapM f with
        | error fault' => exact Iff.rfl
        | ok bs => simp [pure, Except.pure, bind, Except.bind]
      refine hrest.trans (mapM_eq_error_iff.trans ?_)
      constructor
      · rintro ⟨before, a', after, rfl, hbefore, hfault⟩
        exact ⟨a :: before, a', after, rfl, forall_mem_cons.mpr ⟨⟨b, ha⟩, hbefore⟩, hfault⟩
      · rintro ⟨before, a', after, has, hbefore, hfault⟩
        cases before with
        | nil =>
          obtain ⟨rfl, -⟩ := List.cons.inj has
          cases ha.symm.trans hfault
        | cons first before =>
          obtain ⟨rfl, rfl⟩ := List.cons.inj has
          exact ⟨before, a', after, rfl, fun b hb => hbefore b (.tail _ hb), hfault⟩

theorem exists_error_of_mapM (h : as.mapM f = .error fault) : ∃ a ∈ as, f a = .error fault := by
  obtain ⟨before, a, after, rfl, -, hfault⟩ := mapM_eq_error_iff.mp h
  exact ⟨a, mem_append_right _ (.head _), hfault⟩

theorem exists_getElem?_of_forall₂ (h : List.Forall₂ R as bs) {number : Nat}
    (hb : bs[number]? = some b) :
    ∃ a, as[number]? = some a ∧ R a b := by
  obtain ⟨hnumber, rfl⟩ := List.getElem?_eq_some_iff.mp hb
  have hnumber' : number < as.length := h.length_eq ▸ hnumber
  exact ⟨as[number], List.getElem?_eq_getElem hnumber', h.get hnumber' hnumber⟩

theorem exists_left_of_forall₂ (h : List.Forall₂ R as bs) (hb : b ∈ bs) : ∃ a ∈ as, R a b := by
  obtain ⟨position, hposition⟩ := mem_iff_getElem?.mp hb
  obtain ⟨a, ha, hab⟩ := exists_getElem?_of_forall₂ h hposition
  exact ⟨a, mem_of_getElem? ha, hab⟩

theorem exists_right_of_forall₂ (h : List.Forall₂ R as bs) (ha : a ∈ as) : ∃ b ∈ bs, R a b :=
  exists_left_of_forall₂ (R := flip R) (List.Forall₂.flip h) ha

end

namespace Scoped

variable {α β : Type} {s s' : Scope} {x : Scoped α} {f : α → Scoped β} {a : α} {b : β}

theorem run_bind : (x >>= f).run s = .ok (b, s') ↔
    ∃ a s₁, x.run s = .ok (a, s₁) ∧ (f a).run s₁ = .ok (b, s') := by
  rw [StateT.run_bind]
  cases hx : x.run s with
  | error fault => simp [bind, Except.bind]
  | ok p =>
    obtain ⟨a, s₁⟩ := p
    simp only [bind, Except.bind, Except.ok.injEq, Prod.mk.injEq]
    constructor
    · intro hf
      exact ⟨a, s₁, ⟨rfl, rfl⟩, hf⟩
    · rintro ⟨_, _, ⟨rfl, rfl⟩, hf⟩
      exact hf

theorem run_bind_of_ok (h : x.run s = .ok (a, s')) : (x >>= f).run s = (f a).run s' := by
  rw [StateT.run_bind, h]
  rfl

theorem run_bind_of_error {fault : Error} (h : x.run s = .error fault) :
    (x >>= f).run s = .error fault := by
  rw [StateT.run_bind, h]
  rfl

theorem run_pure {a b : α} : (pure a : Scoped α).run s = .ok (b, s') ↔ a = b ∧ s = s' := by
  rw [StateT.run_pure]
  simp [pure, Except.pure]

theorem run_map {f : α → β} :
    (f <$> x).run s = .ok (b, s') ↔ ∃ a, x.run s = .ok (a, s') ∧ f a = b := by
  rw [← bind_pure_comp, run_bind]
  constructor
  · rintro ⟨a, s₁, hx, hp⟩
    obtain ⟨rfl, rfl⟩ := run_pure.mp hp
    exact ⟨a, hx, rfl⟩
  · rintro ⟨a, hx, rfl⟩
    exact ⟨a, s', hx, run_pure.mpr ⟨rfl, rfl⟩⟩

theorem run_get {b : Scope} : (get : Scoped Scope).run s = .ok (b, s') ↔ s = b ∧ s = s' := by
  rw [StateT.run_get]
  simp [pure, Except.pure]

theorem run_set {b : Unit} {t : Scope} : (set t : Scoped Unit).run s = .ok (b, s') ↔ t = s' := by
  rw [StateT.run_set]
  simp [pure, Except.pure]

theorem run_modify {b : Unit} {f : Scope → Scope} :
    (modify f : Scoped Unit).run s = .ok (b, s') ↔ f s = s' := by
  rw [StateT.run_modify]
  simp [pure, Except.pure]

theorem not_run_fail {fault : QueryFault} : ¬(fail fault : Scoped α).run s = .ok (a, s') := by
  intro h
  cases h

theorem not_run_misuse {context : Context} {fault : Misuse} :
    ¬(misuse context fault : Scoped α).run s = .ok (a, s') :=
  not_run_fail

theorem run_ofMapping {x : Except MappingFault α} :
    (ofMapping x).run s = .ok (a, s') ↔ x = .ok a ∧ s = s' := by
  cases x with
  | error fault =>
    constructor
    · intro h
      cases h
    · rintro ⟨h, -⟩
      cases h
  | ok b =>
    simp only [ofMapping, run_pure, Except.ok.injEq]

/-! ## Runs over a list -/

theorem run_foldlM_cons {f : β → α → Scoped β} {b c : β} {a : α} {rest : List α} :
    ((a :: rest).foldlM f b).run s = .ok (c, s') ↔
      ∃ b₁ s₁, (f b a).run s = .ok (b₁, s₁)
        ∧ (rest.foldlM f b₁).run s₁ = .ok (c, s') := by
  rw [foldlM_cons, run_bind]

theorem foldlM_invariant_from {f : β → α → Scoped β} {motive : List α → β → Scope → Prop} :
    ∀ {rest done : List α} {b b' : β} {s s' : Scope},
      (∀ {done : List α} {a : α} {b b' : β} {s s' : Scope}, a ∈ rest → motive done b s →
        (f b a).run s = .ok (b', s') → motive (done ++ [a]) b' s') →
      motive done b s → (rest.foldlM f b).run s = .ok (b', s') → motive (done ++ rest) b' s'
  | [], done, _, _, _, _, _, hstart, h => by
    obtain ⟨rfl, rfl⟩ := run_pure.mp h
    rw [append_nil]
    exact hstart
  | a :: rest, done, _, _, _, _, hround, hstart, h => by
    obtain ⟨b₁, s₁, hfirst, hrest⟩ := run_foldlM_cons.mp h
    have hnext := foldlM_invariant_from (fun ha => hround (.tail _ ha))
      (hround (.head _) hstart hfirst) hrest
    rwa [append_assoc, singleton_append] at hnext

/-- What holds at the start of a fold and is kept by each of its rounds holds
at its end. The invariant may speak of the elements that are done. -/
theorem foldlM_invariant {f : β → α → Scoped β} {motive : List α → β → Scope → Prop}
    {all : List α} {b b' : β} {s s' : Scope}
    (hround : ∀ {done : List α} {a : α} {b b' : β} {s s' : Scope}, a ∈ all → motive done b s →
      (f b a).run s = .ok (b', s') → motive (done ++ [a]) b' s')
    (hstart : motive [] b s) (h : (all.foldlM f b).run s = .ok (b', s')) : motive all b' s' :=
  foldlM_invariant_from hround hstart h

end Scoped

end EntityQuery
