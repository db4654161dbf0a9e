import SatSearch.Random.Draw
/-!
# What a draw gives

A draw is a function of the generator, and it may end in a fault. `d.Meets P Q` speaks of all
generators at once: every value that `d` gives satisfies `P`, and every fault that it ends in
satisfies `Q`. A chain of draws meets what its links meet (`Meets.bind`), so each draw of the library
has one statement of this kind. With `Q` the fault `endlessDraw` alone, it says that nothing but
a draw without an accepted word can keep the value from being given.
-/

namespace SatSearch

theorem exists_eq_ok_of_isOk {ε α : Type} {x : Except ε α} (h : x.isOk = true) : ∃ a, x = .ok a := by
  cases x with
  | ok a => exact ⟨a, rfl⟩
  | error e => cases h

theorem exists_eq_ok_of_map {ε α β : Type} {x : Except ε α} {f : α → β} {b : β}
    (h : x.toOption.map f = some b) : ∃ a, x = .ok a ∧ f a = b := by
  cases x with
  | ok a => exact ⟨a, rfl, Option.some.inj h⟩
  | error e => cases h

namespace Draw

variable {α β : Type} {d : Draw α} {f : α → Draw β} {g g' : Generator}

/-! ## Chains -/

@[simp] theorem pure_apply (a : α) (g : Generator) : (pure a : Draw α) g = .ok (a, g) := rfl

@[simp] theorem lift_ok (a : α) (g : Generator) : (liftM (Except.ok a : Except Fault α) : Draw α) g = .ok (a, g) :=
  rfl

@[simp] theorem lift_error (e : Fault) (g : Generator) :
    (liftM (Except.error e : Except Fault α) : Draw α) g = .error e := rfl

theorem lift_map (x : Except Fault α) (f : α → β) :
    (liftM (f <$> x) : Draw β) = f <$> (liftM x : Draw α) := by
  cases x <;> rfl

theorem lift_eq_ok {x : Except Fault α} {r : α × Generator} (h : (liftM x : Draw α) g = .ok r) :
    x = .ok r.1 ∧ r.2 = g := by
  cases x with
  | ok a =>
    rw [lift_ok] at h
    cases h
    exact ⟨rfl, rfl⟩
  | error e => cases h

theorem lift_eq_error {x : Except Fault α} {e : Fault} (h : (liftM x : Draw α) g = .error e) :
    x = .error e := by
  cases x with
  | ok a => cases h
  | error e' =>
    rw [lift_error] at h
    cases h
    rfl

theorem bind_of_ok {a : α} (h : d g = .ok (a, g')) : (d >>= f) g = f a g' := by
  simp only [bind, StateT.bind, h, Except.bind]

theorem bind_of_error {e : Fault} (h : d g = .error e) : (d >>= f) g = .error e := by
  simp only [bind, StateT.bind, h, Except.bind]

theorem bind_eq_ok {r : β × Generator} (h : (d >>= f) g = .ok r) :
    ∃ a g', d g = .ok (a, g') ∧ f a g' = .ok r := by
  cases hd : d g with
  | ok p => exact ⟨p.1, p.2, rfl, by rwa [bind_of_ok hd] at h⟩
  | error e =>
    rw [bind_of_error hd] at h
    cases h

theorem bind_eq_error {e : Fault} (h : (d >>= f) g = .error e) :
    d g = .error e ∨ ∃ a g', d g = .ok (a, g') ∧ f a g' = .error e := by
  cases hd : d g with
  | ok p => exact .inr ⟨p.1, p.2, rfl, by rwa [bind_of_ok hd] at h⟩
  | error e' =>
    rw [bind_of_error hd] at h
    cases h
    exact .inl rfl

theorem map_of_ok {h : α → β} {a : α} (hd : d g = .ok (a, g')) : (h <$> d) g = .ok (h a, g') := by
  rw [map_eq_pure_bind, bind_of_ok hd, pure_apply]

theorem map_of_error {h : α → β} {e : Fault} (hd : d g = .error e) : (h <$> d) g = .error e := by
  rw [map_eq_pure_bind, bind_of_error hd]

/-! ## Draws with a common image -/

section
variable {γ : Type} {d' : Draw β} {h : α → γ} {h' : β → γ} (he : h <$> d = h' <$> d')
include he

theorem ok_of_map_eq {a : α} (hd : d g = .ok (a, g')) : ∃ b, d' g = .ok (b, g') ∧ h' b = h a := by
  have himage : (h' <$> d') g = .ok (h a, g') := by rw [← he, map_of_ok hd]
  cases hd' : d' g with
  | ok q =>
    obtain ⟨b, g''⟩ := q
    rw [map_of_ok hd'] at himage
    obtain ⟨hb, hg⟩ := Prod.mk.inj (Except.ok.inj himage)
    exact ⟨b, by rw [hg], hb⟩
  | error e =>
    rw [map_of_error hd'] at himage
    cases himage

theorem error_of_map_eq {e : Fault} (hd : d g = .error e) : d' g = .error e := by
  have himage : (h' <$> d') g = .error e := by rw [← he, map_of_error hd]
  cases hd' : d' g with
  | ok q =>
    rw [map_of_ok hd'] at himage
    cases himage
  | error e' =>
    rw [map_of_error hd'] at himage
    rw [Except.error.inj himage]

end

/-! ## Values and faults -/

/-- All values of the draw satisfy `P` and all of its faults satisfy `Q`. -/
structure Meets (d : Draw α) (P : α → Prop) (Q : Fault → Prop) : Prop where
  value : ∀ {g a g'}, d g = .ok (a, g') → P a
  fault : ∀ {g e}, d g = .error e → Q e

/-- The fault of a draw that meets no accepted word. -/
def Endless (e : Fault) : Prop := e = .endlessDraw

section
variable {P P' : α → Prop} {R : β → Prop} {Q Q' : Fault → Prop}

theorem Meets.mono (h : d.Meets P Q) (hP : ∀ a, P a → P' a) (hQ : ∀ e, Q e → Q' e) :
    d.Meets P' Q' :=
  ⟨fun hd => hP _ (h.value hd), fun hd => hQ _ (h.fault hd)⟩

theorem Meets.pure {a : α} (h : P a) : (Pure.pure a : Draw α).Meets P Q where
  value hd := by
    rw [pure_apply] at hd
    cases hd
    exact h
  fault hd := by cases hd

theorem Meets.lift {x : Except Fault α} (hP : ∀ a, x = .ok a → P a) (hQ : ∀ e, x = .error e → Q e) :
    (liftM x : Draw α).Meets P Q where
  value hd := hP _ (lift_eq_ok hd).1
  fault hd := hQ _ (lift_eq_error hd)

theorem Meets.bind (hd : d.Meets P Q) (hf : ∀ a, P a → (f a).Meets R Q) :
    (d >>= f).Meets R Q where
  value h := by
    obtain ⟨a, g', ha, hb⟩ := bind_eq_ok h
    exact (hf a (hd.value ha)).value hb
  fault h := by
    rcases bind_eq_error h with he | ⟨a, g', ha, he⟩
    · exact hd.fault he
    · exact (hf a (hd.value ha)).fault he

/-- How a chain goes on counts only for the values that its first link gives. -/
theorem Meets.bind_congr {f' : α → Draw β} (hd : d.Meets P Q) (hf : ∀ a, P a → f a = f' a) :
    d >>= f = d >>= f' := by
  funext g
  cases h : d g with
  | ok q =>
    obtain ⟨a, g'⟩ := q
    rw [bind_of_ok h, bind_of_ok h, hf a (hd.value h)]
  | error e => rw [bind_of_error h, bind_of_error h]

theorem Meets.ofGenerator {h : Generator → α × Generator} (hP : ∀ g, P (h g).1) :
    (Draw.ofGenerator h).Meets P Q where
  value {g a g'} hd := by
    have e : h g = (a, g') := Except.ok.inj hd
    rw [show a = (h g).1 by rw [e]]
    exact hP g
  fault hd := by cases hd

end

/-! ## Numbers below a bound -/

theorem next_lt (size : WordSize) (g : Generator) : (size.next g).1 < size.modulus := by
  cases size with
  | narrow => exact g.next.1.toNat_lt
  | wide => exact g.next64.1.toNat_lt

theorem firstAccepted_eq_error {size : WordSize} {accept : Nat → Option α} {tries : Nat} {e : Fault}
    (h : firstAccepted size accept tries g = .error e) : e = .endlessDraw := by
  induction tries generalizing g with
  | zero =>
    cases h
    rfl
  | succ tries ih =>
    unfold firstAccepted at h
    dsimp only at h
    split at h
    · cases h
    · exact ih h

theorem meets_untilAccepted {size : WordSize} {accept : Nat → Option α} {P : α → Prop}
    (h : ∀ word a, word < size.modulus → accept word = some a → P a) :
    (untilAccepted size accept).Meets P Endless where
  value hd := by
    obtain ⟨g₀, ha, -⟩ := firstAccepted_eq_ok hd
    exact h _ _ (next_lt size g₀) ha
  fault hd := firstAccepted_eq_error hd

theorem meets_below (size : WordSize) {bound : Nat} (h : 0 < bound) :
    (below size bound).Meets (· < bound) Endless :=
  meets_untilAccepted fun _ _ hw ha => scaled_lt h hw ha

/-- Nothing is drawn from the empty list only, and from every other an entry. -/
theorem meets_choose (xs : List α) :
    (choose xs).Meets (fun drawn => (drawn = none ↔ xs = []) ∧ ∀ x, drawn = some x → x ∈ xs) Endless := by
  unfold choose
  split
  · next he => exact .pure ⟨by simpa using he, fun x hx => by cases hx⟩
  · next he =>
    have hne : xs ≠ [] := fun h => he (by rw [h]; rfl)
    refine (meets_below _ (List.length_pos_iff.2 hne)).bind fun i hi => ?_
    rw [List.getElem?_eq_getElem hi]
    refine .pure ⟨by simp [hne], fun x hx => ?_⟩
    cases hx
    exact List.getElem_mem hi

end Draw

end SatSearch
