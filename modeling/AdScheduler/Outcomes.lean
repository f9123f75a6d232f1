import Mathlib

/-! Computations that may fail. A strict computation beside a lenient one returns what the
lenient one returns, on a condition, and fails where the condition does not hold; steps that
are strict on their conditions make a loop that is strict on all of them. -/
namespace AdScheduler.Outcomes

variable {ε α β ι : Type*}

lemma exists_ok_of_isOk {r : Except ε α} (h : r.isOk = true) : ∃ x, r = .ok x := by
  cases r with
  | error err => cases h
  | ok x => exact ⟨x, rfl⟩

lemma exists_ok_of_any {r : Except ε α} {P : α → Prop} [DecidablePred P]
    (h : (r.toOption.any fun x => decide (P x)) = true) : ∃ x, r = .ok x ∧ P x := by
  cases r with
  | error err => simp [Except.toOption] at h
  | ok x => exact ⟨x, rfl, by simpa [Except.toOption] using h⟩

def StrictOn (P : Prop) (strict lenient : Except ε α) : Prop :=
  ∀ x, strict = .ok x ↔ P ∧ lenient = .ok x

lemma StrictOn.refl (r : Except ε α) : StrictOn True r r := fun x => by simp

lemma strictOn_error {P : Prop} (h : ¬ P) (err : ε) (lenient : Except ε α) :
    StrictOn P (.error err) lenient := fun x => by simp [h]

section StrictOn
variable {P Q : Prop} {strict lenient : Except ε α}

lemma StrictOn.congr (h : StrictOn P strict lenient) (hPQ : P ↔ Q) : StrictOn Q strict lenient := by
  intro x
  rw [← hPQ]
  exact h x

lemma StrictOn.bind (h : StrictOn P strict lenient) {f g : α → Except ε β}
    (hnext : ∀ x, StrictOn Q (f x) (g x)) : StrictOn (P ∧ Q) (strict.bind f) (lenient.bind g) := by
  intro y
  cases hs : strict with
  | ok x =>
    obtain ⟨hP, hl⟩ := (h x).mp hs
    simpa [Except.bind, hP, hl] using hnext x y
  | error err =>
    have hfails : ∀ x, ¬ (P ∧ lenient = .ok x) := fun x hx => by simp [(h x).mpr hx] at hs
    cases hl : lenient with
    | ok x =>
      have hP : ¬ P := fun hP => hfails x ⟨hP, hl⟩
      simp [Except.bind, hP]
    | error err' => simp [Except.bind]

lemma StrictOn.map (h : StrictOn P strict lenient) (f : α → β) :
    StrictOn P (strict.map f) (lenient.map f) := by
  have hmap : ∀ r : Except ε α, r.map f = r.bind fun x => .ok (f x) := by
    rintro (err | x) <;> rfl
  rw [hmap, hmap]
  exact (h.bind fun x => .refl (.ok (f x))).congr (by simp)

lemma StrictOn.exists_ok_iff (h : StrictOn P strict lenient) (hl : ∃ x, lenient = .ok x) :
    (∃ x, strict = .ok x) ↔ P := by
  constructor
  · rintro ⟨x, hx⟩
    exact ((h x).mp hx).1
  · intro hP
    obtain ⟨x, hx⟩ := hl
    exact ⟨x, (h x).mpr ⟨hP, hx⟩⟩

end StrictOn

lemma strictOn_foldlM {P : ι → Prop} {f g : α → ι → Except ε α} {items : List ι}
    (h : ∀ i ∈ items, ∀ x, StrictOn (P i) (f x i) (g x i)) (x : α) :
    StrictOn (∀ i ∈ items, P i) (items.foldlM f x) (items.foldlM g x) := by
  induction items generalizing x with
  | nil => exact (StrictOn.refl (.ok x)).congr (by simp)
  | cons i rest ih =>
    rw [List.forall_mem_cons] at h
    rw [List.foldlM_cons, List.foldlM_cons, List.forall_mem_cons]
    exact (h.1 x).bind (ih h.2)

lemma foldlM_ok {g : α → ι → Except ε α} (h : ∀ x i, ∃ y, g x i = .ok y) (items : List ι) (x : α) :
    ∃ y, items.foldlM g x = .ok y := by
  induction items generalizing x with
  | nil => exact ⟨x, rfl⟩
  | cons i rest ih =>
    obtain ⟨y, hy⟩ := h x i
    rw [List.foldlM_cons, hy]
    exact ih y

end AdScheduler.Outcomes
