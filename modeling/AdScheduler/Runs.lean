import Mathlib

/-! Runs of a labelled transition system whose steps are guarded functions: the
guard says which labels may come next, the function what they do. -/
namespace AdScheduler.Runs

structure Machine (S A : Type*) where
  enabled : S → A → Prop
  next : S → A → S

variable {S A : Type*}

/-- The labels of a finite run from `s`, oldest first, and the state it ends in. -/
inductive Run (M : Machine S A) (s : S) : List A → S → Prop
  | nil : Run M s [] s
  | snoc {as : List A} {t : S} {a : A} (prior : Run M s as t) (step : M.enabled t a) :
      Run M s (as ++ [a]) (M.next t a)

lemma Run.cons {M : Machine S A} {s t : S} {a : A} {as : List A} (step : M.enabled s a)
    (h : Run M (M.next s a) as t) : Run M s (a :: as) t := by
  induction h with
  | nil => exact .snoc .nil step
  | snoc _ he ih => exact .snoc ih he

lemma Run.append {M : Machine S A} {s t u : S} {as bs : List A} (h : Run M s as t)
    (h' : Run M t bs u) : Run M s (as ++ bs) u := by
  induction h' with
  | nil => simpa using h
  | snoc _ he ih =>
    rw [← List.append_assoc]
    exact .snoc ih he

/-- Every label of the list may be taken when its turn comes. -/
def Machine.Legal (M : Machine S A) : S → List A → Prop
  | _, [] => True
  | s, a :: as => M.enabled s a ∧ M.Legal (M.next s a) as

instance Machine.decidableLegal (M : Machine S A) [h : ∀ s a, Decidable (M.enabled s a)] :
    ∀ s as, Decidable (M.Legal s as)
  | _, [] => inferInstanceAs (Decidable True)
  | s, a :: as =>
    have := M.decidableLegal (M.next s a) as
    inferInstanceAs (Decidable (M.enabled s a ∧ M.Legal (M.next s a) as))

lemma Machine.Legal.run {M : Machine S A} {s : S} {as : List A} (h : M.Legal s as) :
    Run M s as (as.foldl M.next s) := by
  induction as generalizing s with
  | nil => exact .nil
  | cons a as ih => exact .cons h.1 (ih h.2)

/-- The same machine with an extra condition on the steps it may take. -/
def Machine.restrict (M : Machine S A) (C : S → A → Prop) : Machine S A :=
  ⟨fun s a => M.enabled s a ∧ C s a, M.next⟩

/-- What holds at the start and survives each step holds after every run. -/
theorem Run.invariant {M : Machine S A} {I : S → Prop} {s t : S} {as : List A}
    (h : Run M s as t) (h0 : I s)
    (hstep : ∀ t a, I t → M.enabled t a → I (M.next t a)) : I t := by
  induction h with
  | nil => exact h0
  | snoc _ he ih => exact hstep _ _ ih he

/-- The same rule for a property of the history and the state together. -/
theorem Run.invariant_history {M : Machine S A} {I : List A → S → Prop} {s t : S} {as : List A}
    (h : Run M s as t) (h0 : I [] s)
    (hstep : ∀ as t a, I as t → M.enabled t a → I (as ++ [a]) (M.next t a)) : I as t := by
  induction h with
  | nil => exact h0
  | snoc _ he ih => exact hstep _ _ _ ih he

def Machine.Reaches (M : Machine S A) (s t : S) : Prop := ∃ as, Run M s as t

section Reaches
variable {M : Machine S A} {s t u : S}

lemma Machine.Reaches.refl (M : Machine S A) (s : S) : M.Reaches s s := ⟨[], .nil⟩

lemma Machine.Reaches.trans (h : M.Reaches s t) (h' : M.Reaches t u) : M.Reaches s u := by
  obtain ⟨as, has⟩ := h
  obtain ⟨bs, hbs⟩ := h'
  exact ⟨as ++ bs, has.append hbs⟩

lemma Machine.Reaches.step {a : A} (he : M.enabled s a) : M.Reaches s (M.next s a) :=
  ⟨[a], .snoc .nil he⟩

lemma Machine.Reaches.foldl {B : Type*} {f : S → B → S} (hf : ∀ s b, M.Reaches s (f s b))
    (l : List B) (s : S) : M.Reaches s (l.foldl f s) := by
  induction l generalizing s with
  | nil => exact .refl M s
  | cons b l ih => exact (hf s b).trans (ih (f s b))

lemma Machine.Reaches.of_restrict {C : S → A → Prop} (h : (M.restrict C).Reaches s t) :
    M.Reaches s t := by
  obtain ⟨as, has⟩ := h
  exact has.invariant (I := M.Reaches s) (.refl M s) fun _ _ hx he => hx.trans (.step he.1)

end Reaches

end AdScheduler.Runs
