import Mathlib

/-! The rank of waiting gangs, after `WoundWaitKey` and `WoundWaitLess` of
`pkg/queue/gang.go`. -/
namespace AdScheduler.WoundWait

structure WoundWaitKey where
  effectivePriority : ℤ
  /-- Larger is older. -/
  age : ℤ
  uid : String
  deriving DecidableEq

/-- Gang `a` is admitted before gang `b`: higher priority, then the older one, then
the smaller identifier. -/
def woundWaitLess (a b : WoundWaitKey) : Bool :=
  if a.effectivePriority ≠ b.effectivePriority then
    decide (b.effectivePriority < a.effectivePriority)
  else if a.age ≠ b.age then decide (b.age < a.age)
  else decide (a.uid < b.uid)

/-- The same order as a position in a lexicographic product. -/
def rank (k : WoundWaitKey) : ℤᵒᵈ ×ₗ ℤᵒᵈ ×ₗ String :=
  toLex (OrderDual.toDual k.effectivePriority, toLex (OrderDual.toDual k.age, k.uid))

lemma rank_injective : Function.Injective rank := by
  intro a b h
  obtain ⟨hp, h⟩ := Prod.ext_iff.mp (toLex_inj.mp h)
  obtain ⟨ha, hu⟩ := Prod.ext_iff.mp (toLex_inj.mp h)
  cases a
  cases b
  simp_all

lemma woundWaitLess_iff (a b : WoundWaitKey) : woundWaitLess a b = true ↔ rank a < rank b := by
  simp only [rank, Prod.Lex.toLex_lt_toLex, OrderDual.toDual_lt_toDual, OrderDual.toDual_inj]
  unfold woundWaitLess
  split_ifs with hp ha
  · simp [hp]
  · simp only [ne_eq, not_not] at hp
    simp [hp, ha]
  · simp only [ne_eq, not_not] at hp ha
    simp [hp, ha]

lemma woundWaitLess_trans {a b c : WoundWaitKey} (hab : woundWaitLess a b = true)
    (hbc : woundWaitLess b c = true) : woundWaitLess a c = true := by
  rw [woundWaitLess_iff] at *
  exact lt_trans hab hbc

lemma woundWaitLess_irrefl (a : WoundWaitKey) : woundWaitLess a a = false := by
  rw [Bool.eq_false_iff, Ne, woundWaitLess_iff]
  exact lt_irrefl _

lemma woundWaitLess_total {a b : WoundWaitKey} (h : a ≠ b) :
    woundWaitLess a b = true ∨ woundWaitLess b a = true := by
  rw [woundWaitLess_iff, woundWaitLess_iff]
  exact lt_or_gt_of_ne (rank_injective.ne h)

end AdScheduler.WoundWait
