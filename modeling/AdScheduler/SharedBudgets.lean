import Mathlib.Algebra.Order.Group.Unbundled.Int
import Mathlib.Data.List.Perm.Basic
import Mathlib.Order.Lattice
import Mathlib.Tactic.Linarith

/-! Items that draw on shared counters. One pass over a list keeps an item while each counter
it draws on has something left, and takes one from each of them. -/
namespace AdScheduler.SharedBudgets

variable {α κ : Type*} [DecidableEq κ] (uses : α → List κ)

def charge (x : α) (left : κ → ℤ) (k : κ) : ℤ := if k ∈ uses x then left k - 1 else left k

def keepWithin : List α → (κ → ℤ) → List α
  | [], _ => []
  | x :: rest, left =>
    if ∃ k ∈ uses x, left k ≤ 0 then keepWithin rest left
      else x :: keepWithin rest (charge uses x left)

def drawn (k : κ) (l : List α) : ℕ := l.countP fun x => decide (k ∈ uses x)

lemma drawn_cons (k : κ) (x : α) (l : List α) :
    (drawn uses k (x :: l) : ℤ) = drawn uses k l + if k ∈ uses x then 1 else 0 := by
  simp only [drawn, List.countP_cons, decide_eq_true_eq]
  split_ifs <;> simp

lemma drawn_le_of_subperm {k : κ} {l l' : List α} (h : l.Subperm l') :
    drawn uses k l ≤ drawn uses k l' := h.countP_le _

/-- No counter is overdrawn by the items kept. -/
theorem drawn_keepWithin_le (l : List α) (left : κ → ℤ) (k : κ) :
    (drawn uses k (keepWithin uses l left) : ℤ) ≤ max 0 (left k) := by
  induction l generalizing left with
  | nil => simp [keepWithin, drawn]
  | cons x rest ih =>
    rw [keepWithin]
    split_ifs with hspent
    · exact ih left
    · have hrest := ih (charge uses x left)
      rw [drawn_cons]
      rw [charge] at hrest
      split_ifs at hrest ⊢ with hk
      · have hpos : 0 < left k := by
          by_contra hno
          exact hspent ⟨k, hk, not_lt.mp hno⟩
        omega
      · omega

/-- In a sorted list, an item is dropped because of a counter that was spent, down to nothing,
on kept items not after it. -/
theorem exists_dropped (le : α → α → Bool) {l : List α} (hsorted : l.Pairwise fun a b => le a b)
    (left : κ → ℤ) :
    ∃ dropped, (keepWithin uses l left ++ dropped).Perm l ∧ ∀ x ∈ dropped, ∃ k ∈ uses x,
      (drawn uses k ((keepWithin uses l left).filter (le · x)) : ℤ) = max 0 (left k) := by
  induction l generalizing left with
  | nil => exact ⟨[], .refl _, by simp⟩
  | cons x rest ih =>
    obtain ⟨hfirst, hrest⟩ := List.pairwise_cons.mp hsorted
    rw [keepWithin]
    split_ifs with hspent
    · obtain ⟨dropped, hperm, hwhy⟩ := ih hrest left
      refine ⟨x :: dropped, List.perm_middle.trans (hperm.cons x), ?_⟩
      intro y hy
      rcases List.mem_cons.mp hy with rfl | hy
      · obtain ⟨k, hk, hnone⟩ := hspent
        refine ⟨k, hk, ?_⟩
        have hbound := drawn_keepWithin_le uses rest left k
        have hfew := drawn_le_of_subperm uses (k := k)
          (List.filter_sublist (l := keepWithin uses rest left) (p := (le · y))).subperm
        omega
      · exact hwhy y hy
    · obtain ⟨dropped, hperm, hwhy⟩ := ih hrest (charge uses x left)
      refine ⟨dropped, hperm.cons x, fun y hy => ?_⟩
      obtain ⟨k, hk, hdrawn⟩ := hwhy y hy
      have hxy : le x y = true := hfirst y (hperm.subset (List.mem_append_right _ hy))
      refine ⟨k, hk, ?_⟩
      rw [List.filter_cons_of_pos (p := (le · y)) hxy, drawn_cons, hdrawn, charge]
      split_ifs with hx
      · have hpos : 0 < left k := by
          by_contra hno
          exact hspent ⟨k, hx, not_lt.mp hno⟩
        omega
      · omega

end AdScheduler.SharedBudgets
