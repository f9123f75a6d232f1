import Mathlib

/-! Greedy selection with an accumulator: packing items while they fit, gathering items
until there is enough, and trimming what is not needed. The accumulator is any type; its
content is read through a measure that each step moves by the weight of its item. -/
namespace AdScheduler.Greedy

variable {α M : Type*}

/-- Take each item that still fits next to those taken before. -/
def pack (join : M → α → M) (skip : α → Bool) (fits : M → Bool) : M → List α → List α
  | _, [] => []
  | acc, x :: xs =>
    if skip x then pack join skip fits acc xs
    else if fits (join acc x) then x :: pack join skip fits (join acc x) xs
    else pack join skip fits acc xs

/-- Take items from the front until there is enough; also what they amount to. -/
def gather (join : M → α → M) (enough : M → Bool) : M → List α → M × List α
  | acc, [] => (acc, [])
  | acc, x :: xs =>
    if enough acc then (acc, [])
    else
      let r := gather join enough (join acc x) xs
      (r.1, x :: r.2)

/-- Drop each item without which there is still enough. -/
def trim (cut : M → α → M) (enough : M → Bool) : M → List α → M × List α
  | acc, [] => (acc, [])
  | acc, x :: xs =>
    if enough (cut acc x) then trim cut enough (cut acc x) xs
    else
      let r := trim cut enough acc xs
      (r.1, x :: r.2)

lemma pack_sublist (join : M → α → M) (skip : α → Bool) (fits : M → Bool) (acc : M)
    (l : List α) : (pack join skip fits acc l).Sublist l := by
  induction l generalizing acc with
  | nil => exact .slnil
  | cons x xs ih =>
    rw [pack]
    split_ifs
    · exact (ih acc).cons x
    · exact (ih _).cons_cons x
    · exact (ih acc).cons x

lemma skip_of_mem_pack {join : M → α → M} {skip : α → Bool} {fits : M → Bool} {acc : M}
    {l : List α} {x : α} (h : x ∈ pack join skip fits acc l) : skip x = false := by
  induction l generalizing acc with
  | nil => simp [pack] at h
  | cons y ys ih =>
    rw [pack] at h
    split_ifs at h with hskip hfits
    · exact ih h
    · rcases List.mem_cons.mp h with rfl | h
      · simpa using hskip
      · exact ih h
    · exact ih h

lemma gather_sublist (join : M → α → M) (enough : M → Bool) (acc : M) (l : List α) :
    (gather join enough acc l).2.Sublist l := by
  induction l generalizing acc with
  | nil => exact .slnil
  | cons x xs ih =>
    rw [gather]
    split_ifs
    · exact List.nil_sublist _
    · exact (ih _).cons_cons x

lemma trim_sublist (cut : M → α → M) (enough : M → Bool) (acc : M) (l : List α) :
    (trim cut enough acc l).2.Sublist l := by
  induction l generalizing acc with
  | nil => exact .slnil
  | cons x xs ih =>
    rw [trim]
    split_ifs
    · exact (ih _).cons x
    · exact (ih _).cons_cons x

lemma trim_enough {cut : M → α → M} {enough : M → Bool} {acc : M} (l : List α)
    (h : enough acc = true) : enough (trim cut enough acc l).1 = true := by
  induction l generalizing acc with
  | nil => exact h
  | cons x xs ih =>
    rw [trim]
    split_ifs with hx
    · exact ih hx
    · exact ih h

lemma pack_append (join : M → α → M) (skip : α → Bool) (fits : M → Bool) (acc : M)
    (l₁ l₂ : List α) :
    (pack join skip fits acc l₁).Sublist (pack join skip fits acc (l₁ ++ l₂)) := by
  induction l₁ generalizing acc with
  | nil => simp [pack]
  | cons x xs ih =>
    rw [List.cons_append, pack, pack]
    split_ifs
    · exact ih acc
    · exact (ih _).cons_cons x
    · exact ih acc

lemma pack_eq_self {join : M → α → M} {skip : α → Bool} {fits : M → Bool} {acc : M} {l : List α}
    (hskip : ∀ x ∈ l, skip x = false)
    (hfits : ∀ t, t <+: l → t ≠ [] → fits (t.foldl join acc) = true) :
    pack join skip fits acc l = l := by
  induction l generalizing acc with
  | nil => rfl
  | cons x xs ih =>
    have hhead : fits (join acc x) = true := hfits [x] (by simp) (by simp)
    have htail : pack join skip fits (join acc x) xs = xs := by
      apply ih fun y hy => hskip y (List.mem_cons_of_mem x hy)
      intro t ht _
      exact hfits (x :: t) (by simpa using ht) (by simp)
    simp [pack, hskip x List.mem_cons_self, hhead, htail]

lemma gather_eq_prefix {join : M → α → M} {enough : M → Bool} {acc : M} {l : List α}
    (hbefore : ∀ t, t <+: l → t ≠ l → enough (t.foldl join acc) = false)
    (h : enough (l.foldl join acc) = true) (rest : List α) :
    gather join enough acc (l ++ rest) = (l.foldl join acc, l) := by
  induction l generalizing acc with
  | nil =>
    rw [List.foldl_nil] at h
    cases rest with
    | nil => rfl
    | cons y ys => simp [gather, h]
  | cons x xs ih =>
    have hnow : enough acc = false := hbefore [] (by simp) (by simp)
    have hrest :
        gather join enough (join acc x) (xs ++ rest) = (xs.foldl join (join acc x), xs) := by
      apply ih _ h
      intro t ht hne
      exact hbefore (x :: t) (by simpa using ht) (by simpa using hne)
    simp [gather, hnow, hrest]

lemma gather_eq_all {join : M → α → M} {enough : M → Bool} {acc : M} {l : List α}
    (h : enough (gather join enough acc l).1 = false) : (gather join enough acc l).2 = l := by
  induction l generalizing acc with
  | nil => rfl
  | cons x xs ih =>
    rw [gather] at h ⊢
    split_ifs at h ⊢ with hnow
    · simp [hnow] at h
    · simp [ih h]

lemma not_enough_before_gathered {join : M → α → M} {enough : M → Bool} {acc : M} {l : List α}
    {x : α} (h : x ∈ (gather join enough acc l).2) :
    ∃ before after, l = before ++ x :: after ∧ enough (before.foldl join acc) = false := by
  induction l generalizing acc with
  | nil => simp [gather] at h
  | cons y ys ih =>
    rw [gather] at h
    split_ifs at h with hnow
    · simp at h
    rcases List.mem_cons.mp h with rfl | h
    · exact ⟨[], ys, rfl, by simpa using hnow⟩
    · obtain ⟨before, after, hsplit, hless⟩ := ih h
      exact ⟨y :: before, after, by simp [hsplit], hless⟩

lemma filter_append_of_sorted {key : α → ℤ} {l : List α}
    (h : l.Pairwise fun a b => key a ≤ key b) (k : ℤ) :
    l.filter (fun x => decide (key x < k)) ++ l.filter (fun x => !decide (key x < k)) = l := by
  induction l with
  | nil => rfl
  | cons x xs ih =>
    obtain ⟨hx, hxs⟩ := List.pairwise_cons.mp h
    by_cases hk : key x < k
    · simp [hk, ih hxs]
    · have hlow : xs.filter (fun x => decide (key x < k)) = [] := by
        rw [List.filter_eq_nil_iff]
        intro y hy
        have := hx y hy
        simp only [decide_eq_true_eq]
        omega
      have hall : xs.filter (fun x => !decide (key x < k)) = xs := by
        simpa [hlow] using ih hxs
      simp [hk, hlow, hall]

lemma trim_eq_self {cut : M → α → M} {enough : M → Bool} {acc : M} {l : List α}
    (h : ∀ x ∈ l, enough (cut acc x) = false) : trim cut enough acc l = (acc, l) := by
  induction l with
  | nil => rfl
  | cons x xs ih =>
    simp [trim, h x List.mem_cons_self, ih fun y hy => h y (List.mem_cons_of_mem x hy)]

section Trimmed
variable {cut : M → α → M} {enough : M → Bool}

lemma enough_of_trim {l : List α} {x : α} {acc : M}
    (hmono : ∀ a, ∀ y ∈ l, enough (cut (cut a y) x) = true → enough (cut a x) = true)
    (h : enough (cut (trim cut enough acc l).1 x) = true) : enough (cut acc x) = true := by
  induction l generalizing acc with
  | nil => exact h
  | cons y ys ih =>
    have htail := fun a z hz => hmono a z (List.mem_cons_of_mem y hz)
    rw [trim] at h
    split_ifs at h
    · exact hmono acc y List.mem_cons_self (ih htail h)
    · exact ih htail h

lemma trim_needed {l : List α} {acc : M}
    (hmono : ∀ a, ∀ y ∈ l, ∀ x ∈ l, enough (cut (cut a y) x) = true → enough (cut a x) = true) :
    ∀ x ∈ (trim cut enough acc l).2, enough (cut (trim cut enough acc l).1 x) = false := by
  induction l generalizing acc with
  | nil => simp [trim]
  | cons y ys ih =>
    have htail : ∀ a, ∀ z ∈ ys, ∀ x ∈ ys,
        enough (cut (cut a z) x) = true → enough (cut a x) = true := fun a z hz x hx =>
      hmono a z (List.mem_cons_of_mem y hz) x (List.mem_cons_of_mem y hx)
    rw [trim]
    split_ifs with hy
    · exact ih htail
    · intro x hx
      rcases List.mem_cons.mp hx with rfl | hx
      · by_contra hno
        exact hy (enough_of_trim (fun a z hz => hmono a z (List.mem_cons_of_mem x hz) x
          List.mem_cons_self) (by simpa using hno))
      · exact ih htail x hx

end Trimmed

section Weights
variable {μ : M → ℤ} {w : α → ℤ}

/-- Whatever is packed stays within a bound on all that fits. -/
theorem pack_bound {join : M → α → M} {skip : α → Bool} {fits : M → Bool} {B : ℤ}
    (hjoin : ∀ a x, μ (join a x) = μ a + w x) (hfits : ∀ a, fits a = true → μ a ≤ B) {acc : M}
    (l : List α) (h : μ acc ≤ B) : μ acc + ((pack join skip fits acc l).map w).sum ≤ B := by
  induction l generalizing acc with
  | nil => simpa [pack] using h
  | cons x xs ih =>
    rw [pack]
    split_ifs with hskip hfit
    · exact ih h
    · have htail := ih (hfits _ hfit)
      simp only [hjoin, List.map_cons, List.sum_cons] at htail ⊢
      omega
    · exact ih h

lemma gather_total {join : M → α → M} (enough : M → Bool)
    (hjoin : ∀ a x, μ (join a x) = μ a + w x) (acc : M) (l : List α) :
    μ (gather join enough acc l).1 = μ acc + ((gather join enough acc l).2.map w).sum := by
  induction l generalizing acc with
  | nil => simp [gather]
  | cons x xs ih =>
    rw [gather]
    split_ifs
    · simp
    · have htail := ih (join acc x)
      simp only [hjoin, List.map_cons, List.sum_cons] at htail ⊢
      omega

lemma trim_total {cut : M → α → M} (enough : M → Bool)
    (hcut : ∀ a x, μ (cut a x) = μ a - w x) (acc : M) (l : List α) :
    μ (trim cut enough acc l).1 + (l.map w).sum =
      μ acc + ((trim cut enough acc l).2.map w).sum := by
  induction l generalizing acc with
  | nil => simp [trim]
  | cons x xs ih =>
    rw [trim]
    split_ifs
    · have htail := ih (cut acc x)
      simp only [hcut, List.map_cons, List.sum_cons] at htail ⊢
      omega
    · have htail := ih acc
      simp only [List.map_cons, List.sum_cons] at htail ⊢
      omega

end Weights

end AdScheduler.Greedy
