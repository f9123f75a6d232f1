import Mathlib

/-! Totals rolled up a forest. A node knows the list of nodes from itself to its
root; posting an amount at a node adds it to every node of that list. Posting at
leaves keeps every inner node equal to the sum of its children. -/
namespace AdScheduler.RollUp

/-- A forest by its upward paths. Nodes outside the forest have an empty path. -/
structure Hierarchy (N : Type*) where
  up : N → List N
  children : N → Finset N
  /-- A path starts at its own node and goes on with the path of the parent. -/
  up_cases : ∀ c, up c = [] ∨ up c = [c] ∨ ∃ n, c ∈ children n
  up_child : ∀ {n c}, c ∈ children n → up c = c :: up n
  parent_known : ∀ {n c}, c ∈ children n → n ∈ up n

variable {N : Type*} (H : Hierarchy N)

lemma up_head {n : N} (h : n ∈ H.up n) : ∃ rest, H.up n = n :: rest := by
  rcases H.up_cases n with he | he | ⟨p, hp⟩
  · simp [he] at h
  · exact ⟨[], he⟩
  · exact ⟨H.up p, H.up_child hp⟩

lemma up_suffix {n x : N} (h : n ∈ H.up x) : H.up n <:+ H.up x := by
  induction hl : (H.up x).length using Nat.strong_induction_on generalizing x with
  | _ k ih =>
    rcases H.up_cases x with he | he | ⟨p, hp⟩
    · simp [he] at h
    · rw [he, List.mem_singleton] at h
      rw [h]
    · have hx := H.up_child hp
      rw [hx] at h
      rcases List.mem_cons.mp h with rfl | hn
      · exact List.suffix_refl _
      · have hlt : (H.up p).length < k := by rw [← hl, hx]; simp
        have hs := ih _ hlt hn rfl
        rw [hx]
        exact hs.trans (List.suffix_cons x _)

lemma up_nodup (x : N) : (H.up x).Nodup := by
  induction hl : (H.up x).length using Nat.strong_induction_on generalizing x with
  | _ k ih =>
    rcases H.up_cases x with he | he | ⟨p, hp⟩
    · rw [he]; exact List.nodup_nil
    · rw [he]; exact List.nodup_singleton x
    · have hx := H.up_child hp
      have hlt : (H.up p).length < k := by rw [← hl, hx]; simp
      rw [hx, List.nodup_cons]
      refine ⟨fun hmem => ?_, ih _ hlt p rfl⟩
      have hle := (up_suffix H hmem).length_le
      rw [hx] at hle
      simp at hle

lemma up_trans {a b c : N} (hab : a ∈ H.up b) (hbc : b ∈ H.up c) : a ∈ H.up c :=
  (up_suffix H hbc).subset hab

lemma unique_child {n x : N} (h : n ∈ H.up x) (hne : n ≠ x) :
    ∃ c ∈ H.children n, c ∈ H.up x ∧ ∀ c' ∈ H.children n, c' ∈ H.up x → c' = c := by
  induction hl : (H.up x).length using Nat.strong_induction_on generalizing x with
  | _ k ih =>
    rcases H.up_cases x with he | he | ⟨p, hp⟩
    · simp [he] at h
    · rw [he, List.mem_singleton] at h
      exact absurd h hne
    · have hx := H.up_child hp
      have hn : n ∈ H.up p := by
        rw [hx] at h
        exact (List.mem_cons.mp h).resolve_left hne
      by_cases hnp : n = p
      · subst hnp
        refine ⟨x, hp, by rw [hx]; exact List.mem_cons_self, ?_⟩
        intro c' hc' hmem
        rw [hx] at hmem
        refine (List.mem_cons.mp hmem).resolve_right fun hin => ?_
        have hle := (up_suffix H hin).length_le
        rw [H.up_child hc'] at hle
        simp at hle
      · have hlt : (H.up p).length < k := by rw [← hl, hx]; simp
        obtain ⟨c, hc, hcp, huniq⟩ := ih _ hlt hn hnp rfl
        refine ⟨c, hc, by rw [hx]; exact List.mem_cons_of_mem _ hcp, ?_⟩
        intro c' hc' hmem
        rw [hx] at hmem
        rcases List.mem_cons.mp hmem with rfl | hin
        · have hup := H.up_child hc'
          rw [hx] at hup
          have htail := List.tail_eq_of_cons_eq hup
          obtain ⟨tp, htp⟩ := up_head H (H.parent_known hp)
          obtain ⟨tn, htn⟩ := up_head H (H.parent_known hc')
          rw [htp, htn] at htail
          exact absurd (List.head_eq_of_cons_eq htail).symm hnp
        · exact huniq c' hc' hin

lemma eq_of_leaf {n x : N} (h : n ∈ H.up x) (hleaf : H.children n = ∅) : n = x := by
  by_contra hne
  obtain ⟨c, hc, _⟩ := unique_child H h hne
  simp [hleaf] at hc

lemma parent_mem_up {n c x : N} (hc : c ∈ H.children n) (hx : c ∈ H.up x) : n ∈ H.up x := by
  apply up_trans H _ hx
  rw [H.up_child hc]
  exact List.mem_cons_of_mem _ (H.parent_known hc)

/-- Apply a function at the points of a list, one after the other. -/
def along {M : Type*} [DecidableEq N] (l : List N) (fn : M → M) (u : N → M) : N → M :=
  l.foldl (fun u n => Function.update u n (fn (u n))) u

lemma along_apply {M : Type*} [DecidableEq N] {l : List N} (h : l.Nodup) (fn : M → M) (u : N → M)
    (n : N) : along l fn u n = if n ∈ l then fn (u n) else u n := by
  induction l generalizing u with
  | nil => rfl
  | cons a l ih =>
    rw [List.nodup_cons] at h
    have hstep : along (a :: l) fn u = along l fn (Function.update u a (fn (u a))) := rfl
    rw [hstep, ih h.2]
    by_cases hn : n = a
    · subst hn
      simp [h.1]
    · simp [hn]

section Posting
variable [DecidableEq N] {M : Type*} [AddCommMonoid M]

/-- Post an amount at a node: it counts at the node and at every ancestor. -/
def post (l : N) (δ : M) (u : N → M) : N → M := fun n => u n + if n ∈ H.up l then δ else 0

/-- Every inner node carries the sum of its children. -/
def Conserved (u : N → M) : Prop :=
  ∀ n, (H.children n).Nonempty → u n = ∑ c ∈ H.children n, u c

lemma children_share {n l : N} (hl : H.children l = ∅) (hn : (H.children n).Nonempty) (δ : M) :
    (∑ c ∈ H.children n, if c ∈ H.up l then δ else 0) = if n ∈ H.up l then δ else 0 := by
  by_cases h : n ∈ H.up l
  · have hne : n ≠ l := by
      rintro rfl
      exact hn.ne_empty hl
    obtain ⟨c, hc, hcl, huniq⟩ := unique_child H h hne
    rw [if_pos h, Finset.sum_eq_single c]
    · rw [if_pos hcl]
    · intro c' hc' hcc
      exact if_neg fun hin => hcc (huniq c' hc' hin)
    · exact fun hnot => absurd hc hnot
  · rw [if_neg h]
    apply Finset.sum_eq_zero
    intro c hc
    exact if_neg fun hin => h (parent_mem_up H hc hin)

theorem post_conserved {u : N → M} {l : N} (hl : H.children l = ∅) (δ : M)
    (h : Conserved H u) : Conserved H (post H l δ u) := by
  intro n hn
  simp only [post]
  rw [h n hn, Finset.sum_add_distrib, children_share H hl hn]

end Posting

end AdScheduler.RollUp
