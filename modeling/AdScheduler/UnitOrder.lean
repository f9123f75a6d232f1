import Mathlib

/-! The order of the schedulable units, after `pkg/queue/sort.go`. A dominant share is a
value of any linear order: the comparator only asks whether two shares differ and which one
is smaller. -/
namespace AdScheduler.UnitOrder

inductive SortPolicy
  | sortFIFO
  | sortFair
  | sortStateAware
  deriving DecidableEq

structure AppOrder (D : Type*) where
  dominantShare : D
  priority : ℤ
  submitNanos : ℤ
  uid : String
  /-- Empty outside gangs. -/
  gangID : String
  gangPriority : ℤ
  gangSubmitNanos : ℤ
  deriving DecidableEq

variable {D : Type*}

namespace AppOrder

/-- The block that a unit is ordered in: its gang, or itself. -/
def blockID (a : AppOrder D) : String :=
  if a.gangID ≠ "" then "g/" ++ a.gangID else "p/" ++ a.uid

/-- The priority and the submit time that a block is ranked by. -/
def repr (a : AppOrder D) : ℤ × ℤ :=
  if a.gangID ≠ "" then (a.gangPriority, a.gangSubmitNanos) else (a.priority, a.submitNanos)

lemma gangID_eq_of_blockID_eq {a b : AppOrder D} (h : a.blockID = b.blockID) :
    a.gangID = b.gangID ∧ (a.gangID = "" → a.uid = b.uid) := by
  have hchars := congrArg String.toList h
  unfold blockID at hchars
  by_cases ha : a.gangID = "" <;> by_cases hb : b.gangID = ""
  · simpa [ha, hb, String.toList_inj] using hchars
  · simp [ha, hb] at hchars
  · simp [ha, hb] at hchars
  · simpa [ha, hb, String.toList_inj] using hchars

end AppOrder

/-- Where the policy does not decide: the higher priority, then the earlier submit time,
then the smaller block. -/
def lessFallback (a b : AppOrder D) : Bool :=
  if a.repr.1 ≠ b.repr.1 then decide (b.repr.1 < a.repr.1)
  else if a.repr.2 ≠ b.repr.2 then decide (a.repr.2 < b.repr.2)
  else decide (a.blockID < b.blockID)

lemma lessFallback_iff (a b : AppOrder D) : lessFallback a b = true ↔
    toLex (OrderDual.toDual a.repr.1, toLex (a.repr.2, a.blockID)) <
      toLex (OrderDual.toDual b.repr.1, toLex (b.repr.2, b.blockID)) := by
  simp only [Prod.Lex.toLex_lt_toLex, OrderDual.toDual_lt_toDual, OrderDual.toDual_inj]
  unfold lessFallback
  by_cases hp : a.repr.1 = b.repr.1
  · by_cases hs : a.repr.2 = b.repr.2 <;> simp [hp, hs]
  · simp [hp]

def policyKey (policy : SortPolicy) (a : AppOrder D) : D ⊕ₗ ℤ :=
  match policy with
  | .sortFair => toLex (.inl a.dominantShare)
  | .sortFIFO | .sortStateAware => toLex (.inr a.repr.2)

def blockRank (policy : SortPolicy) (a : AppOrder D) : (D ⊕ₗ ℤ) ×ₗ ℤᵒᵈ ×ₗ ℤ ×ₗ String :=
  toLex (policyKey policy a, toLex (OrderDual.toDual a.repr.1, toLex (a.repr.2, a.blockID)))

/-- The position of a unit: that of its block, then its own inside the block. -/
def rank (policy : SortPolicy) (a : AppOrder D) :
    ((D ⊕ₗ ℤ) ×ₗ ℤᵒᵈ ×ₗ ℤ ×ₗ String) ×ₗ ℤ ×ₗ String :=
  toLex (blockRank policy a, toLex (a.submitNanos, a.uid))

lemma blockID_eq_of_blockRank_eq {policy : SortPolicy} {a b : AppOrder D}
    (h : blockRank policy a = blockRank policy b) : a.blockID = b.blockID := by
  simp only [blockRank, toLex_inj, Prod.mk.injEq] at h
  exact h.2.2.2

variable [LinearOrder D]

def less (policy : SortPolicy) (a b : AppOrder D) : Bool :=
  if a.blockID = b.blockID then
    if a.submitNanos ≠ b.submitNanos then decide (a.submitNanos < b.submitNanos)
    else decide (a.uid < b.uid)
  else
    match policy with
    | .sortFair =>
      if a.dominantShare ≠ b.dominantShare then decide (a.dominantShare < b.dominantShare)
      else lessFallback a b
    | .sortFIFO | .sortStateAware =>
      if a.repr.2 ≠ b.repr.2 then decide (a.repr.2 < b.repr.2) else lessFallback a b

lemma less_iff_blockRank {policy : SortPolicy} {a b : AppOrder D} (h : a.blockID ≠ b.blockID) :
    less policy a b = true ↔ blockRank policy a < blockRank policy b := by
  unfold less
  rw [if_neg h, blockRank, blockRank, Prod.Lex.toLex_lt_toLex, ← lessFallback_iff]
  cases policy with
  | sortFair => by_cases hd : a.dominantShare = b.dominantShare <;> simp [policyKey, hd]
  | sortFIFO => by_cases hs : a.repr.2 = b.repr.2 <;> simp [policyKey, hs]
  | sortStateAware => by_cases hs : a.repr.2 = b.repr.2 <;> simp [policyKey, hs]

/-- Where the units of a block agree on the keys of the block, the comparator is the order
of the ranks. -/
lemma less_iff_rank {policy : SortPolicy} {a b : AppOrder D}
    (h : a.blockID = b.blockID → blockRank policy a = blockRank policy b) :
    less policy a b = true ↔ rank policy a < rank policy b := by
  rw [rank, rank, Prod.Lex.toLex_lt_toLex]
  by_cases hb : a.blockID = b.blockID
  · unfold less
    rw [if_pos hb, h hb, Prod.Lex.toLex_lt_toLex]
    by_cases hs : a.submitNanos = b.submitNanos <;> simp [hs]
  · have hne : blockRank policy a ≠ blockRank policy b := fun he =>
      hb (blockID_eq_of_blockRank_eq he)
    rw [less_iff_blockRank hb]
    simp [hne]

/-- The elements with a property stand next to each other. -/
def Contiguous {α : Type*} (P : α → Prop) (l : List α) : Prop :=
  ∃ before block after, l = before ++ block ++ after ∧ (∀ a ∈ block, P a) ∧
    ∀ a ∈ before ++ after, ¬ P a

section Contiguous
variable {α : Type*} {R : α → α → Prop} {P : α → Prop} [DecidablePred P] {a : α} {l : List α}

lemma not_of_mem_dropWhile (hl : (a :: l).Pairwise R)
    (hbetween : ∀ b ∈ l, ∀ c ∈ l, R a b → R b c → P c → P b) {c : α}
    (hc : c ∈ l.dropWhile (P ·)) : ¬ P c := by
  rw [List.pairwise_cons] at hl
  cases hrest : l.dropWhile (P ·) with
  | nil => simp [hrest] at hc
  | cons b rest =>
    have hb : ¬ P b := by
      have hhead := List.head?_dropWhile_not (P ·) l
      simpa [hrest] using hhead
    have hsub : (b :: rest).Sublist l := hrest ▸ List.dropWhile_sublist _
    have hsorted := List.pairwise_cons.mp (hl.2.sublist hsub)
    have hbl : b ∈ l := hsub.subset List.mem_cons_self
    intro hPc
    rw [hrest, List.mem_cons] at hc
    rcases hc with rfl | hc
    · exact hb hPc
    · have hcl : c ∈ l := hsub.subset (List.mem_cons_of_mem b hc)
      exact hb (hbetween b hbl c hcl (hl.1 b hbl) (hsorted.1 c hc) hPc)

lemma contiguous_of_pairwise (hl : l.Pairwise R)
    (hbetween : ∀ a ∈ l, ∀ b ∈ l, ∀ c ∈ l, R a b → R b c → P a → P c → P b) : Contiguous P l := by
  induction l with
  | nil => exact ⟨[], [], [], rfl, by simp, by simp⟩
  | cons a l ih =>
    by_cases ha : P a
    · refine ⟨[], a :: l.takeWhile (P ·), l.dropWhile (P ·), by simp, ?_, ?_⟩
      · intro b hb
        rcases List.mem_cons.mp hb with rfl | hb
        · exact ha
        · have hkept := List.mem_takeWhile_imp hb
          exact of_decide_eq_true hkept
      · intro c hc
        exact not_of_mem_dropWhile hl (fun b hb c hc hab hbc => hbetween a List.mem_cons_self b
          (List.mem_cons_of_mem a hb) c (List.mem_cons_of_mem a hc) hab hbc ha) hc
    · obtain ⟨before, block, after, rfl, hblock, hout⟩ := ih hl.of_cons fun b hb c hc d hd =>
        hbetween b (List.mem_cons_of_mem a hb) c (List.mem_cons_of_mem a hc) d
          (List.mem_cons_of_mem a hd)
      refine ⟨a :: before, block, after, by simp, hblock, ?_⟩
      intro b hb
      rcases List.mem_cons.mp hb with rfl | hb
      · exact ha
      · exact hout b hb

end Contiguous

/-- The members of a gang share the keys of the gang, and no two units of one gang, nor two
outside gangs, have the same UID. -/
structure Coherent (units : List (AppOrder D)) : Prop where
  shared : ∀ a ∈ units, ∀ b ∈ units, a.gangID = b.gangID → a.gangID ≠ "" →
    a.gangPriority = b.gangPriority ∧ a.gangSubmitNanos = b.gangSubmitNanos ∧
      a.dominantShare = b.dominantShare
  distinct : units.Pairwise fun a b => a.gangID = b.gangID → a.uid ≠ b.uid

section Coherent
variable {policy : SortPolicy} {units : List (AppOrder D)} (h : Coherent units) {a b c : AppOrder D}
include h

lemma Coherent.eq_of_uid (ha : a ∈ units) (hb : b ∈ units) (hgang : a.gangID = b.gangID)
    (huid : a.uid = b.uid) : a = b := by
  by_contra hne
  have hsymm : Std.Symm fun a b : AppOrder D => a.gangID = b.gangID → a.uid ≠ b.uid :=
    ⟨fun a b hab hgang => (hab hgang.symm).symm⟩
  exact h.distinct.forall ha hb hne hgang huid

lemma Coherent.blockRank_eq (ha : a ∈ units) (hb : b ∈ units) (hblock : a.blockID = b.blockID) :
    blockRank policy a = blockRank policy b := by
  obtain ⟨hgang, huid⟩ := AppOrder.gangID_eq_of_blockID_eq hblock
  by_cases hsolo : a.gangID = ""
  · rw [h.eq_of_uid ha hb hgang (huid hsolo)]
  · obtain ⟨hpriority, hsubmit, hshare⟩ := h.shared a ha b hb hgang hsolo
    have hrepr : a.repr = b.repr := by
      rw [AppOrder.repr, AppOrder.repr, if_pos hsolo, if_pos (hgang ▸ hsolo), hpriority, hsubmit]
    cases policy <;> simp [blockRank, policyKey, hrepr, hshare, hblock]

lemma Coherent.less_iff (ha : a ∈ units) (hb : b ∈ units) :
    less policy a b = true ↔ rank policy a < rank policy b := less_iff_rank (h.blockRank_eq ha hb)

lemma Coherent.eq_of_rank_eq (ha : a ∈ units) (hb : b ∈ units)
    (hrank : rank policy a = rank policy b) : a = b := by
  simp only [rank, toLex_inj, Prod.mk.injEq] at hrank
  have hblock := blockID_eq_of_blockRank_eq hrank.1
  exact h.eq_of_uid ha hb (AppOrder.gangID_eq_of_blockID_eq hblock).1 hrank.2.2

lemma Coherent.blockRank_le (ha : a ∈ units) (hb : b ∈ units) (hle : less policy b a = false) :
    blockRank policy a ≤ blockRank policy b := by
  have hrank : rank policy a ≤ rank policy b := by
    rw [← not_lt, ← h.less_iff hb ha, hle]
    exact Bool.false_ne_true
  exact Prod.Lex.monotone_fst _ _ hrank

lemma Coherent.contiguous {sorted : List (AppOrder D)} (hperm : sorted.Perm units)
    (hsorted : sorted.Pairwise fun a b => less policy b a = false) {gang : String}
    (hgang : gang ≠ "") : Contiguous (fun a => a.gangID = gang) sorted := by
  refine contiguous_of_pairwise hsorted fun a ha b hb c hc hab hbc hga hgc => ?_
  rw [hperm.mem_iff] at ha hb hc
  have hends : blockRank policy a = blockRank policy c := by
    refine h.blockRank_eq ha hc ?_
    rw [AppOrder.blockID, AppOrder.blockID, hga, hgc, if_pos hgang, if_pos hgang]
  have hmid : blockRank policy a = blockRank policy b :=
    le_antisymm (h.blockRank_le ha hb hab) (hends ▸ h.blockRank_le hb hc hbc)
  have hsame := AppOrder.gangID_eq_of_blockID_eq (blockID_eq_of_blockRank_eq hmid)
  exact hsame.1.symm.trans hga

end Coherent

/-- On coherent units the comparator is a strict total order, and every list that is sorted
by it keeps each gang together. -/
theorem less_keeps_gangs_together (policy : SortPolicy) {units : List (AppOrder D)}
    (h : Coherent units) :
    (∀ a ∈ units, less policy a a = false) ∧
    (∀ a ∈ units, ∀ b ∈ units, ∀ c ∈ units, less policy a b = true → less policy b c = true →
      less policy a c = true) ∧
    (∀ a ∈ units, ∀ b ∈ units, a ≠ b → (less policy a b = true ↔ less policy b a = false)) ∧
    ∀ sorted : List (AppOrder D), sorted.Perm units →
      sorted.Pairwise (fun a b => less policy b a = false) →
      ∀ gang ≠ "", Contiguous (fun a => a.gangID = gang) sorted := by
  refine ⟨fun a ha => ?_, fun a ha b hb c hc hab hbc => ?_, fun a ha b hb hne => ?_, ?_⟩
  · rw [Bool.eq_false_iff, Ne, h.less_iff ha ha]
    exact lt_irrefl _
  · rw [h.less_iff ha hb] at hab
    rw [h.less_iff hb hc] at hbc
    rw [h.less_iff ha hc]
    exact hab.trans hbc
  · have hranks : rank policy a ≠ rank policy b := fun he => hne (h.eq_of_rank_eq ha hb he)
    rw [Bool.eq_false_iff, Ne, h.less_iff ha hb, h.less_iff hb ha, not_lt]
    exact ⟨le_of_lt, fun hle => lt_of_le_of_ne hle hranks⟩
  · intro sorted hperm hsorted gang hgang
    exact h.contiguous hperm hsorted hgang

def mixedUnits : List (AppOrder ℤ) :=
  [⟨0, 0, 200, "z", "", 0, 0⟩, ⟨0, 0, 160, "g2", "G", 0, 150⟩, ⟨0, 0, 100, "a", "", 0, 0⟩,
    ⟨0, 0, 155, "g1", "G", 0, 150⟩]

theorem mixed_units_sorted :
    let sorted : List (AppOrder ℤ) := [⟨0, 0, 100, "a", "", 0, 0⟩, ⟨0, 0, 155, "g1", "G", 0, 150⟩,
      ⟨0, 0, 160, "g2", "G", 0, 150⟩, ⟨0, 0, 200, "z", "", 0, 0⟩]
    sorted.Pairwise (fun a b => less .sortFIFO a b = true) ∧
      Contiguous (fun a => a.gangID = "G") sorted := by
  intro sorted
  have hunits : Coherent mixedUnits := ⟨by decide, by decide⟩
  refine ⟨by decide, (less_keeps_gangs_together .sortFIFO hunits).2.2.2 sorted ?_ ?_ "G" ?_⟩
  · decide
  · decide
  · decide

end AdScheduler.UnitOrder
