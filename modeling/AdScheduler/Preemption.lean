import AdScheduler.Greedy
import AdScheduler.Resources

/-! The choice of victims for a preemption, after `pkg/queue/preemption.go`. -/
namespace AdScheduler.Preemption
open KeyedMap Resources Greedy

structure Victim (V : Type*) where
  uid : String
  priority : ℤ
  request : Resource V
  preemptable : Bool

section Selection
variable {V : Type*} [CommRing V] [LinearOrder V]

/-- What a victim frees in the needed dimensions together. -/
def contribution (need req : Resource V) : V := ∑ d ∈ need.keys, get req d

/-- The cheaper victim first: lower priority, larger contribution, smaller uid. -/
def victimLess (need : Resource V) (a b : Victim V) : Bool :=
  if a.priority ≠ b.priority then decide (a.priority < b.priority)
  else if contribution need a.request ≠ contribution need b.request then
    decide (contribution need b.request < contribution need a.request)
  else decide (a.uid < b.uid)

/-- The preemptable candidates that help, cheapest first. The sort is stable. -/
def victimPool (need : Resource V) (candidates : List (Victim V)) : List (Victim V) :=
  (candidates.filter fun v =>
    v.preemptable && decide (0 < contribution need v.request)).insertionSort
    fun a b => victimLess need b a = false

/-- Victims whose requests cover the need, or none: taken from the front of the pool, then
walked backwards to spare those that are not needed. -/
def selectVictims (need : Resource V) (candidates : List (Victim V)) : List (Victim V) :=
  if isEmpty need then []
  else
    let chosen := gather (fun freed v => add freed v.request) (fitIn need) ∅
      (victimPool need candidates)
    if fitIn need chosen.1 then
      (trim (fun freed v => sub freed v.request) (fitIn need) chosen.1 chosen.2.reverse).2.reverse
    else []

lemma victimPool_perm (need : Resource V) (candidates : List (Victim V)) :
    (victimPool need candidates).Perm (candidates.filter fun v =>
      v.preemptable && decide (0 < contribution need v.request)) :=
  List.perm_insertionSort _ _

lemma victimPool_subperm (need : Resource V) (candidates : List (Victim V)) :
    (victimPool need candidates).Subperm candidates :=
  (victimPool_perm need candidates).subperm.trans List.filter_sublist.subperm

lemma selectVictims_subperm (need : Resource V) (candidates : List (Victim V)) :
    (selectVictims need candidates).Subperm candidates := by
  unfold selectVictims
  dsimp only
  split_ifs
  · exact List.nil_subperm
  · have htrim := (trim_sublist (fun freed (v : Victim V) => sub freed v.request) (fitIn need)
      (gather (fun freed v => add freed v.request) (fitIn need) ∅ (victimPool need candidates)).1
      (gather (fun freed v => add freed v.request) (fitIn need) ∅
        (victimPool need candidates)).2.reverse).reverse
    rw [List.reverse_reverse] at htrim
    exact (htrim.trans (gather_sublist _ _ _ _)).subperm.trans (victimPool_subperm need candidates)
  · exact List.nil_subperm

end Selection

def freed (S : List (Victim ℤ)) (d : String) : ℤ := (S.map fun v => get v.request d).sum

def Victim.NonNegative (v : Victim ℤ) : Prop := ∀ d, 0 ≤ get v.request d

/-- The victims cover the need, and none of them can be spared. -/
structure Tight (need : Resource ℤ) (S : List (Victim ℤ)) : Prop where
  covers : ∀ d ∈ need.keys, get need d ≤ freed S d
  needed : ∀ v ∈ S, ∃ d ∈ need.keys, freed S d - get v.request d < get need d

/-- Everything a selection promises. -/
structure Selected (need : Resource ℤ) (candidates S : List (Victim ℤ)) : Prop where
  among : S.Subperm candidates
  helps : ∀ v ∈ S, v.preemptable = true ∧ 0 < contribution need v.request
  covers : ∀ d ∈ need.keys, get need d ≤ freed S d
  tight : (∀ v ∈ candidates, v.NonNegative) → Tight need S

lemma exists_pos_of_contribution {need req : Resource ℤ} (h : 0 < contribution need req) :
    ∃ d ∈ need.keys, 0 < get req d := by
  by_contra hno
  push Not at hno
  exact absurd h (not_lt.mpr (Finset.sum_nonpos hno))

lemma fitIn_iff (need available : Resource ℤ) :
    fitIn need available = true ↔ ∀ d ∈ need.keys, get need d ≤ get available d := by
  simp [fitIn]

lemma get_freed (acc : Resource ℤ) (S : List (Victim ℤ)) (d : String) :
    get (S.foldl (fun freed v => add freed v.request) acc) d = get acc d + freed S d :=
  get_foldl_add Victim.request acc S d

lemma freed_perm {S T : List (Victim ℤ)} (h : S.Perm T) (d : String) : freed S d = freed T d :=
  (h.map _).sum_eq

lemma Tight.perm {need : Resource ℤ} {S T : List (Victim ℤ)} (h : Tight need S) (hp : S.Perm T) :
    Tight need T := by
  refine ⟨fun d hd => ?_, fun v hv => ?_⟩
  · rw [← freed_perm hp]
    exact h.covers d hd
  · simp only [← freed_perm hp]
    exact h.needed v (hp.mem_iff.mpr hv)

lemma get_gather (need : Resource ℤ) (l : List (Victim ℤ)) (d : String) :
    get (gather (fun freed v => add freed v.request) (fitIn need) ∅ l).1 d =
      freed (gather (fun freed v => add freed v.request) (fitIn need) ∅ l).2 d := by
  have htotal := gather_total (μ := fun r => get r d) (fitIn need)
    (fun a (v : Victim ℤ) => get_add a v.request d) ∅ l
  simpa [freed] using htotal

lemma get_trim (need : Resource ℤ) {acc : Resource ℤ} {l : List (Victim ℤ)} {d : String}
    (h : get acc d = freed l d) :
    get (trim (fun freed v => sub freed v.request) (fitIn need) acc l).1 d =
      freed (trim (fun freed v => sub freed v.request) (fitIn need) acc l).2 d := by
  have htotal := trim_total (μ := fun r => get r d) (fitIn need)
    (fun a (v : Victim ℤ) => get_sub a v.request d) acc l
  simp only [freed] at h ⊢
  omega

lemma trim_spares_none {need acc : Resource ℤ} {l : List (Victim ℤ)}
    (hnonneg : ∀ v ∈ l, v.NonNegative) {v : Victim ℤ}
    (hv : v ∈ (trim (fun freed v => sub freed v.request) (fitIn need) acc l).2) :
    ∃ d ∈ need.keys, get (trim (fun freed (v : Victim ℤ) => sub freed v.request)
      (fitIn need) acc l).1 d -
      get v.request d < get need d := by
  have hmono : ∀ a, ∀ y ∈ l, ∀ x ∈ l, fitIn need (sub (sub a y.request) x.request) = true →
      fitIn need (sub a x.request) = true := by
    intro a y hy x _ henough
    rw [fitIn_iff] at henough ⊢
    intro d hd
    have hy0 := hnonneg y hy d
    have hless := henough d hd
    simp only [get_sub] at hless ⊢
    omega
  have hneeded := trim_needed hmono v hv
  simp only [← Bool.not_eq_true, fitIn_iff, get_sub, not_forall, not_le] at hneeded
  obtain ⟨d, hd, hlt⟩ := hneeded
  exact ⟨d, hd, hlt⟩

lemma selectVictims_selected {need : Resource ℤ} {candidates : List (Victim ℤ)}
    (h : selectVictims need candidates ≠ []) :
    Selected need candidates (selectVictims need candidates) := by
  unfold selectVictims at h ⊢
  split_ifs at h ⊢ with hempty
  · exact absurd rfl h
  dsimp only at h ⊢
  split_ifs at h ⊢ with hfit
  · set chosen := gather (fun freed v => add freed v.request) (fitIn need) ∅
      (victimPool need candidates)
    set kept := trim (fun freed v => sub freed v.request) (fitIn need) chosen.1 chosen.2.reverse
    have hsub : kept.2.reverse.Sublist chosen.2 := by
      simpa using (trim_sublist _ _ chosen.1 chosen.2.reverse).reverse
    have hpool : chosen.2.Sublist (victimPool need candidates) := gather_sublist _ _ _ _
    have hmem : ∀ v ∈ chosen.2, v ∈ candidates.filter fun v =>
        v.preemptable && decide (0 < contribution need v.request) := fun v hv =>
      (victimPool_perm need candidates).subset (hpool.subset hv)
    have hacc : ∀ d, get kept.1 d = freed kept.2.reverse d := by
      intro d
      have hchosen : get chosen.1 d = freed chosen.2.reverse d :=
        (get_gather need _ d).trans (freed_perm (List.reverse_perm _).symm d)
      exact (get_trim need hchosen).trans (freed_perm (List.reverse_perm _).symm d)
    have hcovers : ∀ d ∈ need.keys, get need d ≤ freed kept.2.reverse d := by
      intro d hd
      rw [← hacc]
      exact (fitIn_iff _ _).mp (trim_enough _ hfit) d hd
    refine ⟨?_, fun v hv => ?_, hcovers, fun hnonneg => ⟨hcovers, fun v hv => ?_⟩⟩
    · exact (hsub.trans hpool).subperm.trans (victimPool_subperm need candidates)
    · simpa using (List.mem_filter.mp (hmem v (hsub.subset hv))).2
    · have hnn : ∀ y ∈ chosen.2.reverse, y.NonNegative := fun y hy =>
        hnonneg y (List.mem_filter.mp (hmem y (List.mem_reverse.mp hy))).1
      simp only [← hacc]
      exact trim_spares_none hnn (List.mem_reverse.mp hv)
  · exact absurd rfl h

/-- The order of the victims as a lexicographic one. -/
def rank (need : Resource ℤ) (v : Victim ℤ) : ℤ ×ₗ ℤ ×ₗ String :=
  toLex (v.priority, toLex (-contribution need v.request, v.uid))

lemma victimLess_iff (need : Resource ℤ) (a b : Victim ℤ) :
    victimLess need a b = true ↔ rank need a < rank need b := by
  simp only [rank, Prod.Lex.toLex_lt_toLex]
  unfold victimLess
  split_ifs with hprio hcontr
  · simp [hprio]
  · simp only [ne_eq, not_not] at hprio
    simp [hprio, hcontr]
  · simp only [ne_eq, not_not] at hprio hcontr
    simp [hprio, hcontr]

lemma victimPool_sorted (need : Resource ℤ) (candidates : List (Victim ℤ)) :
    (victimPool need candidates).Pairwise fun a b => a.priority ≤ b.priority := by
  have hle : ∀ a b : Victim ℤ, victimLess need b a = false ↔ rank need a ≤ rank need b := by
    intro a b
    rw [← not_lt, ← victimLess_iff, Bool.not_eq_true]
  have htotal : Std.Total fun a b : Victim ℤ => victimLess need b a = false :=
    ⟨fun a b => by simp only [hle]; exact le_total _ _⟩
  have htrans : IsTrans (Victim ℤ) fun a b => victimLess need b a = false :=
    ⟨fun a b c hab hbc => by simp only [hle] at hab hbc ⊢; exact hab.trans hbc⟩
  refine (List.pairwise_insertionSort _ _).imp fun {a b} hab => ?_
  have hrank := (hle a b).mp hab
  simp only [rank, Prod.Lex.toLex_le_toLex] at hrank
  omega

section Tightness
variable {need : Resource ℤ} {S : List (Victim ℤ)}

lemma Tight.contribution_pos (h : Tight need S) {v : Victim ℤ} (hv : v ∈ S)
    (hnonneg : v.NonNegative) : 0 < contribution need v.request := by
  obtain ⟨d, hd, hlt⟩ := h.needed v hv
  have hcover := h.covers d hd
  exact Finset.sum_pos' (fun i _ => hnonneg i) ⟨d, hd, by omega⟩

lemma Tight.enough (h : Tight need S) :
    fitIn need (S.foldl (fun freed v => add freed v.request) ∅) = true := by
  rw [fitIn_iff]
  intro d hd
  rw [get_freed, get_empty, zero_add]
  exact h.covers d hd

lemma Tight.part_not_enough (h : Tight need S) (hnonneg : ∀ v ∈ S, v.NonNegative)
    {t : List (Victim ℤ)} (ht : t <+: S) (hne : t ≠ S) :
    fitIn need (t.foldl (fun freed v => add freed v.request) ∅) = false := by
  by_contra henough
  rw [Bool.not_eq_false, fitIn_iff] at henough
  have hshort : t.length < S.length :=
    lt_of_le_of_ne ht.length_le fun h => hne (ht.eq_of_length h)
  obtain ⟨v, l, hperm, hsub⟩ := ht.sublist.subperm.exists_of_length_lt hshort
  obtain ⟨d, hd, hlt⟩ := h.needed v (hsub.subset (hperm.mem_iff.mpr List.mem_cons_self))
  have hless : freed (v :: t) d ≤ freed S d := by
    rw [← freed_perm hperm]
    apply (hsub.map _).sum_le_sum
    intro x hx
    obtain ⟨w, hw, rfl⟩ := List.mem_map.mp hx
    exact hnonneg w hw d
  have hcover := henough d hd
  rw [get_freed, get_empty] at hcover
  simp only [freed, List.map_cons, List.sum_cons] at hless hlt hcover
  omega

lemma Tight.trim_eq (h : Tight need S) :
    trim (fun freed v => sub freed v.request) (fitIn need)
      (S.foldl (fun freed v => add freed v.request) ∅) S.reverse =
      (S.foldl (fun freed v => add freed v.request) ∅, S.reverse) := by
  apply trim_eq_self
  intro v hv
  obtain ⟨d, hd, hlt⟩ := h.needed v (List.mem_reverse.mp hv)
  simp only [← Bool.not_eq_true, fitIn_iff, get_sub, get_freed, not_forall, not_le]
  exact ⟨d, hd, by simpa using hlt⟩

end Tightness

/-- Where the cheapest candidates are just enough, they are the selection. -/
theorem selectVictims_cheapest {need : Resource ℤ} {candidates : List (Victim ℤ)} {k : ℤ}
    (hneed : isEmpty need = false) (hpre : ∀ v ∈ candidates, v.preemptable = true)
    (hnonneg : ∀ v ∈ candidates, v.NonNegative)
    (htight : Tight need (candidates.filter fun v => decide (v.priority < k))) :
    (selectVictims need candidates).Perm (candidates.filter fun v => decide (v.priority < k)) := by
  set cheap := candidates.filter fun v => decide (v.priority < k) with hcheap
  set low := (victimPool need candidates).filter fun v => decide (v.priority < k)
  have hlow : low.Perm cheap := by
    have hpool := (List.perm_insertionSort (fun a b => victimLess need b a = false)
      (candidates.filter fun v => v.preemptable && decide (0 < contribution need v.request))).filter
        fun v => decide (v.priority < k)
    have hall : cheap.filter
        (fun v => v.preemptable && decide (0 < contribution need v.request)) = cheap := by
      rw [List.filter_eq_self]
      intro v hv
      have hmem := (List.mem_filter.mp hv).1
      simp [hpre v hmem, htight.contribution_pos hv (hnonneg v hmem)]
    rwa [List.filter_comm, ← hcheap, hall] at hpool
  have htight' := htight.perm hlow.symm
  have hnn : ∀ v ∈ low, v.NonNegative := fun v hv =>
    hnonneg v (List.mem_filter.mp (hlow.subset hv)).1
  -- the pool begins with the cheap candidates, and gathering stops after them
  have hgather := gather_eq_prefix (fun t => htight'.part_not_enough hnn) htight'.enough
    ((victimPool need candidates).filter fun v => !decide (v.priority < k))
  rw [filter_append_of_sorted (victimPool_sorted need candidates) k] at hgather
  have hsel : selectVictims need candidates = low := by
    simp [selectVictims, hneed, hgather, htight'.enough, htight'.trim_eq]
  rw [hsel]
  exact hlow

end AdScheduler.Preemption
