import AdScheduler.Preemption

/-! The selection of victims against its purpose: the victims cover the need, none of them
can be spared, a cover is found whenever there is one, and no cover gets by with lower
priorities. -/
namespace AdScheduler.VictimChoice
open KeyedMap Resources Preemption Greedy

def Covers (need : Resource ℤ) (S : List (Victim ℤ)) : Prop :=
  ∀ d ∈ need.keys, get need d ≤ freed S d

variable {need : Resource ℤ} {candidates : List (Victim ℤ)}

def helps (need : Resource ℤ) (v : Victim ℤ) : Bool := decide (0 < contribution need v.request)

lemma get_eq_zero_of_not_helps {v : Victim ℤ} (hv : v.NonNegative) (h : helps need v = false)
    {d : String} (hd : d ∈ need.keys) : get v.request d = 0 := by
  have hnone := not_lt.mp (of_decide_eq_false h)
  have hsum : ∑ d ∈ need.keys, get v.request d = 0 :=
    le_antisymm hnone (Finset.sum_nonneg fun d _ => hv d)
  exact (Finset.sum_eq_zero_iff_of_nonneg fun d _ => hv d).mp hsum d hd

lemma freed_filter_helps {T : List (Victim ℤ)} (hnn : ∀ v ∈ T, v.NonNegative) {d : String}
    (hd : d ∈ need.keys) : freed (T.filter (helps need)) d = freed T d := by
  induction T with
  | nil => rfl
  | cons v vs ih =>
    have htail := ih fun w hw => hnn w (List.mem_cons_of_mem v hw)
    simp only [freed] at htail
    cases hv : helps need v with
    | true => simp [freed, hv, htail]
    | false =>
      have hzero := get_eq_zero_of_not_helps (hnn v List.mem_cons_self) hv hd
      simp [freed, hv, hzero, htail]

lemma freed_le_of_subperm {S T : List (Victim ℤ)} (h : S.Subperm T)
    (hnn : ∀ v ∈ T, v.NonNegative) (d : String) : freed S d ≤ freed T d := by
  obtain ⟨l, hperm, hsub⟩ := h
  rw [← freed_perm hperm]
  apply (hsub.map _).sum_le_sum
  intro x hx
  obtain ⟨v, hv, rfl⟩ := List.mem_map.mp hx
  exact hnn v hv d

lemma covers_iff_fitIn (S : List (Victim ℤ)) :
    Covers need S ↔ fitIn need (S.foldl (fun freed v => add freed v.request) ∅) = true := by
  simp only [fitIn_iff, get_freed, get_empty, zero_add]
  rfl

lemma covers_pool (hnn : ∀ v ∈ candidates, v.NonNegative)
    (h : Covers need (candidates.filter Victim.preemptable)) :
    Covers need (victimPool need candidates) := by
  intro d hd
  have hpre : ∀ v ∈ candidates.filter Victim.preemptable, v.NonNegative := fun v hv =>
    hnn v (List.mem_filter.mp hv).1
  have hpool : freed (victimPool need candidates) d =
      freed ((candidates.filter Victim.preemptable).filter (helps need)) d := by
    rw [freed_perm (victimPool_perm need candidates), List.filter_filter]
    simp only [Bool.and_comm, helps]
  rw [hpool, freed_filter_helps hpre hd]
  exact h d hd

lemma selectVictims_ne_nil (hneed : isEmpty need = false)
    (hpos : ∃ d ∈ need.keys, 0 < get need d) (hpool : Covers need (victimPool need candidates)) :
    selectVictims need candidates ≠ [] := by
  set chosen := gather (fun freed v => add freed v.request) (fitIn need) ∅
    (victimPool need candidates) with hchosen
  have hacc : ∀ d, get chosen.1 d = freed chosen.2 d := get_gather need _
  have henough : fitIn need chosen.1 = true := by
    by_contra hno
    rw [Bool.not_eq_true] at hno
    have hall : chosen.2 = victimPool need candidates := gather_eq_all hno
    rw [← Bool.not_eq_true, fitIn_iff] at hno
    refine hno fun d hd => ?_
    rw [hacc, hall]
    exact hpool d hd
  intro hnil
  simp only [selectVictims, hneed, ← hchosen, henough, if_true, Bool.false_eq_true, if_false,
    List.reverse_eq_nil_iff] at hnil
  -- with everything trimmed the accumulator would be empty, and still enough
  obtain ⟨d, hd, hlt⟩ := hpos
  have htrim := get_trim need ((hacc d).trans (freed_perm (List.reverse_perm chosen.2).symm d))
  have hkept : fitIn need
      (trim (fun freed (v : Victim ℤ) => sub freed v.request) (fitIn need) chosen.1
      chosen.2.reverse).1 = true := trim_enough _ henough
  have hleft := (fitIn_iff _ _).mp hkept d hd
  rw [hnil] at htrim
  simp only [freed, List.map_nil, List.sum_nil] at htrim
  omega

/-- What a selection is for: victims from the candidates that cover the need, as few as
possible in the sense that each is needed, and none only where there is no point or no way. -/
structure Serves (need : Resource ℤ) (candidates S : List (Victim ℤ)) : Prop where
  among : S.Subperm candidates
  preemptable : ∀ v ∈ S, v.preemptable = true
  covers : S ≠ [] → Covers need S
  irredundant : ∀ before v after, S = before ++ v :: after → ¬ Covers need (before ++ after)
  empty_iff : S = [] ↔ (∀ d ∈ need.keys, ¬ 0 < get need d) ∨
    ¬ Covers need (candidates.filter Victim.preemptable)

lemma freed_append_cons (before after : List (Victim ℤ)) (v : Victim ℤ) (d : String) :
    freed (before ++ v :: after) d = freed (before ++ after) d + get v.request d := by
  simp only [freed, List.map_append, List.map_cons, List.sum_append, List.sum_cons]
  ring

lemma selectVictims_ne_nil_iff (hneed : ∀ d ∈ need.keys, 0 ≤ get need d)
    (hnn : ∀ v ∈ candidates, v.NonNegative) :
    selectVictims need candidates ≠ [] ↔
      (∃ d ∈ need.keys, 0 < get need d) ∧ Covers need (candidates.filter Victim.preemptable) := by
  constructor
  · intro hne
    have hsel := selectVictims_selected hne
    constructor
    · by_contra hzero
      push Not at hzero
      have hempty : isEmpty need = true := by
        simp only [isEmpty, decide_eq_true_eq]
        exact fun d hd => le_antisymm (hzero d hd) (hneed d hd)
      exact hne (by simp [selectVictims, hempty])
    · have hsub : (selectVictims need candidates).Subperm
          (candidates.filter Victim.preemptable) := by
        have hkept := hsel.among.filter Victim.preemptable
        rwa [List.filter_eq_self.mpr fun v hv => (hsel.helps v hv).1] at hkept
      intro d hd
      exact (hsel.covers d hd).trans
        (freed_le_of_subperm hsub (fun v hv => hnn v (List.mem_filter.mp hv).1) d)
  · rintro ⟨⟨d, hd, hpos⟩, hcovers⟩
    exact selectVictims_ne_nil (isEmpty_eq_false hpos.ne') ⟨d, hd, hpos⟩
      (covers_pool hnn hcovers)

/-- A selection covers the need with candidates that are all needed, and it is found
whenever the preemptable candidates are enough for a need that is not zero. -/
theorem selectVictims_serves (hneed : ∀ d ∈ need.keys, 0 ≤ get need d)
    (hnn : ∀ v ∈ candidates, v.NonNegative) :
    Serves need candidates (selectVictims need candidates) := by
  have hempty : selectVictims need candidates = [] ↔ (∀ d ∈ need.keys, ¬ 0 < get need d) ∨
      ¬ Covers need (candidates.filter Victim.preemptable) := by
    have hfound := not_congr (selectVictims_ne_nil_iff hneed hnn)
    rw [ne_eq, not_not, not_and_or] at hfound
    rw [hfound]
    simp only [not_exists, not_and]
  by_cases hne : selectVictims need candidates = []
  · refine ⟨by simp [hne], by simp [hne], fun h => absurd hne h, fun _ _ _ h => ?_, hempty⟩
    simp [hne] at h
  · have hsel := selectVictims_selected hne
    refine ⟨hsel.among, fun v hv => (hsel.helps v hv).1, fun _ => hsel.covers, ?_, hempty⟩
    intro before v after hsplit hcovers
    obtain ⟨d, hd, hlt⟩ := (hsel.tight hnn).needed v (by simp [hsplit])
    have hrest := hcovers d hd
    rw [hsplit, freed_append_cons] at hlt
    omega

def bareVictim (uid : String) (priority cpu : ℤ) : Victim ℤ :=
  ⟨uid, priority, Finmap.singleton "cpu" cpu, true⟩

lemma bareVictim_nonNegative (uid : String) (priority cpu : ℤ) (h : 0 ≤ cpu) :
    (bareVictim uid priority cpu).NonNegative := by
  intro d
  simp only [bareVictim, get_singleton]
  split_ifs <;> omega

theorem redundant_victim_spared :
    let need : Resource ℤ := Finmap.singleton "cpu" 3
    let candidates := [bareVictim "small" 0 1, bareVictim "large" 1 3]
    (selectVictims need candidates).map Victim.uid = ["large"] ∧
      Serves need candidates (selectVictims need candidates) := by
  intro need candidates
  refine ⟨by decide +kernel, selectVictims_serves (by decide) ?_⟩
  simp [candidates, bareVictim_nonNegative]

section Priorities

lemma cheaper_before {before after T : List (Victim ℤ)} {v : Victim ℤ}
    (hpool : victimPool need candidates = before ++ v :: after)
    (hT : T.Subperm (victimPool need candidates)) (hcheap : ∀ w ∈ T, w.priority < v.priority) :
    T.Subperm before := by
  have hsorted := victimPool_sorted need candidates
  rw [hpool, List.pairwise_append, List.pairwise_cons] at hsorted
  obtain ⟨-, ⟨hafter, -⟩, -⟩ := hsorted
  have hlow := hT.filter fun w => decide (w.priority < v.priority)
  have hself : T.filter (fun w => decide (w.priority < v.priority)) = T :=
    List.filter_eq_self.mpr fun w hw => by simpa using hcheap w hw
  have hnone : after.filter (fun w => decide (w.priority < v.priority)) = [] := by
    rw [List.filter_eq_nil_iff]
    intro w hw
    simpa using hafter w hw
  rw [hself, hpool, List.filter_append, List.filter_cons] at hlow
  simp only [lt_self_iff_false, decide_false, Bool.false_eq_true, if_false, hnone,
    List.append_nil] at hlow
  exact hlow.trans List.filter_sublist.subperm

lemma not_covers_before {v : Victim ℤ} (hv : v ∈ selectVictims need candidates) :
    ∃ before after, victimPool need candidates = before ++ v :: after ∧ ¬ Covers need before := by
  unfold selectVictims at hv
  dsimp only at hv
  split_ifs at hv with hempty hfit
  · simp at hv
  · have hkept := (trim_sublist _ _ _ _).subset (List.mem_reverse.mp hv)
    obtain ⟨before, after, hpool, hless⟩ := not_enough_before_gathered (List.mem_reverse.mp hkept)
    exact ⟨before, after, hpool, by rw [covers_iff_fitIn, hless]; exact Bool.false_ne_true⟩
  · simp at hv

/-- Whatever preemptable candidates cover the need, one of them has at least the priority of
any victim selected. -/
theorem selectVictims_spares_priority (hnn : ∀ v ∈ candidates, v.NonNegative) {v : Victim ℤ}
    (hv : v ∈ selectVictims need candidates) {T : List (Victim ℤ)} (hT : T.Subperm candidates)
    (hpre : ∀ w ∈ T, w.preemptable = true) (hcovers : Covers need T) :
    ∃ w ∈ T, v.priority ≤ w.priority := by
  by_contra hlow
  push Not at hlow
  obtain ⟨before, after, hpool, hless⟩ := not_covers_before hv
  have hkept : (T.filter (helps need)).Subperm (victimPool need candidates) := by
    have hsub := hT.filter fun v => v.preemptable && helps need v
    have hsame : T.filter (fun v => v.preemptable && helps need v) = T.filter (helps need) :=
      List.filter_congr fun w hw => by simp [hpre w hw]
    rw [hsame] at hsub
    exact hsub.trans (victimPool_perm need candidates).symm.subperm
  have hbefore := cheaper_before hpool hkept fun w hw => hlow w (List.mem_filter.mp hw).1
  have hpoolnn : ∀ w ∈ before, w.NonNegative := by
    intro w hw
    have hmem : w ∈ victimPool need candidates := by simp [hpool, hw]
    exact hnn w (List.mem_filter.mp ((victimPool_perm need candidates).subset hmem)).1
  refine hless fun d hd => ?_
  calc get need d ≤ freed T d := hcovers d hd
    _ = freed (T.filter (helps need)) d :=
      (freed_filter_helps (fun w hw => hnn w (hT.subset hw)) hd).symm
    _ ≤ freed before d := freed_le_of_subperm hbefore hpoolnn d

theorem cheap_victims_taken :
    let need : Resource ℤ := Finmap.singleton "cpu" 3
    let candidates := [bareVictim "dear" 5 3, bareVictim "a" 0 1, bareVictim "b" 1 2]
    (selectVictims need candidates).map Victim.uid = ["a", "b"] ∧
      ∀ v ∈ selectVictims need candidates, ∃ w ∈ [bareVictim "dear" 5 3],
          v.priority ≤ w.priority := by
  intro need candidates
  refine ⟨by decide +kernel, fun v hv => ?_⟩
  have hnn : ∀ v ∈ candidates, v.NonNegative := by simp [candidates, bareVictim_nonNegative]
  exact selectVictims_spares_priority hnn hv (by simp [candidates])
    (by simp [bareVictim]) (by unfold Covers; decide +kernel)

end Priorities

end AdScheduler.VictimChoice
