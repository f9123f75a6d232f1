import AdScheduler.ReclaimOutcome

/-! Whether a reclaim evicts more than it has to. The victims are chosen to cover the whole
request of the pod, also where a part of it fits already. -/
namespace AdScheduler.ReclaimNeeded
open KeyedMap Resources QueueTree TreeShape Manager Conservation EngineCore Requests Placement
open CoordinatorCore Fences Preemption Reclaim Eviction DonorFloors ReclaimChoice ReclaimOutcome

/-- Without any one of its victims the pod of the reclaim would not fit. -/
def EvictsOnlyNeeded (rt : Runtime ℤ) (c : Coordinator ℤ) : Prop :=
  ∀ p S, reclaimOnce rt c = some (p, S) → ∀ v ∈ S, ∃ m' leaf,
    (release c.engine ((S.filter fun x => decide (x.uid ≠ v.uid)).map Victim.uid)).tree = some m' ∧
      resolve m' p.placementKey = .ok leaf ∧ m'.canFit leaf (effectiveRequest p) = .ok false

def others (v : Pod ℤ) (P : List (Pod ℤ)) : List (Pod ℤ) := P.filter fun x => decide (x.uid ≠ v.uid)

/-- Whatever may be taken for a starved pod, without any one pod of it some queue on the way
up stays over its maximum. -/
def EachNeeded (c : Coordinator ℤ) (m : QueueManager ℤ) : Prop :=
  ∀ p ∈ pendingPods c, ∀ leaf, Starved m p leaf → ∀ P, Choice m (boundPods c) p leaf P → ∀ v ∈ P,
    ∃ n ∈ pathUp m.index leaf, ∃ d ∈ (effectiveRequest p).keys, d ∈ n.max.keys ∧
      get n.max d < usedWithout m (others v P) n.path d + get (effectiveRequest p) d

section Partial
variable {c : Coordinator ℤ} {m : QueueManager ℤ}

lemma others_reprioritized (π : Pod ℤ → Option ℤ) (v : Pod ℤ) (P : List (Pod ℤ)) :
    others v (P.map (reprioritize π)) = (others v P).map (reprioritize π) := by
  rw [others, List.filter_map]
  rfl

lemma release_others (hm : c.engine.tree = some m) {P : List (Pod ℤ)} (hd : (P.map Pod.uid).Nodup)
    (hbooked : ∀ p ∈ P, BookedOn c.engine m p ∧ ∃ l, resolve m p.placementKey = .ok l)
    {S : List (Victim ℤ)} (hS : S.Perm (P.map victimOf)) (v : Pod ℤ) :
    ∃ m', (release c.engine ((S.filter fun x => decide (x.uid ≠ v.uid)).map Victim.uid)).tree =
        some m' ∧ m'.index = m.index ∧
      ∀ n d, get (m'.used n) d = usedWithout m (others v P) n d := by
  have hsub : (others v P).Sublist P := List.filter_sublist
  refine release_victims hm ((hsub.map Pod.uid).nodup hd)
    (fun p hp => hbooked p (hsub.subset hp)) ?_
  have hperm := hS.filter fun x => decide (x.uid ≠ v.uid)
  rwa [List.filter_map] at hperm

lemma canFit_false_iff {leaf : String} (hleaf : m.isLeafPath leaf = true) (need : Resource ℤ) :
    m.canFit leaf need = .ok false ↔ ∃ n ∈ pathUp m.index leaf, ∃ d ∈ need.keys, d ∈ n.max.keys ∧
      get n.max d < get (m.used n.path) d + get need d := by
  have hok : m.canFit leaf need = .ok false ↔ ¬ m.canFit leaf need = .ok true := by
    obtain ⟨q, hq, _⟩ := (isLeafPath_iff m leaf).mp hleaf
    simp [QueueManager.canFit, hq]
  rw [hok, canFit_iff hleaf]
  push Not
  rfl

/-- The condition is enough for every cluster, and where no request is negative it leaves out
only clusters in which other priorities, sparing the same pods, make a reclaim evict a pod
that is not needed. -/
theorem reclaim_evicts_only_needed (rt : Runtime ℤ) (hb : Booked c m) :
    (EachNeeded c m → EvictsOnlyNeeded rt c) ∧
    ((∀ x ∈ c.pods, NonNegative x) → ¬ EachNeeded c m →
      ∃ p ∈ pendingPods c, ∃ π, SparesAlike π c p ∧ ¬ EvictsOnlyNeeded rt (reprioritized π c)) := by
  constructor
  · intro hneeded p S h v hv
    obtain ⟨hp, leaf, P, hs, hP, hperm⟩ := reclaim_choice hb h
    obtain ⟨w, hw, rfl⟩ := List.mem_map.mp (hperm.mem_iff.mp hv)
    obtain ⟨m', hm', hix, hused⟩ :=
      release_others hb.tree (choice_uids_nodup hb hP) (choice_booked hb hP) hperm w
    have hres : resolve m' p.placementKey = .ok leaf := by rw [resolve_congr hix, hs.resolves]
    refine ⟨m', leaf, hm', hres, (canFit_false_iff (resolve_isLeafPath hres) _).mpr ?_⟩
    simp only [hix, hused]
    exact hneeded p hp leaf hs P hP w hw
  · intro hnn hno
    simp only [EachNeeded, not_forall] at hno
    obtain ⟨p, hp, leaf, hs, P, hP, v, hv, hspared⟩ := hno
    obtain ⟨S, hS, hperm⟩ := choice_realised rt hb.tree hb.distinct hnn hp hs hP
    refine ⟨p, hp, preferring P p, fun v => preferring_spares hb.distinct hp hP, fun honly => ?_⟩
    obtain ⟨m', hm', hix, hused⟩ := release_others hb.tree (reprioritized_uids_nodup hb hP _)
      (reprioritized_booked hb hP _) hperm v
    have hmem : victimOf (reprioritize (preferring P p) v) ∈ S :=
      hperm.mem_iff.mpr (List.mem_map_of_mem (List.mem_map_of_mem hv))
    obtain ⟨t, l, ht, hl, hfull⟩ := honly _ S hS _ hmem
    obtain rfl : t = m' := Option.some.inj (ht.symm.trans hm')
    have hres : resolve t p.placementKey = .ok leaf := by rw [resolve_congr hix, hs.resolves]
    obtain rfl : l = leaf := Except.ok.inj (hl.symm.trans hres)
    have hover := (canFit_false_iff (resolve_isLeafPath hres) _).mp hfull
    simp only [hix, hused, others_reprioritized, usedWithout_reprioritized] at hover
    exact hspared hover

lemma demand_others {P : List (Pod ℤ)} (hd : (P.map Pod.uid).Nodup) {v : Pod ℤ} (hv : v ∈ P)
    (d : String) : demand (others v P) d = demand P d - get (effectiveRequest v) d := by
  unfold others demand
  induction P with
  | nil => simp at hv
  | cons x rest ih =>
    rw [List.map_cons, List.nodup_cons] at hd
    rcases List.mem_cons.mp hv with rfl | hv
    · have hrest : rest.filter (fun y => decide (y.uid ≠ v.uid)) = rest := by
        refine List.filter_eq_self.mpr fun y hy => decide_eq_true fun he => ?_
        exact hd.1 (he ▸ List.mem_map_of_mem hy)
      rw [List.filter_cons_of_neg (by simp), hrest, List.map_cons, List.sum_cons]
      omega
    · have hne : x.uid ≠ v.uid := fun he => hd.1 (he ▸ List.mem_map_of_mem hv)
      have hsum := ih hd.2 hv
      simp only [List.filter_cons, hne, ne_eq, not_false_eq_true, decide_true, if_true,
        List.map_cons,
        List.sum_cons] at hsum ⊢
      omega

lemma eachNeeded_of_full (hb : Booked c m) (hnn : ∀ x ∈ c.pods, NonNegative x)
    (hfull : ∀ p ∈ pendingPods c, ∀ leaf, Starved m p leaf → ∀ d ∈ (effectiveRequest p).keys,
      ∃ n ∈ pathUp m.index leaf, d ∈ n.max.keys ∧ get n.max d ≤ get (m.used n.path) d ∧
        pathWithinSubtree ((fenceBoundary m leaf).getD "") n.path = true) : EachNeeded c m := by
  intro p hp leaf hs P hP v hv
  have hbound : ∀ x ∈ boundPods c, NonNegative x := fun x hx =>
    hnn x ((boundPods_sublist c).subset hx)
  obtain ⟨d, hd, hneeded⟩ := hP.needed hbound v hv
  obtain ⟨n, hn, hmax, hused, habove⟩ := hfull p hp leaf hs d hd
  have hdonors : ∀ x ∈ others v P, donorLeaf m leaf x ≠ none := fun x hx =>
    hP.donors x (List.mem_filter.mp hx).1
  refine ⟨n, hn, d, hd, hmax, ?_⟩
  rw [usedWithout, sum_podShare_above_fence hdonors (lookup_of_mem_pathUp m.wf.toShape hn) habove,
    demand_others (choice_uids_nodup hb hP) hv]
  omega

end Partial

/-- Two pods of 2 are evicted for a pod of 4 that lacks 2: with one of them gone it fits. -/
theorem free_room_not_counted :
    Booked borrowing borrowed ∧ (∀ x ∈ borrowing.pods, NonNegative x) ∧
      ((reclaimOnce (sortedRuntime ℤ) borrowing).map fun r => (r.1.uid, r.2.map Victim.uid)) =
        some ("p", ["b1", "b2"]) ∧
      ¬ EvictsOnlyNeeded (sortedRuntime ℤ) borrowing := by
  have hroom : ((reclaimOnce (sortedRuntime ℤ) borrowing).any fun r => r.2.any fun v =>
      (release borrowing.engine ((r.2.filter fun x => decide (x.uid ≠ v.uid)).map
        Victim.uid)).tree.all
        fun m' => (resolve m' r.1.placementKey).toOption.all fun leaf =>
          m'.fits leaf (effectiveRequest r.1)) = true := by decide +kernel
  refine ⟨borrowing_booked, borrowing_nonNegative, by decide +kernel, fun honly => ?_⟩
  cases h : reclaimOnce (sortedRuntime ℤ) borrowing with
  | none => simp [h] at hroom
  | some r =>
    obtain ⟨p, S⟩ := r
    rw [h, Option.any_some, List.any_eq_true] at hroom
    obtain ⟨v, hv, hfits⟩ := hroom
    obtain ⟨m', leaf, hm', hleaf, hfull⟩ := honly p S h v hv
    obtain ⟨q, hq, _⟩ := (isLeafPath_iff m' leaf).mp (resolve_isLeafPath hleaf)
    simp only [hm', Option.all_some, hleaf, Except.toOption] at hfits
    simp [QueueManager.canFit, hq, hfits] at hfull

def filled : Coordinator ℤ :=
  populated (treeOf (twoShares 6 4 2) (by decide +kernel))
    [runningPod "b1" "team" "bob" 2, runningPod "b2" "team" "bob" 2,
      runningPod "b3" "team" "bob" 2, barePod "p" "team" "alice" 4]

theorem filled_evicts_only_needed :
    ((reclaimOnce (sortedRuntime ℤ) filled).map fun r => (r.1.uid, r.2.map Victim.uid)) =
        some ("p", ["b1", "b2"]) ∧ EvictsOnlyNeeded (sortedRuntime ℤ) filled := by
  have htree : filled.engine.tree.isSome = true := by decide +kernel
  obtain ⟨m, hm⟩ := Option.isSome_iff_exists.mp htree
  have hbooked : filled.engine.tree.all (fun m => decide (∀ v ∈ boundPods filled,
      BookedOn filled.engine m v)) = true := by decide +kernel
  have hfull : filled.engine.tree.all (fun m => decide (∀ p ∈ pendingPods filled,
      resolve m p.placementKey = .ok "root.team.a" ∧ ∀ d ∈ (effectiveRequest p).keys,
        ∃ n ∈ pathUp m.index "root.team.a", d ∈ n.max.keys ∧ get n.max d ≤ get (m.used n.path) d ∧
          pathWithinSubtree ((fenceBoundary m "root.team.a").getD "") n.path = true)) = true := by
    decide +kernel
  rw [hm, Option.all_some, decide_eq_true_eq] at hbooked hfull
  have hb : Booked filled m := ⟨hm, by decide +kernel, hbooked⟩
  refine ⟨by decide +kernel, (reclaim_evicts_only_needed (sortedRuntime ℤ) hb).1 ?_⟩
  refine eachNeeded_of_full hb (by decide +kernel) fun p hp leaf hs => ?_
  obtain rfl : leaf = "root.team.a" := Except.ok.inj (hs.resolves.symm.trans (hfull p hp).1)
  exact (hfull p hp).2

end AdScheduler.ReclaimNeeded
