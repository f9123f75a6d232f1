import AdScheduler.Eviction

/-! Protection of the donors: whatever part of the victims is evicted, no leaf falls below
its guarantee, and no victim can reclaim its place. -/
namespace AdScheduler.DonorFloors
open KeyedMap Resources QueueTree TreeShape Manager Conservation EngineCore Requests Placement
  CoordinatorCore
open Preemption Reclaim Eviction

/-- Releasing any part of the victims leaves each leaf what it had, or its guarantee. -/
def KeepsFloors (e : Engine ℤ) (m : QueueManager ℤ) (victims : List (Victim ℤ)) : Prop :=
  ∀ S : List (Victim ℤ), S.Subperm victims →
    ∃ m', (release e (S.map Victim.uid)).tree = some m' ∧ m'.index = m.index ∧
      ∀ l q, m.index.lookup l = some q → q.isLeaf = true → ∀ d,
        min (get (m.used l) d) (get q.guaranteed d) ≤ get (m'.used l) d

section Drain
variable {e : Engine ℤ} {m : QueueManager ℤ} {pods : List (Pod ℤ)} {route : Pod ℤ → Option String}

lemma taken_uids_nodup (rt : Runtime ℤ) (spare : Pod ℤ → Bool) (hd : (pods.map Pod.uid).Nodup)
    {P : List (Pod ℤ)} (hP : P.Sublist (drainDonors rt m spare (groupByLeaf route pods))) :
    (P.map Pod.uid).Nodup := by
  obtain ⟨l, hperm, hsub⟩ := hP.subperm.trans (drainDonors_subperm rt m spare route pods)
  exact (hperm.map Pod.uid).nodup_iff.mp ((hsub.map Pod.uid).nodup hd)

/-- The pods of the routing are booked, with non-negative requests. -/
def RoutedBooked (e : Engine ℤ) (m : QueueManager ℤ) (route : Pod ℤ → Option String)
    (pods : List (Pod ℤ)) : Prop :=
  ∀ p ∈ pods, route p ≠ none → BookedOn e m p ∧ NonNegative p

lemma keepsFloors_drain (rt : Runtime ℤ) (spare : Pod ℤ → Bool) (hm : e.tree = some m)
    (hroute : Routes m route) (hd : (pods.map Pod.uid).Nodup)
    (hb : RoutedBooked e m route pods) :
    KeepsFloors e m ((drainDonors rt m spare (groupByLeaf route pods)).map victimOf) := by
  intro S hS
  obtain ⟨P, hP, hperm⟩ := exists_taken hS
  have hbooked : ∀ p ∈ P, BookedOn e m p ∧ ∃ leaf, resolve m p.placementKey = .ok leaf := by
    intro p hp
    obtain ⟨hmem, leaf, hleaf⟩ := mem_drainDonors rt m spare route pods (hP.subset hp)
    exact ⟨(hb p hmem (by simp [hleaf])).1, leaf, hroute p leaf hleaf⟩
  obtain ⟨m', hm', hix, hused⟩ :=
    release_victims hm (taken_uids_nodup rt spare hd hP) hbooked hperm
  refine ⟨m', hm', hix, fun l q hq hl d => ?_⟩
  have hbudget := taken_within_budget rt spare hroute hP (fun p hp hr => (hb p hp hr).2) hq hl d
  rw [hused]
  omega

end Drain

lemma donorLeaf_routes (m : QueueManager ℤ) (starvedLeaf : String) :
    Routes m (donorLeaf m starvedLeaf) := fun _ _ h => (donorLeaf_some h).1

/-- Eviction never drops a donor below its guarantee, on both ways to preempt. On a node
only our pods outside gangs need to be booked. -/
theorem donors_keep_guarantee (rt : Runtime ℤ) {e : Engine ℤ} {m : QueueManager ℤ}
    (hm : e.tree = some m) {pods : List (Pod ℤ)} (hd : (pods.map Pod.uid).Nodup) :
    (∀ starvedLeaf starvedPrio, (∀ p ∈ pods, BookedOn e m p ∧ NonNegative p) →
      KeepsFloors e m (buildVictims rt m pods starvedLeaf starvedPrio).1) ∧
    (∀ incomingPrio schedName askerLeaf,
      (∀ p ∈ pods, p.schedulerName = schedName → p.gang = false →
        BookedOn e m p ∧ NonNegative p) →
      KeepsFloors e m (eligibleVictims rt m pods incomingPrio schedName askerLeaf).1) := by
  constructor
  · intro starvedLeaf starvedPrio hb
    exact keepsFloors_drain rt _ hm (donorLeaf_routes m starvedLeaf) hd fun p hp _ => hb p hp
  · intro incomingPrio schedName askerLeaf hb
    have hroute : Routes m (nodeDonorLeaf m incomingPrio schedName askerLeaf) :=
      fun p leaf h => (nodeDonorLeaf_some h).2.2.1
    refine keepsFloors_drain rt _ hm hroute hd fun p hp hr => ?_
    obtain ⟨leaf, hleaf⟩ := Option.ne_none_iff_exists'.mp hr
    obtain ⟨hours, hgang, _⟩ := nodeDonorLeaf_some hleaf
    exact hb p hp hours hgang

def borrowing : Coordinator ℤ :=
  populated (treeOf (twoShares 8 4 2) (by decide +kernel))
    [runningPod "b1" "team" "bob" 2, runningPod "b2" "team" "bob" 2,
      runningPod "b3" "team" "bob" 2, barePod "p" "team" "alice" 4]

def borrowed : QueueManager ℤ := borrowing.engine.tree.get (by decide +kernel)

theorem borrower_keeps_guarantee :
    (buildVictims (sortedRuntime ℤ) borrowed (boundPods borrowing) "root.team.a" 0).1.map
        Victim.uid = ["b1", "b2"] ∧
      KeepsFloors borrowing.engine borrowed
        (buildVictims (sortedRuntime ℤ) borrowed (boundPods borrowing) "root.team.a" 0).1 ∧
      KeepsFloors borrowing.engine borrowed (eligibleVictims (sortedRuntime ℤ) borrowed
        (boundPods borrowing) 1 "ad-scheduler" "root.team.a").1 := by
  have hm : borrowing.engine.tree = some borrowed := (Option.some_get _).symm
  have hd : ((boundPods borrowing).map Pod.uid).Nodup := by decide +kernel
  have hb : ∀ p ∈ boundPods borrowing, BookedOn borrowing.engine borrowed p ∧ NonNegative p := by
    decide +kernel
  have h := donors_keep_guarantee (sortedRuntime ℤ) hm hd
  exact ⟨by decide +kernel, h.1 _ _ hb, h.2 _ _ _ fun p hp _ _ => hb p hp⟩

lemma not_entitled {m : QueueManager ℤ} {leaf d : String} {q : Queue ℤ} {need : Resource ℤ}
    (hq : m.index.lookup leaf = some q) (hpos : 0 < get need d)
    (h : get q.guaranteed d < get (m.used leaf) d + get need d) :
    entitledToReclaim m leaf need = false := by
  have hd : d ∈ need.keys := by
    by_contra hno
    rw [get_of_notMem hno] at hpos
    exact lt_irrefl 0 hpos
  simp only [entitledToReclaim, queueUsedGuaranteed, hq, Option.map_some, Bool.and_eq_false_iff]
  right
  simpa using ⟨d, hd, h⟩

/-- A victim that helps is entitled to nothing once it is evicted: its leaf was above the
guarantee in a dimension it uses, and is not below it now. -/
theorem no_ping_pong (rt : Runtime ℤ) {c : Coordinator ℤ} {m : QueueManager ℤ}
    (hm : c.engine.tree = some m) (hd : (c.pods.map Pod.uid).Nodup)
    (hb : ∀ p ∈ boundPods c, BookedOn c.engine m p ∧ NonNegative p) {p : Pod ℤ}
    {S : List (Victim ℤ)} (h : reclaimOnce rt c = some (p, S)) :
    ∃ m', (release c.engine (S.map Victim.uid)).tree = some m' ∧
      ∀ v ∈ S, ∃ pod ∈ boundPods c, victimOf pod = v ∧
        ∃ l, resolve m pod.placementKey = .ok l ∧ entitledToReclaim m' l v.request = false := by
  obtain ⟨t, ht, _, leaf, hs⟩ := reclaimOnce_some h
  obtain rfl : t = m := Option.some.inj (ht.symm.trans hm)
  have hsel := selectVictims_selected (hs.chosen.trans_ne hs.some)
  rw [hs.chosen] at hsel
  have hsub : ((boundPods c).map Pod.uid).Nodup :=
    ((List.filter_sublist.trans List.filter_sublist).map Pod.uid).nodup hd
  have hfloor := keepsFloors_drain rt _ ht (donorLeaf_routes t leaf) hsub (fun q hq _ => hb q hq)
    S hsel.among
  obtain ⟨m', hm', hix, hkeep⟩ := hfloor
  refine ⟨m', hm', fun v hv => ?_⟩
  obtain ⟨pod, hpod, rfl⟩ := List.mem_map.mp (hsel.among.subset hv)
  obtain ⟨hmem, l, hr⟩ := mem_drainDonors rt t _ _ _ hpod
  have hl := donorLeaf_routes t leaf pod l hr
  obtain ⟨d, _, hpos⟩ := exists_pos_of_contribution (hsel.helps _ hv).2
  obtain ⟨q, hq, hleaf⟩ := (isLeafPath_iff t l).mp (resolve_isLeafPath hl)
  have habove := donor_above_guarantee rt _ (donorLeaf_routes t leaf) hpod
    (fun x hx _ => (hb x hx).2) hl hq hpos
  have hnow := hkeep l q hq hleaf d
  refine ⟨pod, hmem, rfl, l, hl, not_entitled (hix ▸ hq) hpos ?_⟩
  rw [min_eq_right habove.le] at hnow
  exact lt_add_of_le_of_pos hnow hpos

theorem evicted_borrowers_not_entitled :
    ∃ p S, reclaimOnce (sortedRuntime ℤ) borrowing = some (p, S) ∧ S.map Victim.uid = ["b1", "b2"] ∧
      ∃ m', (release borrowing.engine (S.map Victim.uid)).tree = some m' ∧
        ∀ v ∈ S, ∃ pod ∈ boundPods borrowing, victimOf pod = v ∧
          ∃ l, resolve borrowed pod.placementKey = .ok l ∧
            entitledToReclaim m' l v.request = false := by
  have hsome : (reclaimOnce (sortedRuntime ℤ) borrowing).isSome = true := by decide +kernel
  obtain ⟨⟨p, S⟩, h⟩ := Option.isSome_iff_exists.mp hsome
  have huids : ((reclaimOnce (sortedRuntime ℤ) borrowing).map fun r => r.2.map Victim.uid) =
      some ["b1", "b2"] := by decide +kernel
  rw [h, Option.map_some, Option.some.injEq] at huids
  have hb : ∀ p ∈ boundPods borrowing, BookedOn borrowing.engine borrowed p ∧ NonNegative p := by
    decide +kernel
  exact ⟨p, S, h, huids, no_ping_pong (sortedRuntime ℤ) (Option.some_get _).symm
    (by decide +kernel) hb h⟩

end AdScheduler.DonorFloors
