import AdScheduler.ReclaimChoice

/-! What a reclaim achieves: whether the pod it is for fits afterwards, and whether the
inner queues keep their guarantees. Both depend on where the pods it may take stand in the
tree. -/
namespace AdScheduler.ReclaimOutcome
open KeyedMap Resources QueueTree TreeShape Manager Conservation EngineCore Requests Placement
open CoordinatorCore Fences Preemption Reclaim Eviction DonorFloors ReclaimChoice

/-- What a queue is charged once some pods are gone. -/
def usedWithout (m : QueueManager ℤ) (P : List (Pod ℤ)) (n d : String) : ℤ :=
  get (m.used n) d - (P.map (podShare m n d)).sum

/-- The bound pods are booked where placement routes them. -/
structure Booked (c : Coordinator ℤ) (m : QueueManager ℤ) : Prop where
  tree : c.engine.tree = some m
  distinct : (c.pods.map Pod.uid).Nodup
  bound : ∀ v ∈ boundPods c, BookedOn c.engine m v

section Effect
variable {c : Coordinator ℤ} {m : QueueManager ℤ} {p : Pod ℤ} {leaf : String} {P : List (Pod ℤ)}

lemma choice_uids_nodup (hb : Booked c m) (hP : Choice m (boundPods c) p leaf P) :
    (P.map Pod.uid).Nodup := by
  obtain ⟨l, hperm, hsub⟩ := hP.among
  have hall := hsub.trans (boundPods_sublist c)
  exact (hperm.map Pod.uid).nodup_iff.mp ((hall.map Pod.uid).nodup hb.distinct)

lemma choice_booked (hb : Booked c m) (hP : Choice m (boundPods c) p leaf P) :
    ∀ v ∈ P, BookedOn c.engine m v ∧ ∃ l, resolve m v.placementKey = .ok l := by
  intro v hv
  obtain ⟨l, hl⟩ := Option.ne_none_iff_exists'.mp (hP.donors v hv)
  exact ⟨hb.bound v (hP.among.subset hv), l, (donorLeaf_some hl).1⟩

lemma reclaim_choice {rt : Runtime ℤ} (hb : Booked c m) {S : List (Victim ℤ)}
    (h : reclaimOnce rt c = some (p, S)) :
    p ∈ pendingPods c ∧ ∃ leaf P, Starved m p leaf ∧ Choice m (boundPods c) p leaf P ∧
      S.Perm (P.map victimOf) := by
  obtain ⟨t, ht, hp, leaf, hserved⟩ := reclaimOnce_some h
  obtain rfl : t = m := Option.some.inj (ht.symm.trans hb.tree)
  obtain ⟨hs, P, hP, hperm⟩ := served_choice hserved
  exact ⟨hp, leaf, P, hs, hP, hperm⟩

lemma reclaim_effect {rt : Runtime ℤ} (hb : Booked c m) {S : List (Victim ℤ)}
    (h : reclaimOnce rt c = some (p, S)) :
    p ∈ pendingPods c ∧ ∃ leaf P m', Starved m p leaf ∧ Choice m (boundPods c) p leaf P ∧
      (release c.engine (S.map Victim.uid)).tree = some m' ∧ m'.index = m.index ∧
      ∀ n d, get (m'.used n) d = usedWithout m P n d := by
  obtain ⟨hp, leaf, P, hs, hP, hperm⟩ := reclaim_choice hb h
  obtain ⟨m', hm', hix, hused⟩ :=
    release_victims hb.tree (choice_uids_nodup hb hP) (choice_booked hb hP) hperm
  exact ⟨hp, leaf, P, m', hs, hP, hm', hix, hused⟩

lemma reprioritized_uids_nodup (hb : Booked c m) (hP : Choice m (boundPods c) p leaf P)
    (π : Pod ℤ → Option ℤ) : ((P.map (reprioritize π)).map Pod.uid).Nodup := by
  rw [List.map_map]
  exact choice_uids_nodup hb hP

lemma reprioritized_booked (hb : Booked c m) (hP : Choice m (boundPods c) p leaf P)
    (π : Pod ℤ → Option ℤ) : ∀ v ∈ P.map (reprioritize π),
      BookedOn c.engine m v ∧ ∃ l, resolve m v.placementKey = .ok l := by
  intro v hv
  obtain ⟨x, hx, rfl⟩ := List.mem_map.mp hv
  exact choice_booked hb hP x hx

lemma usedWithout_reprioritized (m : QueueManager ℤ) (π : Pod ℤ → Option ℤ) (P : List (Pod ℤ))
    (n d : String) : usedWithout m (P.map (reprioritize π)) n d = usedWithout m P n d := by
  rw [usedWithout, List.map_map]
  rfl

lemma choice_effect (rt : Runtime ℤ) (hb : Booked c m) (hnn : ∀ x ∈ c.pods, NonNegative x)
    (hp : p ∈ pendingPods c) (hs : Starved m p leaf) (hP : Choice m (boundPods c) p leaf P) :
    ∃ S m', reclaimOnce rt (reprioritized (preferring P p) c) =
        some (reprioritize (preferring P p) p, S) ∧
      (release c.engine (S.map Victim.uid)).tree = some m' ∧ m'.index = m.index ∧
      ∀ n d, get (m'.used n) d = usedWithout m P n d := by
  obtain ⟨S, hS, hperm⟩ := choice_realised rt hb.tree hb.distinct hnn hp hs hP
  obtain ⟨m', hm', hix, hused⟩ := release_victims hb.tree (reprioritized_uids_nodup hb hP _)
    (reprioritized_booked hb hP _) hperm
  exact ⟨S, m', hS, hm', hix, fun n d => (hused n d).trans (usedWithout_reprioritized m _ P n d)⟩

end Effect

section Room

/-- After the reclaim there is room for the pod it was for. -/
def LetsIn (rt : Runtime ℤ) (c : Coordinator ℤ) : Prop :=
  ∀ p S, reclaimOnce rt c = some (p, S) → ∃ m' leaf,
    (release c.engine (S.map Victim.uid)).tree = some m' ∧
      resolve m' p.placementKey = .ok leaf ∧ m'.canFit leaf (effectiveRequest p) = .ok true

/-- Whatever may be taken for a starved pod makes room at every queue on its way up. -/
def MakesRoom (c : Coordinator ℤ) (m : QueueManager ℤ) : Prop :=
  ∀ p ∈ pendingPods c, ∀ leaf, Starved m p leaf → ∀ P, Choice m (boundPods c) p leaf P →
    ∀ n ∈ pathUp m.index leaf, ∀ d ∈ (effectiveRequest p).keys, d ∈ n.max.keys →
      usedWithout m P n.path d + get (effectiveRequest p) d ≤ get n.max d

/-- The same bound pods are spared for `p` under the other priorities. -/
def SparesAlike (π : Pod ℤ → Option ℤ) (c : Coordinator ℤ) (p : Pod ℤ) : Prop :=
  ∀ v ∈ boundPods c, podPriority (reprioritize π p) < podPriority (reprioritize π v) ↔
    podPriority p < podPriority v

variable {c : Coordinator ℤ} {m : QueueManager ℤ}

lemma canFit_iff {leaf : String} (hleaf : m.isLeafPath leaf = true) (need : Resource ℤ) :
    m.canFit leaf need = .ok true ↔ ∀ n ∈ pathUp m.index leaf, ∀ d ∈ need.keys, d ∈ n.max.keys →
      get (m.used n.path) d + get need d ≤ get n.max d := by
  obtain ⟨q, hq, _⟩ := (isLeafPath_iff m leaf).mp hleaf
  simp only [QueueManager.canFit, hq, Except.ok.injEq, QueueManager.fits, List.all_eq_true,
    decide_eq_true_eq, not_lt, le_sub_iff_add_le, add_comm]

/-- The condition is enough for every cluster, and where no request is negative it leaves
out only clusters in which other priorities, sparing the same pods, make a reclaim miss. -/
theorem reclaim_makes_room (rt : Runtime ℤ) (hb : Booked c m) :
    (MakesRoom c m → LetsIn rt c) ∧
    ((∀ x ∈ c.pods, NonNegative x) → ¬ MakesRoom c m →
      ∃ p ∈ pendingPods c, ∃ π, SparesAlike π c p ∧ ¬ LetsIn rt (reprioritized π c)) := by
  constructor
  · intro hroom p S h
    obtain ⟨hp, leaf, P, m', hs, hP, hm', hix, hused⟩ := reclaim_effect hb h
    have hres : resolve m' p.placementKey = .ok leaf := by rw [resolve_congr hix, hs.resolves]
    refine ⟨m', leaf, hm', hres, (canFit_iff (resolve_isLeafPath hres) _).mpr ?_⟩
    intro n hn d hd hmax
    rw [hix] at hn
    rw [hused]
    exact hroom p hp leaf hs P hP n hn d hd hmax
  · intro hnn hno
    simp only [MakesRoom, not_forall, not_le] at hno
    obtain ⟨p, hp, leaf, hs, P, hP, n, hn, d, hd, hmax, hover⟩ := hno
    obtain ⟨S, m', hS, hm', hix, hused⟩ := choice_effect rt hb hnn hp hs hP
    refine ⟨p, hp, preferring P p, fun v => preferring_spares hb.distinct hp hP, fun hlets => ?_⟩
    obtain ⟨t, l, ht, hl, hfit⟩ := hlets _ S hS
    obtain rfl : t = m' := Option.some.inj (ht.symm.trans hm')
    have hres : resolve t p.placementKey = .ok leaf := by rw [resolve_congr hix, hs.resolves]
    obtain rfl : l = leaf := Except.ok.inj (hl.symm.trans hres)
    have hwithin := (canFit_iff (resolve_isLeafPath hres) _).mp hfit n (hix ▸ hn) d hd hmax
    rw [hused] at hwithin
    exact absurd hwithin (not_le.mpr hover)

lemma podShare_above_fence {leaf l d : String} {n : Queue ℤ} {v : Pod ℤ}
    (hv : donorLeaf m leaf v = some l) (hn : m.index.lookup n.path = some n)
    (habove : pathWithinSubtree ((fenceBoundary m leaf).getD "") n.path = true) :
    podShare m n.path d v = get (effectiveRequest v) d := by
  obtain ⟨hl, _, hin⟩ := donorLeaf_some hv
  have hleaf := resolve_isLeafPath hl
  have hseg := ((pathWithinSubtree_iff _ _).mp habove).trans ((pathWithinSubtree_iff _ _).mp hin)
  have hup := mem_pathUp_of_segments m.wf.toShape (mem_index_of_isLeafPath hleaf) hn hseg
  have hcharges : Charges m.index l n.path := ⟨hleaf, List.mem_map_of_mem hup⟩
  simp [podShare, hl, hcharges]

lemma sum_podShare_above_fence {leaf d : String} {n : Queue ℤ} {P : List (Pod ℤ)}
    (hP : ∀ v ∈ P, donorLeaf m leaf v ≠ none) (hn : m.index.lookup n.path = some n)
    (habove : pathWithinSubtree ((fenceBoundary m leaf).getD "") n.path = true) :
    (P.map (podShare m n.path d)).sum = demand P d := by
  refine congrArg List.sum (List.map_eq_map_iff.mpr fun v hv => ?_)
  obtain ⟨l, hl⟩ := Option.ne_none_iff_exists'.mp (hP v hv)
  exact podShare_above_fence hl hn habove

lemma makesRoom_of_bounds_above_fence
    (h : ∀ p ∈ pendingPods c, ∀ leaf, Starved m p leaf → ∀ n ∈ pathUp m.index leaf,
      ∀ d ∈ n.max.keys, pathWithinSubtree ((fenceBoundary m leaf).getD "") n.path = true ∧
        get (m.used n.path) d ≤ get n.max d) : MakesRoom c m := by
  intro p hp leaf hs P hP n hn d hd hmax
  obtain ⟨habove, hwithin⟩ := h p hp leaf hs n hn d hmax
  have hcover := hP.covers d hd
  rw [usedWithout, sum_podShare_above_fence hP.donors (lookup_of_mem_pathUp m.wf.toShape hn) habove]
  omega

def crowded : Coordinator ℤ :=
  populated (treeOf (bareSpec rootName ∅ [bareSpec "team" ∅
      [bareSpec "sub" (Finmap.singleton "cpu" 4)
        [guaranteedLeaf "a" "alice" 4, guaranteedLeaf "c" "carol" 4],
        guaranteedLeaf "b" "bob" 0]]) (by decide +kernel))
    [runningPod "c1" "team" "carol" 4, runningPod "b1" "team" "bob" 4,
      barePod "p" "team" "alice" 4]

/-- The pod of `b` is evicted for a pod of `a`, which then still does not fit. -/
theorem eviction_beside_full_queue :
    let m := crowded.engine.tree.get (by decide +kernel)
    Booked crowded m ∧
      ((reclaimOnce (sortedRuntime ℤ) crowded).map fun r => (r.1.uid, r.2.map Victim.uid)) =
        some ("p", ["b1"]) ∧
      ¬ LetsIn (sortedRuntime ℤ) crowded := by
  intro m
  have hb : Booked crowded m :=
    ⟨(Option.some_get _).symm, by decide +kernel, by decide +kernel⟩
  have hsome : (reclaimOnce (sortedRuntime ℤ) crowded).isSome = true := by decide +kernel
  have hfull : ((reclaimOnce (sortedRuntime ℤ) crowded).all fun r =>
      (release crowded.engine (r.2.map Victim.uid)).tree.all fun m' =>
        (resolve m' r.1.placementKey).toOption.all fun leaf =>
          !m'.fits leaf (effectiveRequest r.1)) = true := by decide +kernel
  refine ⟨hb, by decide +kernel, fun hlets => ?_⟩
  obtain ⟨⟨p, S⟩, h⟩ := Option.isSome_iff_exists.mp hsome
  obtain ⟨m', leaf, hm', hleaf, hfit⟩ := hlets p S h
  obtain ⟨q, hq, _⟩ := (isLeafPath_iff m' leaf).mp (resolve_isLeafPath hleaf)
  simp [h, hm', hleaf, Except.toOption] at hfull
  simp [QueueManager.canFit, hq, hfull] at hfit

lemma borrowing_booked : Booked borrowing borrowed :=
  ⟨(Option.some_get _).symm, by decide +kernel, by decide +kernel⟩

lemma borrowing_nonNegative : ∀ x ∈ borrowing.pods, NonNegative x := by decide +kernel

lemma borrowing_pending : ∀ x ∈ pendingPods borrowing,
    resolve borrowed x.placementKey = .ok "root.team.a" ∧
      (effectiveRequest x).keys = {"cpu"} ∧ get (effectiveRequest x) "cpu" = 4 := by
  decide +kernel

lemma borrowing_makesRoom : MakesRoom borrowing borrowed := by
  apply makesRoom_of_bounds_above_fence
  intro p hp leaf hs n hn d hd
  obtain rfl : leaf = "root.team.a" :=
    Except.ok.inj (hs.resolves.symm.trans (borrowing_pending p hp).1)
  have hbounds : ∀ n ∈ pathUp borrowed.index "root.team.a", ∀ d ∈ n.max.keys,
      pathWithinSubtree ((fenceBoundary borrowed "root.team.a").getD "") n.path = true ∧
        get (borrowed.used n.path) d ≤ get n.max d := by decide +kernel
  exact hbounds n hn d hd

theorem borrower_makes_room :
    MakesRoom borrowing borrowed ∧ (reclaimOnce (sortedRuntime ℤ) borrowing).isSome = true ∧
      LetsIn (sortedRuntime ℤ) borrowing :=
  ⟨borrowing_makesRoom, by decide +kernel,
    (reclaim_makes_room (sortedRuntime ℤ) borrowing_booked).1 borrowing_makesRoom⟩

end Room

section Inner

/-- No inner queue falls below its guarantee, or below what it had if that is less. -/
def KeepsInner (m m' : QueueManager ℤ) : Prop :=
  ∀ n q, m.index.lookup n = some q → q.isLeaf = false → ∀ d,
    min (get (m.used n) d) (get q.guaranteed d) ≤ get (m'.used n) d

/-- After the reclaim, and with its pod booked, the inner queues have their guarantees. -/
def ProtectsInner (rt : Runtime ℤ) (c : Coordinator ℤ) (m : QueueManager ℤ) : Prop :=
  ∀ p S, reclaimOnce rt c = some (p, S) → ∃ m' leaf,
    (release c.engine (S.map Victim.uid)).tree = some m' ∧
      resolve m' p.placementKey = .ok leaf ∧
      KeepsInner m (m'.reserve leaf (effectiveRequest p)).1

/-- Whatever may be taken for a starved pod leaves each inner queue, together with the pod if
it is below that queue, its guarantee. -/
def LeavesGuarantees (c : Coordinator ℤ) (m : QueueManager ℤ) : Prop :=
  ∀ p ∈ pendingPods c, ∀ leaf, Starved m p leaf → ∀ P, Choice m (boundPods c) p leaf P →
    ∀ n q, m.index.lookup n = some q → q.isLeaf = false → ∀ d,
      min (get (m.used n) d) (get q.guaranteed d) ≤
        usedWithout m P n d + if Charges m.index leaf n then get (effectiveRequest p) d else 0

variable {c : Coordinator ℤ} {m : QueueManager ℤ}

/-- The condition is enough for every cluster without negative requests, and it leaves out
only clusters in which other priorities, sparing the same pods, make a reclaim breach a
guarantee. -/
theorem reclaim_protects_inner (rt : Runtime ℤ) (hb : Booked c m)
    (hnn : ∀ x ∈ c.pods, NonNegative x) :
    (LeavesGuarantees c m → ProtectsInner rt c m) ∧
    (¬ LeavesGuarantees c m →
      ∃ p ∈ pendingPods c, ∃ π, SparesAlike π c p ∧ ¬ ProtectsInner rt (reprioritized π c) m) := by
  constructor
  · intro hleaves p S h
    obtain ⟨hp, leaf, P, m', hs, hP, hm', hix, hused⟩ := reclaim_effect hb h
    refine ⟨m', leaf, hm', by rw [resolve_congr hix, hs.resolves], fun n q hq hinner d => ?_⟩
    rw [reserve_used, hused, hix]
    exact hleaves p hp leaf hs P hP n q hq hinner d
  · intro hno
    simp only [LeavesGuarantees, not_forall, not_le] at hno
    obtain ⟨p, hp, leaf, hs, P, hP, n, q, hq, hinner, d, hbreach⟩ := hno
    obtain ⟨S, m', hS, hm', hix, hused⟩ := choice_effect rt hb hnn hp hs hP
    refine ⟨p, hp, preferring P p, fun v => preferring_spares hb.distinct hp hP, fun hkeeps => ?_⟩
    obtain ⟨t, l, ht, hl, hinnerKept⟩ := hkeeps _ S hS
    obtain rfl : t = m' := Option.some.inj (ht.symm.trans hm')
    have hres : resolve t p.placementKey = .ok leaf := by rw [resolve_congr hix, hs.resolves]
    obtain rfl : l = leaf := Except.ok.inj (hl.symm.trans hres)
    have hkept := hinnerKept n q hq hinner d
    rw [reserve_used, hused, hix] at hkept
    exact absurd hkept (not_le.mpr hbreach)

def exposed : Coordinator ℤ :=
  populated (treeOf (bareSpec rootName ∅ [bareSpec "team" (Finmap.singleton "cpu" 8)
      [{ bareSpec "x" ∅ [guaranteedLeaf "b" "bob" 0] with guaranteed := Finmap.singleton "cpu" 4 },
        guaranteedLeaf "a" "alice" 6]]) (by decide +kernel))
    [runningPod "b1" "team" "bob" 2, runningPod "b2" "team" "bob" 2, runningPod "b3" "team" "bob" 2,
      runningPod "b4" "team" "bob" 2, barePod "p" "team" "alice" 6]

/-- Three of the four pods of `b` are evicted, and the queue above is left with 2 of the 4
that it is guaranteed. -/
theorem eviction_breaches_inner_guarantee :
    let m := exposed.engine.tree.get (by decide +kernel)
    Booked exposed m ∧ (∀ x ∈ exposed.pods, NonNegative x) ∧
      ((reclaimOnce (sortedRuntime ℤ) exposed).map fun r => (r.1.uid, r.2.map Victim.uid)) =
        some ("p", ["b1", "b2", "b3"]) ∧
      ¬ ProtectsInner (sortedRuntime ℤ) exposed m := by
  intro m
  have hb : Booked exposed m :=
    ⟨(Option.some_get _).symm, by decide +kernel, by decide +kernel⟩
  have hsome : (reclaimOnce (sortedRuntime ℤ) exposed).isSome = true := by decide +kernel
  have hinner : (m.index.lookup "root.team.x").all fun q => !q.isLeaf &&
      decide (min (get (m.used "root.team.x") "cpu") (get q.guaranteed "cpu") = 4) := by
    decide +kernel
  have hleft : ((reclaimOnce (sortedRuntime ℤ) exposed).all
      fun r : Pod ℤ × List (Victim ℤ) =>
        (release exposed.engine (r.2.map Victim.uid)).tree.all fun m' : QueueManager ℤ =>
          (resolve m' r.1.placementKey).toOption.all fun leaf =>
            decide (get ((m'.reserve leaf (effectiveRequest r.1)).1.used "root.team.x") "cpu" =
              (2 : ℤ))) = true := by decide +kernel
  refine ⟨hb, by decide +kernel, by decide +kernel, fun hkeeps => ?_⟩
  obtain ⟨⟨p, S⟩, h⟩ := Option.isSome_iff_exists.mp hsome
  obtain ⟨m', leaf, hm', hleaf, hkept⟩ := hkeeps p S h
  have hmem : "root.team.x" ∈ m.index := by decide +kernel
  obtain ⟨q, hq⟩ := Finmap.mem_iff.mp hmem
  simp only [hq, Option.all_some, Bool.and_eq_true, Bool.not_eq_true', decide_eq_true_eq] at hinner
  simp only [h, Option.all_some, hm', hleaf, Except.toOption, decide_eq_true_eq] at hleft
  have hfour := hkept "root.team.x" q hq hinner.1 "cpu"
  rw [hinner.2, hleft] at hfour
  omega

lemma borrowing_taken {p : Pod ℤ} {P : List (Pod ℤ)} {n : String} {q : Queue ℤ}
    (hP : Choice borrowed (boundPods borrowing) p "root.team.a" P)
    (hq : borrowed.index.lookup n = some q) (hinner : q.isLeaf = false) :
    (P.map (podShare borrowed n "cpu")).sum ≤ 4 := by
  have hshares : ∀ n ∈ borrowed.index.keys, borrowed.isLeafPath n = false →
      ∀ v ∈ boundPods borrowing,
        podShare borrowed n "cpu" v = podShare borrowed "root.team.b" "cpu" v := by decide +kernel
  have hsame : P.map (podShare borrowed n "cpu") = P.map (podShare borrowed "root.team.b" "cpu") :=
    List.map_eq_map_iff.mpr fun v hv => hshares n
      (Finmap.mem_keys.mpr (Finmap.mem_of_lookup_eq_some hq))
      (by simp [QueueManager.isLeafPath, hq, hinner]) v (hP.among.subset hv)
  have hdonor : borrowed.isLeafPath "root.team.b" = true := by decide +kernel
  have hbudget : (borrowed.index.lookup "root.team.b").all fun q =>
      decide (get (borrowed.used "root.team.b") "cpu" - get q.guaranteed "cpu" = 4) := by
    decide +kernel
  obtain ⟨b, hb, hleaf⟩ := (isLeafPath_iff borrowed _).mp hdonor
  simp only [hb, Option.all_some, decide_eq_true_eq] at hbudget
  have hnn : ∀ v ∈ boundPods borrowing, NonNegative v := fun v hv =>
    borrowing_nonNegative v ((boundPods_sublist _).subset hv)
  have hfloor := hP.floors hnn _ b hb hleaf "cpu"
  rw [hsame]
  omega

lemma borrowing_leavesGuarantees : LeavesGuarantees borrowing borrowed := by
  intro p hp leaf hs P hP n q hq hinner d
  obtain ⟨hleaf, hkeys, hneed⟩ := borrowing_pending p hp
  obtain rfl : leaf = "root.team.a" := Except.ok.inj (hs.resolves.symm.trans hleaf)
  have hqueues : ∀ n ∈ borrowed.index.keys, (borrowed.index.lookup n).all fun q => q.isLeaf ||
      decide (Charges borrowed.index "root.team.a" n ∧ get (borrowed.used n) "cpu" = 6 ∧
        (borrowed.used n).keys = {"cpu"}) := by decide +kernel
  have hqueue := hqueues n (Finmap.mem_keys.mpr (Finmap.mem_of_lookup_eq_some hq))
  simp only [hq, Option.all_some, hinner, Bool.false_or, decide_eq_true_eq] at hqueue
  obtain ⟨hcharges, hused, hdims⟩ := hqueue
  rw [usedWithout, if_pos hcharges]
  by_cases hd : d = "cpu"
  · subst hd
    have htaken := borrowing_taken hP hq hinner
    rw [hused, hneed]
    omega
  · have hreq : ∀ v ∈ boundPods borrowing, (effectiveRequest v).keys = {"cpu"} := by
      decide +kernel
    have hzero : ∀ v ∈ P, podShare borrowed n d v = 0 := by
      intro v hv
      have hnone : get (effectiveRequest v) d = 0 :=
        get_of_notMem (by simp [hreq v (hP.among.subset hv), hd])
      unfold podShare
      split <;> simp [hnone]
    have husedd : get (borrowed.used n) d = 0 := get_of_notMem (by simp [hdims, hd])
    have hneedd : get (effectiveRequest p) d = 0 := get_of_notMem (by simp [hkeys, hd])
    rw [List.map_eq_map_iff.mpr hzero, husedd, hneedd]
    simp

theorem borrower_leaves_inner_guarantee :
    LeavesGuarantees borrowing borrowed ∧ (reclaimOnce (sortedRuntime ℤ) borrowing).isSome = true ∧
      ProtectsInner (sortedRuntime ℤ) borrowing borrowed :=
  ⟨borrowing_leavesGuarantees, by decide +kernel,
    (reclaim_protects_inner (sortedRuntime ℤ) borrowing_booked borrowing_nonNegative).1
      borrowing_leavesGuarantees⟩

end Inner

end AdScheduler.ReclaimOutcome
