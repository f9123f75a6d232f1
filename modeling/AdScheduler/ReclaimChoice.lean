import AdScheduler.DonorFloors

/-! What a reclaim can take: the sets of pods it may choose for a starved pod, said without
the loops that choose. Every reclaim takes such a set, and for each of them there are
priorities under which it is taken. -/
namespace AdScheduler.ReclaimChoice
open KeyedMap Resources QueueTree TreeShape Manager Conservation EngineCore Requests Placement
open CoordinatorCore Preemption Greedy Reclaim Eviction DonorFloors

/-- A pod with a right to reclaim: its leaf has no room for it, and stays within its
guarantee with it. -/
structure Starved (m : QueueManager ℤ) (p : Pod ℤ) (leaf : String) : Prop where
  resolves : resolve m p.placementKey = .ok leaf
  full : m.canFit leaf (effectiveRequest p) ≠ .ok true
  entitled : entitledToReclaim m leaf (effectiveRequest p) = true
  asks : isEmpty (effectiveRequest p) = false

/-- What some pods request together in one dimension. -/
def demand (P : List (Pod ℤ)) (d : String) : ℤ := (P.map fun v => get (effectiveRequest v) d).sum

/-- Pods that may be taken for `p`: on other leaves inside its fence, of no higher priority
and covering its request. Where no request is negative, they leave each leaf its guarantee
and none of them can be spared. -/
structure Choice (m : QueueManager ℤ) (bound : List (Pod ℤ)) (p : Pod ℤ) (leaf : String)
    (P : List (Pod ℤ)) : Prop where
  among : P.Subperm bound
  donors : ∀ v ∈ P, donorLeaf m leaf v ≠ none
  cheap : ∀ v ∈ P, podPriority v ≤ podPriority p
  covers : ∀ d ∈ (effectiveRequest p).keys, get (effectiveRequest p) d ≤ demand P d
  floors : (∀ v ∈ bound, NonNegative v) → ∀ l q, m.index.lookup l = some q → q.isLeaf = true →
    ∀ d, (P.map (podShare m l d)).sum ≤ max 0 (get (m.used l) d - get q.guaranteed d)
  needed : (∀ v ∈ bound, NonNegative v) → ∀ v ∈ P, ∃ d ∈ (effectiveRequest p).keys,
    demand P d - get (effectiveRequest v) d < get (effectiveRequest p) d

lemma freed_map_victimOf (P : List (Pod ℤ)) (d : String) :
    freed (P.map victimOf) d = demand P d := by
  simp only [freed, demand, List.map_map]
  rfl

/-- Every reclaim takes a choice for a starved pod. -/
theorem served_choice {rt : Runtime ℤ} {m : QueueManager ℤ} {bound : List (Pod ℤ)} {p : Pod ℤ}
    {leaf : String} {S : List (Victim ℤ)} (h : Served rt m bound p leaf S) :
    Starved m p leaf ∧ ∃ P, Choice m bound p leaf P ∧ S.Perm (P.map victimOf) := by
  have hasks : isEmpty (effectiveRequest p) = false := by
    by_contra hempty
    rw [Bool.not_eq_false] at hempty
    exact h.some (by simp [← h.chosen, selectVictims, hempty])
  refine ⟨⟨h.resolves, h.full, h.entitled, hasks⟩, ?_⟩
  have hsel := selectVictims_selected (h.chosen.trans_ne h.some)
  rw [h.chosen] at hsel
  obtain ⟨P, hP, hperm⟩ := exists_taken hsel.among
  refine ⟨P, ⟨hP.subperm.trans (drainDonors_subperm rt m _ _ bound), fun v hv => ?_,
    fun v hv => ?_, fun d hd => ?_, fun hnn l q hq hl d => ?_, fun hnn v hv => ?_⟩, hperm⟩
  · obtain ⟨_, l, hl⟩ := mem_drainDonors rt m _ _ bound (hP.subset hv)
    simp [hl]
  · have hspared := not_spared_of_mem rt m _ _ bound (hP.subset hv)
    simpa using hspared
  · rw [← freed_map_victimOf, ← freed_perm hperm]
    exact hsel.covers d hd
  · exact taken_within_budget rt _ (donorLeaf_routes m leaf) hP (fun x hx _ => hnn x hx) hq hl d
  · have hnonneg : ∀ x ∈ (buildVictims rt m bound leaf (podPriority p)).1, x.NonNegative := by
      intro x hx
      obtain ⟨y, hy, rfl⟩ := List.mem_map.mp hx
      exact (hnn y (mem_drainDonors rt m _ _ bound hy).1).get
    have htight := (hsel.tight hnonneg).perm hperm
    have hneeded := htight.needed (victimOf v) (List.mem_map_of_mem hv)
    simpa only [freed_map_victimOf, victimOf] using hneeded

section Priorities

def reprioritize (π : Pod ℤ → Option ℤ) (p : Pod ℤ) : Pod ℤ := { p with priority := π p }

def reprioritized (π : Pod ℤ → Option ℤ) (c : Coordinator ℤ) : Coordinator ℤ :=
  { c with pods := c.pods.map (reprioritize π) }

lemma boundPods_reprioritized (π : Pod ℤ → Option ℤ) (c : Coordinator ℤ) :
    boundPods (reprioritized π c) = (boundPods c).map (reprioritize π) := by
  simp only [boundPods, storePods, reprioritized, List.filter_map]
  rfl

lemma pendingPods_reprioritized (π : Pod ℤ → Option ℤ) (c : Coordinator ℤ) :
    pendingPods (reprioritized π c) = (pendingPods c).map (reprioritize π) := by
  simp only [pendingPods, storePods, reprioritized, List.filter_map]
  rfl

lemma moreDeserving_asymm {a b : Pod ℤ} (h : moreDeserving a b = true) :
    moreDeserving b a = false := by
  unfold moreDeserving at *
  grind

lemma moreDeserving_trans {a b c : Pod ℤ} (hab : moreDeserving b a = false)
    (hbc : moreDeserving c b = false) : moreDeserving c a = false := by
  unfold moreDeserving at *
  grind

lemma sort_head (rt : Runtime ℤ) {pending : List (Pod ℤ)} {p : Pod ℤ} (hp : p ∈ pending)
    (h : ∀ x ∈ pending, x ≠ p → moreDeserving p x = true) :
    ∃ rest, rt.sort moreDeserving pending = p :: rest := by
  have hsorted := rt.sort_sorted moreDeserving pending (fun _ _ => moreDeserving_asymm)
    fun _ _ _ => moreDeserving_trans
  have hperm := rt.sort_perm moreDeserving pending
  generalize rt.sort moreDeserving pending = l at hsorted hperm
  cases l with
  | nil => simp [← hperm.mem_iff] at hp
  | cons x rest =>
    by_cases hx : x = p
    · exact ⟨rest, by rw [hx]⟩
    · have hrest : p ∈ rest := by
        rcases List.mem_cons.mp (hperm.mem_iff.mpr hp) with rfl | hmem
        · exact absurd rfl hx
        · exact hmem
      have hbefore := (List.pairwise_cons.mp hsorted).1 p hrest
      have hfirst := h x (hperm.mem_iff.mp List.mem_cons_self) hx
      rw [hbefore] at hfirst
      cases hfirst

end Priorities

section Cheapest
variable {m : QueueManager ℤ} {k : ℤ}

def below (k : ℤ) (p : Pod ℤ) : Bool := decide (podPriority p < k)

lemma get_foldl_request (acc : Resource ℤ) (P : List (Pod ℤ)) (d : String) :
    get (P.foldl (fun evicted p => add evicted (effectiveRequest p)) acc) d =
      get acc d + demand P d :=
  get_foldl_add effectiveRequest acc P d

lemma sort_cheaper_split (rt : Runtime ℤ) (ps : List (Pod ℤ)) (k : ℤ) :
    ∃ low rest, rt.sort cheaper ps = low ++ rest ∧ low.Perm (ps.filter (below k)) := by
  have hsorted : (rt.sort cheaper ps).Pairwise fun a b => podPriority a ≤ podPriority b := by
    have h := rt.sort_sorted cheaper ps (by simp [cheaper]; omega) (by simp [cheaper]; omega)
    refine h.imp fun {a b} hab => ?_
    simpa [cheaper] using hab
  exact ⟨_, _, (filter_append_of_sorted hsorted k).symm, (rt.sort_perm cheaper ps).filter _⟩

lemma mem_drainDonor_of_cheap (rt : Runtime ℤ) {spare : Pod ℤ → Bool} {l : String} {q : Queue ℤ}
    (hq : m.index.lookup l = some q) {ps : List (Pod ℤ)}
    (hspare : ∀ x ∈ ps, below k x = true → spare x = false) (hnn : ∀ x ∈ ps, NonNegative x)
    (hbudget : ∀ d, demand (ps.filter (below k)) d ≤
      max 0 (get (m.used l) d - get q.guaranteed d))
    {x : Pod ℤ} (hx : x ∈ ps) (hlow : below k x = true)
    (hpos : ∃ d, 0 < get (effectiveRequest x) d) :
    x ∈ drainDonor rt m spare (l, ps) := by
  set budget := reclaimable (m.used l) q.guaranteed
  obtain ⟨low, rest, hsort, hperm⟩ := sort_cheaper_split rt ps k
  have hmem : ∀ v ∈ low, v ∈ ps ∧ below k v = true := fun v hv =>
    List.mem_filter.mp (hperm.mem_iff.mp hv)
  have hxlow : x ∈ low := hperm.mem_iff.mpr (List.mem_filter.mpr ⟨hx, hlow⟩)
  have hsum : ∀ t, t.Sublist low → ∀ d, demand t d ≤ get budget d := by
    intro t ht d
    have hpart : demand t d ≤ demand low d := by
      apply (ht.map _).sum_le_sum
      intro y hy
      obtain ⟨v, hv, rfl⟩ := List.mem_map.mp hy
      exact (hnn v (hmem v hv).1).get d
    have hall : demand low d = demand (ps.filter (below k)) d := (hperm.map _).sum_eq
    rw [get_reclaimable_eq m hq]
    exact hpart.trans (hall.trans_le (hbudget d))
  have hnonempty : isEmpty budget = false := by
    obtain ⟨d, hd⟩ := hpos
    have hone := hsum [x] (List.singleton_sublist.mpr hxlow) d
    rw [demand, List.map_singleton, List.sum_singleton] at hone
    exact isEmpty_eq_false (hd.trans_le hone).ne'
  have hpack : pack (fun evicted p => add evicted (effectiveRequest p)) spare
      (fun cand => fitIn cand budget) ∅ low = low := by
    apply pack_eq_self fun v hv => hspare v (hmem v hv).1 (hmem v hv).2
    intro t ht _
    rw [fitIn_iff]
    intro d _
    rw [get_foldl_request, get_empty, zero_add]
    exact hsum t ht.sublist d
  have hmore := pack_append (fun evicted p => add evicted (effectiveRequest p)) spare
    (fun cand => fitIn cand budget) ∅ low rest
  rw [hpack] at hmore
  simp only [drainDonor, queueUsedGuaranteed, hq, Option.map_some, hsort]
  rw [if_neg (by simp [budget, hnonempty])]
  exact hmore.subset hxlow

lemma filter_drainDonors_cheap (rt : Runtime ℤ) {spare : Pod ℤ → Bool}
    {route : Pod ℤ → Option String} (hroute : Routes m route) {pods P : List (Pod ℤ)}
    (hd : pods.Nodup) (hP : (pods.filter (below k)).Perm P)
    (hspare : ∀ x ∈ P, spare x = false) (hrouted : ∀ x ∈ P, route x ≠ none)
    (hnn : ∀ x ∈ pods, NonNegative x) (hpos : ∀ x ∈ P, ∃ d, 0 < get (effectiveRequest x) d)
    (hfloors : ∀ l q, m.index.lookup l = some q → q.isLeaf = true → ∀ d,
      (P.map (podShare m l d)).sum ≤ max 0 (get (m.used l) d - get q.guaranteed d)) :
    ((drainDonors rt m spare (groupByLeaf route pods)).filter (below k)).Perm P := by
  set D := drainDonors rt m spare (groupByLeaf route pods)
  have hDnodup : D.Nodup := by
    obtain ⟨l, hperm, hsub⟩ := drainDonors_subperm rt m spare route pods
    exact hperm.nodup_iff.mp (hsub.nodup hd)
  have hmemP : ∀ x, x ∈ P ↔ x ∈ pods ∧ below k x = true := fun x => by
    rw [← hP.mem_iff, List.mem_filter]
  refine ((List.perm_ext_iff_of_nodup (hDnodup.filter _) (hd.filter _)).mpr fun x => ?_).trans hP
  simp only [List.mem_filter]
  refine ⟨fun ⟨hx, hlow⟩ => ⟨(mem_drainDonors rt m spare route pods hx).1, hlow⟩,
    fun ⟨hx, hlow⟩ => ⟨?_, hlow⟩⟩
  have hxP := (hmemP x).mpr ⟨hx, hlow⟩
  obtain ⟨l, hl⟩ := Option.ne_none_iff_exists'.mp (hrouted x hxP)
  obtain ⟨q, hq, hleaf⟩ := (isLeafPath_iff m l).mp (resolve_isLeafPath (hroute x l hl))
  have hin : x ∈ drainDonor rt m spare (l, pods.filter fun p => decide (route p = some l)) := by
    refine mem_drainDonor_of_cheap rt hq (fun y hy hylow => ?_) (fun y hy => ?_) (fun d => ?_)
      (List.mem_filter.mpr ⟨hx, by simpa using hl⟩) hlow (hpos x hxP)
    · exact hspare y ((hmemP y).mpr ⟨(List.mem_filter.mp hy).1, hylow⟩)
    · exact hnn y (List.mem_filter.mp hy).1
    · have hsame : demand ((pods.filter fun p => decide (route p = some l)).filter (below k)) d =
          demand (P.filter fun p => decide (route p = some l)) d := by
        rw [List.filter_comm]
        exact ((hP.filter _).map _).sum_eq
      rw [hsame, demand, ← sum_podShare_leaf hroute (resolve_isLeafPath (hroute x l hl)) hrouted]
      exact hfloors l q hq hleaf d
  rw [← filter_drainDonors] at hin
  exact (List.mem_filter.mp hin).1

end Cheapest

/-- Priorities under which `P` is taken for `p`: `p` comes first, `P` is cheapest, and the
pods that were spared for `p` stay so. -/
def preferring (P : List (Pod ℤ)) (p x : Pod ℤ) : Option ℤ :=
  if x.nodeName = "" then if x.uid = p.uid then some 2 else some 1
  else if x.uid ∈ P.map Pod.uid then some 0
  else if podPriority p < podPriority x then some 3
  else some 2

section Realised
variable {c : Coordinator ℤ} {m : QueueManager ℤ} {p : Pod ℤ} {leaf : String} {P : List (Pod ℤ)}

lemma nodeName_of_mem_boundPods {v : Pod ℤ} (h : v ∈ boundPods c) : v.nodeName ≠ "" := by
  simpa using (List.mem_filter.mp h).2

lemma nodeName_of_mem_pendingPods {v : Pod ℤ} (h : v ∈ pendingPods c) : v.nodeName = "" := by
  simpa using (List.mem_filter.mp h).2

lemma boundPods_sublist (c : Coordinator ℤ) : (boundPods c).Sublist c.pods :=
  List.filter_sublist.trans List.filter_sublist

lemma pendingPods_sublist (c : Coordinator ℤ) : (pendingPods c).Sublist c.pods :=
  List.filter_sublist.trans List.filter_sublist

lemma podPriority_pending {x : Pod ℤ} (hx : x ∈ pendingPods c) :
    podPriority (reprioritize (preferring P p) x) = if x.uid = p.uid then 2 else 1 := by
  change (preferring P p x).getD 0 = _
  simp only [preferring, nodeName_of_mem_pendingPods hx, if_true]
  split_ifs <;> rfl

lemma podPriority_bound {x : Pod ℤ} (hx : x ∈ boundPods c) :
    podPriority (reprioritize (preferring P p) x) =
      if x.uid ∈ P.map Pod.uid then 0 else if podPriority p < podPriority x then 3 else 2 := by
  change (preferring P p x).getD 0 = _
  simp only [preferring, nodeName_of_mem_boundPods hx, if_false]
  split_ifs <;> rfl

lemma uid_mem_iff (hd : (c.pods.map Pod.uid).Nodup) (hP : P.Subperm (boundPods c)) {x : Pod ℤ}
    (hx : x ∈ boundPods c) : x.uid ∈ P.map Pod.uid ↔ x ∈ P := by
  refine ⟨fun h => ?_, List.mem_map_of_mem⟩
  obtain ⟨y, hy, heq⟩ := List.mem_map.mp h
  have hsub := (boundPods_sublist c).subset
  rwa [← List.inj_on_of_nodup_map hd (hsub (hP.subset hy)) (hsub hx) heq]

lemma below_one_iff (hd : (c.pods.map Pod.uid).Nodup) (hP : P.Subperm (boundPods c)) {x : Pod ℤ}
    (hx : x ∈ boundPods c) : below 1 (reprioritize (preferring P p) x) = true ↔ x ∈ P := by
  rw [← uid_mem_iff hd hP hx, below, podPriority_bound hx, decide_eq_true_eq]
  split_ifs with h <;> simp [h]

lemma preferring_spares (hd : (c.pods.map Pod.uid).Nodup) (hp : p ∈ pendingPods c)
    (hP : Choice m (boundPods c) p leaf P) {v : Pod ℤ} (hv : v ∈ boundPods c) :
    podPriority (reprioritize (preferring P p) p) < podPriority (reprioritize (preferring P p) v) ↔
      podPriority p < podPriority v := by
  have hcheap : v.uid ∈ P.map Pod.uid → podPriority v ≤ podPriority p := fun h =>
    hP.cheap v ((uid_mem_iff hd hP.among hv).mp h)
  rw [podPriority_pending hp, podPriority_bound hv, if_pos rfl]
  split_ifs with hmem hspared
  · simpa using hcheap hmem
  · simpa using hspared
  · simpa using hspared

lemma preferred_first (rt : Runtime ℤ) (hd : (c.pods.map Pod.uid).Nodup) (hp : p ∈ pendingPods c) :
    ∃ rest, rt.sort moreDeserving (pendingPods (reprioritized (preferring P p) c)) =
      reprioritize (preferring P p) p :: rest := by
  rw [pendingPods_reprioritized]
  refine sort_head rt (List.mem_map_of_mem hp) fun y hy hne => ?_
  obtain ⟨x, hx, rfl⟩ := List.mem_map.mp hy
  have hsub := (pendingPods_sublist c).subset
  have huid : x.uid ≠ p.uid := fun h =>
    hne (congrArg _ (List.inj_on_of_nodup_map hd (hsub hx) (hsub hp) h))
  simp [moreDeserving, podPriority_pending hx, podPriority_pending hp, huid]

lemma preferred_collected (rt : Runtime ℤ) (hd : (c.pods.map Pod.uid).Nodup)
    (hnn : ∀ x ∈ boundPods c, NonNegative x) (hP : Choice m (boundPods c) p leaf P) :
    ((victimPods rt m (boundPods (reprioritized (preferring P p) c)) leaf 2).filter (below 1)).Perm
      (P.map (reprioritize (preferring P p))) := by
  rw [boundPods_reprioritized]
  have hsub := (boundPods_sublist c).subset
  have hnodup : (boundPods c).Nodup := (boundPods_sublist c).nodup hd.of_map
  have hPnodup : P.Nodup := by
    obtain ⟨l, hperm, hl⟩ := hP.among
    exact hperm.nodup_iff.mp (hl.nodup hnodup)
  have hbelow : ∀ v ∈ P, below 1 (reprioritize (preferring P p) v) = true := fun v hv =>
    (below_one_iff hd hP.among (hP.among.subset hv)).mpr hv
  have hpods : ((boundPods c).map (reprioritize (preferring P p))).Nodup :=
    hnodup.map_on fun x hx y hy h => by
      have huid := congrArg Pod.uid h
      exact List.inj_on_of_nodup_map hd (hsub hx) (hsub hy) huid
  have hlow : (((boundPods c).map (reprioritize (preferring P p))).filter (below 1)).Perm
      (P.map (reprioritize (preferring P p))) := by
    rw [List.filter_map]
    refine ((List.perm_ext_iff_of_nodup (hnodup.filter _) hPnodup).mpr fun x => ?_).map _
    rw [List.mem_filter]
    refine ⟨fun ⟨hx, hlow⟩ => (below_one_iff hd hP.among hx).mp hlow, fun hx => ?_⟩
    exact ⟨hP.among.subset hx, hbelow x hx⟩
  refine filter_drainDonors_cheap rt (donorLeaf_routes m leaf) hpods hlow ?_ ?_ ?_ ?_ ?_
  · intro x hx
    obtain ⟨v, hv, rfl⟩ := List.mem_map.mp hx
    have hcheap := hbelow v hv
    simp only [below, decide_eq_true_eq] at hcheap
    simp only [decide_eq_false_iff_not]
    omega
  · intro x hx
    obtain ⟨v, hv, rfl⟩ := List.mem_map.mp hx
    exact hP.donors v hv
  · intro x hx
    obtain ⟨v, hv, rfl⟩ := List.mem_map.mp hx
    exact hnn v hv
  · intro x hx
    obtain ⟨v, hv, rfl⟩ := List.mem_map.mp hx
    obtain ⟨d, hkey, hlt⟩ := hP.needed hnn v hv
    have hcover := hP.covers d hkey
    refine ⟨d, ?_⟩
    change 0 < get (effectiveRequest v) d
    omega
  · intro l q hq hl d
    rw [List.map_map]
    exact hP.floors hnn l q hq hl d

lemma preferred_victims (rt : Runtime ℤ) (hd : (c.pods.map Pod.uid).Nodup)
    (hnn : ∀ x ∈ boundPods c, NonNegative x) (hasks : isEmpty (effectiveRequest p) = false)
    (hP : Choice m (boundPods c) p leaf P) :
    (selectVictims (effectiveRequest p) (buildVictims rt m
      (boundPods (reprioritized (preferring P p) c)) leaf 2).1).Perm
      ((P.map (reprioritize (preferring P p))).map victimOf) := by
  set W := (buildVictims rt m (boundPods (reprioritized (preferring P p) c)) leaf 2).1 with hW
  have hcheap : (W.filter fun v => decide (v.priority < 1)).Perm
      ((P.map (reprioritize (preferring P p))).map victimOf) := by
    rw [hW, buildVictims, List.filter_map]
    exact (preferred_collected rt hd hnn hP).map victimOf
  have hdemand : ∀ d, freed ((P.map (reprioritize (preferring P p))).map victimOf) d =
      demand P d := by
    intro d
    rw [freed_map_victimOf, demand, List.map_map]
    rfl
  have htight : Tight (effectiveRequest p)
      ((P.map (reprioritize (preferring P p))).map victimOf) := by
    refine ⟨fun d hkey => ?_, fun v hv => ?_⟩
    · rw [hdemand]
      exact hP.covers d hkey
    · simp only [List.map_map, List.mem_map] at hv
      obtain ⟨x, hx, rfl⟩ := hv
      simp only [hdemand]
      exact hP.needed hnn x hx
  refine (selectVictims_cheapest hasks (fun v hv => ?_) (fun v hv => ?_)
    (htight.perm hcheap.symm)).trans hcheap
  · obtain ⟨x, _, rfl⟩ := List.mem_map.mp hv
    rfl
  · obtain ⟨x, hx, rfl⟩ := List.mem_map.mp hv
    have hmem := (mem_drainDonors rt m _ _ _ hx).1
    rw [boundPods_reprioritized] at hmem
    obtain ⟨y, hy, rfl⟩ := List.mem_map.mp hmem
    exact (hnn y hy).get

/-- For every choice there are priorities under which it is what the reclaim takes. -/
theorem choice_realised (rt : Runtime ℤ) (hm : c.engine.tree = some m)
    (hd : (c.pods.map Pod.uid).Nodup) (hnn : ∀ x ∈ c.pods, NonNegative x)
    (hp : p ∈ pendingPods c) (hs : Starved m p leaf) (hP : Choice m (boundPods c) p leaf P) :
    ∃ S, reclaimOnce rt (reprioritized (preferring P p) c) =
        some (reprioritize (preferring P p) p, S) ∧
      S.Perm ((P.map (reprioritize (preferring P p))).map victimOf) := by
  obtain ⟨rest, hrest⟩ := preferred_first (P := P) rt hd hp
  have hbound : ∀ x ∈ boundPods c, NonNegative x := fun x hx =>
    hnn x ((boundPods_sublist c).subset hx)
  have hsel := preferred_victims rt hd hbound hs.asks hP
  have hne : P ≠ [] := by
    rintro rfl
    have hzero : isEmpty (effectiveRequest p) = true := by
      rw [Resources.isEmpty_iff]
      intro d
      have hpos := (hnn p ((pendingPods_sublist c).subset hp)).get d
      by_cases hd : d ∈ (effectiveRequest p).keys
      · have hcover := hP.covers d hd
        simp only [demand, List.map_nil, List.sum_nil] at hcover
        omega
      · exact get_of_notMem hd
    rw [hs.asks] at hzero
    cases hzero
  have htwo : podPriority (reprioritize (preferring P p) p) = 2 := by
    simp [podPriority_pending hp]
  generalize hS : selectVictims (effectiveRequest p) (buildVictims rt m
    (boundPods (reprioritized (preferring P p) c)) leaf 2).1 = S at hsel
  refine ⟨S, ?_, hsel⟩
  cases S with
  | nil =>
    have hnil := hsel.symm.eq_nil
    simp only [List.map_eq_nil_iff] at hnil
    exact absurd hnil hne
  | cons v vs =>
    have htree : (reprioritized (preferring P p) c).engine.tree = some m := hm
    simp only [reclaimOnce, htree, hrest]
    have hresolve : resolve m (reprioritize (preferring P p) p).placementKey = .ok leaf :=
      hs.resolves
    have hreq : effectiveRequest (reprioritize (preferring P p) p) = effectiveRequest p := rfl
    rw [serve, hresolve]
    dsimp only
    rw [hreq, htwo, hS]
    split
    · rename_i hfit
      exact absurd hfit hs.full
    · simp [hs.entitled]

end Realised

end AdScheduler.ReclaimChoice
