import AdScheduler.CoordinatorCore
import AdScheduler.Fences
import AdScheduler.Preemption

/-! Reclaim of guaranteed capacity, after `pkg/framework/reclaim.go`, and the choice of
victims on one node, after `pkg/plugins/capacity/postfilter.go`. Both collect victims leaf
by leaf, each leaf only down to its guarantee. -/
namespace AdScheduler.Reclaim
open KeyedMap Resources QueueTree TreeShape Manager EngineCore Requests Placement CoordinatorCore
open Fences Preemption Greedy

/-- What the language leaves open: the order of an iteration over a map, and the order of
ties in an unstable sort. -/
structure Runtime (V : Type*) where
  visit : Map String (List (Pod V)) → List String
  visits : ∀ m, Visits (visit m) m
  sort : (Pod V → Pod V → Bool) → List (Pod V) → List (Pod V)
  sort_perm : ∀ less l, (sort less l).Perm l
  sort_sorted : ∀ less l, (∀ a b, less a b = true → less b a = false) →
    (∀ a b c, less b a = false → less c b = false → less c a = false) →
    (sort less l).Pairwise fun a b => less b a = false

/-- A runtime that visits keys in order and sorts stably. -/
def sortedRuntime (V : Type*) : Runtime V where
  visit := sortedKeys
  visits := sortedKeys_visits
  sort less l := l.insertionSort fun a b => less b a = false
  sort_perm less l := List.perm_insertionSort _ l
  sort_sorted less l hasymm htrans := by
    have htotal : Std.Total fun a b : Pod V => less b a = false := ⟨fun a b => by
      cases h : less b a with
      | false => exact .inl rfl
      | true => exact .inr (hasymm b a h)⟩
    have htr : IsTrans (Pod V) fun a b => less b a = false := ⟨fun a b c => htrans a b c⟩
    exact List.pairwise_insertionSort _ l

variable {V : Type*}

def podPriority (p : Pod V) : ℤ := p.priority.getD 0

def priorityOf (p : Pod V) : ℤ := p.priority.getD 0

def cheaper (a b : Pod V) : Bool := decide (podPriority a < podPriority b)

def moreDeserving (a b : Pod V) : Bool :=
  if podPriority a ≠ podPriority b then decide (podPriority b < podPriority a)
  else decide (a.creationTimestamp < b.creationTimestamp)

/-- The pods by the leaf that a routing gives them, in the order they come. -/
def groupByLeaf (route : Pod V → Option String) (pods : List (Pod V)) :
    Map String (List (Pod V)) :=
  pods.foldl (fun byLeaf p =>
    match route p with
    | none => byLeaf
    | some leaf => byLeaf.insert leaf ((byLeaf.lookup leaf).getD [] ++ [p])) ∅

variable [CommRing V] [LinearOrder V]

def queueUsedGuaranteed (m : QueueManager V) (path : String) : Option (Resource V × Resource V) :=
  (m.index.lookup path).map fun q => (m.used path, q.guaranteed)

/-- Placing the need keeps the leaf within its guarantee. -/
def entitledToReclaim (m : QueueManager V) (leaf : String) (need : Resource V) : Bool :=
  match queueUsedGuaranteed m leaf with
  | none => false
  | some (used, guar) =>
    !isEmpty guar && decide (∀ d ∈ need.keys, ¬ get guar d < get used d + get need d)

/-- What a donor can give back without breaching its guarantee. -/
def reclaimable (used guaranteed : Resource V) : Resource V :=
  tabulate (used.keys.filter fun d => 0 < get used d - get guaranteed d)
    fun d => get used d - get guaranteed d

/-- The pods that one donor gives up, within its budget. -/
def drainDonor (rt : Runtime V) (m : QueueManager V) (spare : Pod V → Bool)
    (entry : String × List (Pod V)) : List (Pod V) :=
  match queueUsedGuaranteed m entry.1 with
  | none => []
  | some (used, guar) =>
    if isEmpty (reclaimable used guar) then []
    else pack (fun evicted p => add evicted (effectiveRequest p)) spare
      (fun cand => fitIn cand (reclaimable used guar)) ∅ (rt.sort cheaper entry.2)

def drainDonors (rt : Runtime V) (m : QueueManager V) (spare : Pod V → Bool)
    (byLeaf : Map String (List (Pod V))) : List (Pod V) :=
  (entries (rt.visit byLeaf) byLeaf).flatMap (drainDonor rt m spare)

def victimOf (p : Pod V) : Victim V := ⟨p.uid, podPriority p, effectiveRequest p, true⟩

omit [CommRing V] [LinearOrder V] in
def byUID (pods : List (Pod V)) : Map String (Pod V) :=
  pods.foldl (fun m p => m.insert p.uid p) ∅

/-- Where a bound pod is looked for as a victim of a starved leaf. -/
def donorLeaf (m : QueueManager V) (starvedLeaf : String) (p : Pod V) : Option String :=
  match resolve m p.placementKey with
  | .error _ => none
  | .ok leaf =>
    if leaf = starvedLeaf then none
    else if pathWithinSubtree leaf ((fenceBoundary m starvedLeaf).getD "") then some leaf
    else none

/-- The bound pods that a starved leaf may take back, of no higher priority than its own. -/
def victimPods (rt : Runtime V) (m : QueueManager V) (bound : List (Pod V))
    (starvedLeaf : String) (starvedPrio : ℤ) : List (Pod V) :=
  drainDonors rt m (fun p => decide (starvedPrio < podPriority p))
    (groupByLeaf (donorLeaf m starvedLeaf) bound)

def buildVictims (rt : Runtime V) (m : QueueManager V) (bound : List (Pod V))
    (starvedLeaf : String) (starvedPrio : ℤ) : List (Victim V) × Map String (Pod V) :=
  let pods := victimPods rt m bound starvedLeaf starvedPrio
  (pods.map victimOf, byUID pods)

/-- Where a pod of a node is looked for as a victim of an incoming pod. -/
def nodeDonorLeaf (m : QueueManager V) (incomingPrio : ℤ) (schedName askerLeaf : String)
    (p : Pod V) : Option String :=
  if p.schedulerName ≠ schedName ∨ p.deletionTimestamp ≠ none then none
  else if p.gang then none
  else if incomingPrio ≤ priorityOf p then none
  else
    match resolve m p.placementKey with
    | .error _ => none
    | .ok leaf =>
      if pathWithinSubtree leaf ((fenceBoundary m askerLeaf).getD "") then some leaf else none

/-- The pods of one node that an incoming pod may evict, of lower priority than its own. -/
def nodeVictimPods (rt : Runtime V) (m : QueueManager V) (nodePods : List (Pod V))
    (incomingPrio : ℤ) (schedName askerLeaf : String) : List (Pod V) :=
  drainDonors rt m (fun _ => false)
    (groupByLeaf (nodeDonorLeaf m incomingPrio schedName askerLeaf) nodePods)

def eligibleVictims (rt : Runtime V) (m : QueueManager V) (nodePods : List (Pod V))
    (incomingPrio : ℤ) (schedName askerLeaf : String) : List (Victim V) × Map String (Pod V) :=
  let pods := nodeVictimPods rt m nodePods incomingPrio schedName askerLeaf
  (pods.map victimOf, byUID pods)

/-- The loop over the pending pods: the first that does not fit, is entitled and can be
served, with its victims. -/
def serve (rt : Runtime V) (m : QueueManager V) (bound : List (Pod V)) :
    List (Pod V) → Option (Pod V × List (Victim V))
  | [] => none
  | p :: rest =>
    match resolve m p.placementKey with
    | .error _ => serve rt m bound rest
    | .ok leaf =>
      let need := effectiveRequest p
      match m.canFit leaf need with
      | .ok true => serve rt m bound rest
      | _ =>
        if entitledToReclaim m leaf need = false then serve rt m bound rest
        else
          match selectVictims need (buildVictims rt m bound leaf (podPriority p)).1 with
          | [] => serve rt m bound rest
          | v :: vs => some (p, v :: vs)

/-- Our pods of the store that are not being deleted and not in a gang. -/
def storePods (c : Coordinator V) : List (Pod V) :=
  c.pods.filter fun p => decide (p.schedulerName = c.cache.schedulerName ∧
    p.deletionTimestamp = none) && !p.gang

def boundPods (c : Coordinator V) : List (Pod V) :=
  (storePods c).filter fun p => decide (p.nodeName ≠ "")

def pendingPods (c : Coordinator V) : List (Pod V) :=
  (storePods c).filter fun p => decide (p.nodeName = "")

/-- One pass of the reclaim: the pod it serves and the victims it evicts. -/
def reclaimOnce (rt : Runtime V) (c : Coordinator V) : Option (Pod V × List (Victim V)) :=
  match c.engine.tree with
  | none => none
  | some m => serve rt m (boundPods c) (rt.sort moreDeserving (pendingPods c))

lemma donorLeaf_some {m : QueueManager V} {starvedLeaf leaf : String} {p : Pod V}
    (h : donorLeaf m starvedLeaf p = some leaf) :
    resolve m p.placementKey = .ok leaf ∧ leaf ≠ starvedLeaf ∧
      pathWithinSubtree leaf ((fenceBoundary m starvedLeaf).getD "") = true := by
  unfold donorLeaf at h
  split at h
  · cases h
  · rename_i l hl
    split_ifs at h with hne hin
    cases h
    exact ⟨hl, hne, hin⟩

lemma nodeDonorLeaf_some {m : QueueManager V} {prio : ℤ} {schedName askerLeaf leaf : String}
    {p : Pod V} (h : nodeDonorLeaf m prio schedName askerLeaf p = some leaf) :
    p.schedulerName = schedName ∧ p.gang = false ∧ resolve m p.placementKey = .ok leaf ∧
      pathWithinSubtree leaf ((fenceBoundary m askerLeaf).getD "") = true := by
  unfold nodeDonorLeaf at h
  split_ifs at h with hours hgang hprio
  split at h
  · cases h
  · rename_i l hl
    split_ifs at h with hin
    cases h
    exact ⟨by simpa using (not_or.mp hours).1, by simpa using hgang, hl, hin⟩

structure Served (rt : Runtime V) (m : QueueManager V) (bound : List (Pod V)) (p : Pod V)
    (leaf : String) (S : List (Victim V)) : Prop where
  resolves : resolve m p.placementKey = .ok leaf
  full : m.canFit leaf (effectiveRequest p) ≠ .ok true
  entitled : entitledToReclaim m leaf (effectiveRequest p) = true
  chosen : selectVictims (effectiveRequest p)
    (buildVictims rt m bound leaf (podPriority p)).1 = S
  some : S ≠ []

lemma serve_some {rt : Runtime V} {m : QueueManager V} {bound pending : List (Pod V)} {p : Pod V}
    {S : List (Victim V)} (h : serve rt m bound pending = some (p, S)) :
    p ∈ pending ∧ ∃ leaf, Served rt m bound p leaf S := by
  induction pending with
  | nil => cases h
  | cons x rest ih =>
    have hskip : serve rt m bound rest = some (p, S) →
        p ∈ x :: rest ∧ ∃ leaf, Served rt m bound p leaf S := fun h =>
      ⟨List.mem_cons_of_mem x (ih h).1, (ih h).2⟩
    rw [serve] at h
    split at h
    · exact hskip h
    · rename_i leaf hleaf
      dsimp only at h
      split at h
      · exact hskip h
      · rename_i hfull
        split_ifs at h with hent
        · exact hskip h
        · split at h
          · exact hskip h
          · rename_i v vs hsel
            cases h
            exact ⟨List.mem_cons_self, leaf, hleaf, fun hfit => hfull hfit,
              by simpa using hent, hsel, List.cons_ne_nil v vs⟩

lemma reclaimOnce_some {rt : Runtime V} {c : Coordinator V} {p : Pod V} {S : List (Victim V)}
    (h : reclaimOnce rt c = some (p, S)) :
    ∃ m, c.engine.tree = some m ∧ p ∈ pendingPods c ∧
      ∃ leaf, Served rt m (boundPods c) p leaf S := by
  unfold reclaimOnce at h
  split at h
  · cases h
  · rename_i m hm
    obtain ⟨hp, hserved⟩ := serve_some h
    exact ⟨m, hm, (rt.sort_perm _ _).mem_iff.mp hp, hserved⟩

section Donors

omit [CommRing V] [LinearOrder V] in
lemma groupByLeaf_lookup (route : Pod V → Option String) (pods : List (Pod V)) (leaf : String) :
    ((groupByLeaf route pods).lookup leaf).getD [] =
      pods.filter fun p => decide (route p = some leaf) := by
  have hgroup : groupByLeaf route pods = collect route id pods ∅ := by
    unfold groupByLeaf collect
    congr
    funext byLeaf p
    cases route p <;> rfl
  rw [hgroup, lookup_collect]
  simp

omit [CommRing V] [LinearOrder V] in
lemma group_of_mem_entries {route : Pod V → Option String} {pods ps : List (Pod V)}
    {order : List String} {leaf : String}
    (h : (leaf, ps) ∈ entries order (groupByLeaf route pods)) :
    ps = pods.filter fun p => decide (route p = some leaf) := by
  have hlook := groupByLeaf_lookup route pods leaf
  rwa [lookup_of_mem_entries h, Option.getD_some] at hlook

lemma drainDonor_subperm (rt : Runtime V) (m : QueueManager V) (spare : Pod V → Bool)
    (leaf : String) (ps : List (Pod V)) : (drainDonor rt m spare (leaf, ps)).Subperm ps := by
  unfold drainDonor
  split
  · exact List.nil_subperm
  · split_ifs
    · exact List.nil_subperm
    · exact (pack_sublist _ _ _ _ _).subperm.trans (rt.sort_perm _ _).subperm

lemma filter_flatMap_pick {α β : Type*} {l : List (String × α)} (hl : (l.map Prod.fst).Nodup)
    {f : String × α → List β} {P : β → Bool} {k : String} {v : α} (hk : (k, v) ∈ l)
    (hin : ∀ p ∈ f (k, v), P p = true) (hout : ∀ e ∈ l, e.1 ≠ k → ∀ p ∈ f e, P p = false) :
    (l.flatMap f).filter P = f (k, v) := by
  induction l with
  | nil => simp at hk
  | cons e rest ih =>
    simp only [List.map_cons, List.nodup_cons] at hl
    rw [List.flatMap_cons, List.filter_append]
    rcases List.mem_cons.mp hk with rfl | hrest
    · have hothers : (rest.flatMap f).filter P = [] := by
        rw [List.filter_eq_nil_iff]
        intro p hp
        obtain ⟨x, hx, hpx⟩ := List.mem_flatMap.mp hp
        have hkey : x.1 ∈ rest.map Prod.fst := List.mem_map_of_mem hx
        have hne : x.1 ≠ k := fun he => hl.1 (by rwa [he] at hkey)
        simp [hout x (List.mem_cons_of_mem _ hx) hne p hpx]
      rw [hothers, List.append_nil, List.filter_eq_self]
      exact hin
    · have hne : e.1 ≠ k := fun he => hl.1 (he ▸ List.mem_map_of_mem hrest)
      have hhead : (f e).filter P = [] := by
        rw [List.filter_eq_nil_iff]
        intro p hp
        simp [hout e List.mem_cons_self hne p hp]
      rw [hhead, List.nil_append]
      exact ih hl.2 hrest fun x hx => hout x (List.mem_cons_of_mem _ hx)

variable (rt : Runtime V) (m : QueueManager V) (spare : Pod V → Bool)
  (route : Pod V → Option String) (pods : List (Pod V))

lemma mem_drainDonors {p : Pod V} (h : p ∈ drainDonors rt m spare (groupByLeaf route pods)) :
    p ∈ pods ∧ ∃ leaf, route p = some leaf := by
  obtain ⟨⟨leaf, ps⟩, he, hp⟩ := List.mem_flatMap.mp h
  have hps := (drainDonor_subperm rt m spare leaf ps).subset hp
  rw [group_of_mem_entries he, List.mem_filter, decide_eq_true_eq] at hps
  exact ⟨hps.1, leaf, hps.2⟩

lemma not_spared_of_mem {p : Pod V}
    (h : p ∈ drainDonors rt m spare (groupByLeaf route pods)) : spare p = false := by
  obtain ⟨⟨leaf, ps⟩, _, hp⟩ := List.mem_flatMap.mp h
  unfold drainDonor at hp
  split at hp
  · simp at hp
  · split_ifs at hp
    · simp at hp
    · exact skip_of_mem_pack hp

lemma filter_drainDonors (leaf : String) :
    ((drainDonors rt m spare (groupByLeaf route pods)).filter fun p =>
      decide (route p = some leaf)) =
      drainDonor rt m spare (leaf, pods.filter fun p => decide (route p = some leaf)) := by
  set byLeaf := groupByLeaf route pods
  have hroute : ∀ e ∈ entries (rt.visit byLeaf) byLeaf, ∀ p ∈ drainDonor rt m spare e,
      route p = some e.1 := by
    rintro ⟨k, ps⟩ he p hp
    have hps := (drainDonor_subperm rt m spare k ps).subset hp
    rw [group_of_mem_entries he, List.mem_filter, decide_eq_true_eq] at hps
    exact hps.2
  have hlook := groupByLeaf_lookup route pods leaf
  cases hl : byLeaf.lookup leaf with
  | some ps =>
    have he : (leaf, ps) ∈ entries (rt.visit byLeaf) byLeaf :=
      (mem_entries_iff (rt.visits byLeaf)).mpr hl
    rw [← group_of_mem_entries he]
    refine filter_flatMap_pick (entries_nodup (rt.visits byLeaf).1) he (fun p hp => ?_)
      fun e hmem hne p hp => ?_
    · simpa using hroute _ he p hp
    · simp [hroute e hmem p hp, hne]
  | none =>
    rw [hl, Option.getD_none] at hlook
    have hempty : drainDonor rt m spare (leaf, []) = [] :=
      List.subperm_nil.mp (drainDonor_subperm rt m spare leaf [])
    rw [← hlook, hempty, List.filter_eq_nil_iff]
    intro p hp hleaf
    have hmem := (mem_drainDonors rt m spare route pods hp).1
    have hin : p ∈ pods.filter fun p => decide (route p = some leaf) :=
      List.mem_filter.mpr ⟨hmem, hleaf⟩
    simp [← hlook] at hin

lemma drainDonors_subperm : (drainDonors rt m spare (groupByLeaf route pods)).Subperm pods := by
  classical
  rw [List.subperm_ext_iff]
  intro p hp
  obtain ⟨_, leaf, hleaf⟩ := mem_drainDonors rt m spare route pods hp
  have hsub := drainDonor_subperm rt m spare leaf (pods.filter fun p =>
    decide (route p = some leaf))
  rw [← filter_drainDonors] at hsub
  have hcount := hsub.count_le p
  rwa [List.count_filter (by simpa using hleaf), List.count_filter (by simpa using hleaf)] at hcount

end Donors

section Budgets

lemma get_reclaimable (used guaranteed : Resource V) (d : String) :
    get (reclaimable used guaranteed) d =
      if d ∈ used.keys ∧ 0 < get used d - get guaranteed d then get used d - get guaranteed d
      else 0 := by
  simp [reclaimable, get_tabulate]

lemma get_reclaimable_eq (m : QueueManager ℤ) {leaf : String} {q : Queue ℤ}
    (hq : m.index.lookup leaf = some q) (d : String) :
    get (reclaimable (m.used leaf) q.guaranteed) d =
      max 0 (get (m.used leaf) d - get q.guaranteed d) := by
  have hguar := m.wf.guaranteed_nonneg hq d
  rw [get_reclaimable]
  by_cases hd : d ∈ (m.used leaf).keys
  · simp only [hd, true_and]
    split_ifs <;> omega
  · have hzero := get_of_notMem hd
    simp only [hd, false_and, if_false, hzero]
    omega

lemma drainDonor_bound (rt : Runtime ℤ) {m : QueueManager ℤ} (spare : Pod ℤ → Bool)
    {leaf : String} {q : Queue ℤ} (hq : m.index.lookup leaf = some q) (ps : List (Pod ℤ))
    (d : String) :
    ((drainDonor rt m spare (leaf, ps)).map fun p => get (effectiveRequest p) d).sum ≤
      max 0 (get (m.used leaf) d - get q.guaranteed d) := by
  have hbudget := (get_reclaimable_eq m hq d).le
  have hfits : ∀ evicted : Resource ℤ,
      fitIn evicted (reclaimable (m.used leaf) q.guaranteed) = true →
      get evicted d ≤ max 0 (get (m.used leaf) d - get q.guaranteed d) := by
    intro evicted hfit
    by_cases hd : d ∈ evicted.keys
    · simp only [fitIn, decide_eq_true_eq, not_lt] at hfit
      exact (hfit d hd).trans hbudget
    · rw [get_of_notMem hd]
      exact le_max_left _ _
  simp only [drainDonor, queueUsedGuaranteed, hq, Option.map_some]
  split_ifs
  · simp
  · have hpack : get ∅ d + ((pack (fun evicted p => add evicted (effectiveRequest p)) spare
        (fun cand => fitIn cand (reclaimable (m.used leaf) q.guaranteed)) ∅
        (rt.sort cheaper ps)).map fun p => get (effectiveRequest p) d).sum ≤
          max 0 (get (m.used leaf) d - get q.guaranteed d) :=
      pack_bound (μ := fun r => get r d) (fun a p => get_add a (effectiveRequest p) d) hfits _
        (by simp)
    simpa using hpack

end Budgets

end AdScheduler.Reclaim
