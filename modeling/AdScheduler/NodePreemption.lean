import AdScheduler.Eviction
import AdScheduler.Headroom
import AdScheduler.PermitBarrier
import AdScheduler.VictimChoice

/-! Preemption on one node, after `PostFilter` of `pkg/plugins/capacity/postfilter.go`. -/
namespace AdScheduler.NodePreemption
open KeyedMap Resources QueueTree TreeShape Manager EngineCore Requests Placement CoordinatorCore
open Plugins PermitBarrier Preemption Reclaim Eviction VictimChoice Conservation Headroom NodeCache
open Fences

/-- A resource vector of the scheduling framework. -/
structure FwkResource (V : Type*) where
  milliCPU : V
  memory : V
  ephemeralStorage : V
  scalarResources : Map String V

structure NodeMeta where
  name : String
  labels : Map String String

structure NodeInfo (V : Type*) where
  node : Option NodeMeta
  allocatable : FwkResource V
  requested : FwkResource V
  pods : List (Pod V)

/-- A budget with its selector as a test on labels, if it has one and that converts. -/
structure PodDisruptionBudget where
  ns : String
  name : String
  selector : Option (Map String String → Bool)
  disruptionsAllowed : ℤ

inductive ConditionType
  | podScheduled
  | other

inductive ConditionStatus
  | isTrue
  | isFalse
  | isUnknown

structure PodCondition where
  type : ConditionType
  status : ConditionStatus
  lastTransitionTime : ℤ

/-- How long the pod has been unschedulable; zero if it is not marked yet. -/
def unschedulableFor (now : ℤ) : List PodCondition → ℤ
  | [] => 0
  | ⟨.podScheduled, .isFalse, since⟩ :: _ => now - since
  | _ :: rest => unschedulableFor now rest

/-- What PostFilter reads of the plugin and of the engine's settings. -/
structure Preemptor where
  poolSelector : Map String String → Bool
  pdbLister : Option (List PodDisruptionBudget)
  reservationDelay : ℤ
  schedulerName : String

section Budgets
variable {V : Type*}

def matchingPDBs (all : List PodDisruptionBudget) (pod : Pod V) : List PodDisruptionBudget :=
  all.filter fun pdb => decide (pdb.ns = pod.ns) && pdb.selector.any fun sel => sel pod.labels

def PodDisruptionBudget.key (pdb : PodDisruptionBudget) : String := pdb.ns ++ "/" ++ pdb.name

/-- The loop over the budgets that cover a pod: it stops at one that is spent. -/
def probe : List PodDisruptionBudget → Map String ℤ → Map String ℤ × Bool
  | [], remaining => (remaining, false)
  | pdb :: rest, remaining =>
    let remaining' := if pdb.key ∈ remaining then remaining
      else remaining.insert pdb.key pdb.disruptionsAllowed
    if (remaining'.lookup pdb.key).getD 0 ≤ 0 then (remaining', true) else probe rest remaining'

def spend (pdbs : List PodDisruptionBudget) (remaining : Map String ℤ) : Map String ℤ :=
  pdbs.foldl (fun m pdb => m.insert pdb.key ((m.lookup pdb.key).getD 0 - 1)) remaining

def keepAllowed (all : List PodDisruptionBudget) (byUID : Map String (Pod V)) :
    List (Victim V) → Map String ℤ → List (Victim V)
  | [], _ => []
  | v :: rest, remaining =>
    match byUID.lookup v.uid with
    | none => keepAllowed all byUID rest remaining
    | some p =>
      let pdbs := matchingPDBs all p
      let probed := probe pdbs remaining
      if probed.2 then keepAllowed all byUID rest probed.1
      else v :: keepAllowed all byUID rest (spend pdbs probed.1)

/-- The victims whose budgets allow their eviction, cheapest first. -/
def filterPDBProtected (pdbLister : Option (List PodDisruptionBudget)) (victims : List (Victim V))
    (byUID : Map String (Pod V)) : List (Victim V) :=
  match pdbLister with
  | none => victims
  | some all =>
    if victims = [] then victims
    else keepAllowed all byUID (victims.insertionSort fun a b => a.priority ≤ b.priority) ∅

lemma keepAllowed_sublist (all : List PodDisruptionBudget) (byUID : Map String (Pod V))
    (victims : List (Victim V)) (remaining : Map String ℤ) :
    (keepAllowed all byUID victims remaining).Sublist victims := by
  induction victims generalizing remaining with
  | nil => exact .slnil
  | cons v rest ih =>
    rw [keepAllowed]
    split
    · exact (ih _).cons v
    · dsimp only
      split_ifs
      · exact (ih _).cons v
      · exact (ih _).cons_cons v

lemma mem_of_filterPDBProtected {pdbLister : Option (List PodDisruptionBudget)}
    {victims : List (Victim V)} {byUID : Map String (Pod V)} {v : Victim V}
    (h : v ∈ filterPDBProtected pdbLister victims byUID) : v ∈ victims := by
  unfold filterPDBProtected at h
  split at h
  · exact h
  · split_ifs at h
    · exact h
    · exact (List.mem_insertionSort _).mp ((keepAllowed_sublist _ _ _ _).subset h)

end Budgets

section PostFilter
variable {V : Type*} [CommRing V] [LinearOrder V]

/-- The framework's vector as one of the engine's; entries of zero are left out. -/
def fwkResource (r : FwkResource V) : Resource V :=
  (sortedKeys r.scalarResources).foldl (fun out name => put name (get r.scalarResources name) out)
    (put "ephemeral-storage" r.ephemeralStorage (put "memory" r.memory (put "cpu" r.milliCPU ∅)))
where
  put (name : String) (v : V) (out : Resource V) : Resource V :=
    if v ≠ 0 then out.insert name v else out

def clampNonNeg (r : Resource V) : Resource V := clampNonNegative r

/-- What is allocatable and not requested; an over-subscribed dimension counts as full. -/
def nodeAvailable (ni : NodeInfo V) : Resource V :=
  clampNonNeg (sub (fwkResource ni.allocatable) (fwkResource ni.requested))

def deficitOn (req : Resource V) (ni : NodeInfo V) : Resource V :=
  clampNonNeg (sub req (nodeAvailable ni))

/-- The best node so far; the empty name stands for none. -/
structure Best (V : Type*) where
  node : String
  victims : List (Victim V)
  byUID : Map String (Pod V)

def victimsOn (rt : Runtime V) (pr : Preemptor) (m : QueueManager V) (st : PreFilterState V)
    (incomingPrio : ℤ) (ni : NodeInfo V) : List (Victim V) :=
  let eligible := eligibleVictims rt m ni.pods incomingPrio pr.schedulerName st.leaf
  selectVictims (deficitOn st.req ni) (filterPDBProtected pr.pdbLister eligible.1 eligible.2)

/-- One candidate: a pool node that lacks room is taken where fewer victims are enough. -/
def consider (rt : Runtime V) (pr : Preemptor) (m : QueueManager V) (st : PreFilterState V)
    (incomingPrio : ℤ) (best : Best V) (ni : NodeInfo V) : Best V :=
  match ni.node with
  | none => best
  | some node =>
    if pr.poolSelector node.labels = false then best
    else if isEmpty (deficitOn st.req ni) then best
    else
      let selected := victimsOn rt pr m st incomingPrio ni
      if selected = [] then best
      else if best.node = "" ∨ selected.length < best.victims.length then
        ⟨node.name, selected,
          (eligibleVictims rt m ni.pods incomingPrio pr.schedulerName st.leaf).2⟩
      else best

inductive PostFilterStatus
  | notAdmissible
  | gangNotAtLastMember
  | delayed
  | treeNotBuilt
  | listing
  | noCandidate
  deriving DecidableEq

/-- The nominated node, the victims selected on it and the pods that are deleted. -/
structure Nomination (V : Type*) where
  nodeName : String
  victims : List (Victim V)
  evicted : List (Pod V)

/-- `candidates` is what the framework lists for the nodes that lack a resource. -/
def postFilter (rt : Runtime V) (pr : Preemptor) (c : Coordinator V)
    (state : Option (PreFilterState V)) (pod : Pod V) (conditions : List PodCondition) (now : ℤ)
    (candidates : Option (List (NodeInfo V))) : Except PostFilterStatus (Nomination V) :=
  match state with
  | none => .error .notAdmissible
  | some st =>
    if gangGuard c st pod = false then .error .gangNotAtLastMember
    else if 0 < pr.reservationDelay ∧ unschedulableFor now conditions < pr.reservationDelay then
      .error .delayed
    else
      match c.engine.tree with
      | none => .error .treeNotBuilt
      | some m =>
        match candidates with
        | none => .error .listing
        | some nodes =>
          let best := nodes.foldl (consider rt pr m st (priorityOf pod)) ⟨"", [], ∅⟩
          if best.node = "" then .error .noCandidate
          else .ok ⟨best.node, best.victims,
            best.victims.filterMap fun v => best.byUID.lookup v.uid⟩

structure Chosen (rt : Runtime V) (pr : Preemptor) (m : QueueManager V) (st : PreFilterState V)
    (incomingPrio : ℤ) (name : String) (S : List (Victim V)) (ni : NodeInfo V) : Prop where
  named : ni.node.map NodeMeta.name = some name
  selected : victimsOn rt pr m st incomingPrio ni = S
  some : S ≠ []

variable (rt : Runtime V) (pr : Preemptor) (m : QueueManager V) (st : PreFilterState V) (prio : ℤ)

lemma consider_cases (best : Best V) (ni : NodeInfo V) :
    consider rt pr m st prio best ni = best ∨
      Chosen rt pr m st prio (consider rt pr m st prio best ni).node
        (consider rt pr m st prio best ni).victims ni := by
  unfold consider
  split
  · exact .inl rfl
  rename_i node hnode
  dsimp only
  split_ifs with _ _ hnone
  · exact .inl rfl
  · exact .inl rfl
  · exact .inl rfl
  · exact .inr ⟨by rw [hnode, Option.map_some], rfl, hnone⟩
  · exact .inl rfl

lemma foldl_consider (nodes : List (NodeInfo V)) (best : Best V) :
    nodes.foldl (consider rt pr m st prio) best = best ∨
      ∃ ni ∈ nodes, Chosen rt pr m st prio (nodes.foldl (consider rt pr m st prio) best).node
        (nodes.foldl (consider rt pr m st prio) best).victims ni := by
  induction nodes generalizing best with
  | nil => exact .inl rfl
  | cons ni rest ih =>
    rw [List.foldl_cons]
    rcases ih (consider rt pr m st prio best ni) with hsame | ⟨ni', hmem, hchosen⟩
    · rw [hsame]
      rcases consider_cases rt pr m st prio best ni with hbest | hchosen
      · exact .inl hbest
      · exact .inr ⟨ni, List.mem_cons_self, hchosen⟩
    · exact .inr ⟨ni', List.mem_cons_of_mem _ hmem, hchosen⟩

lemma postFilter_ok {rt : Runtime V} {pr : Preemptor} {st : PreFilterState V} {c : Coordinator V}
    {pod : Pod V} {conditions : List PodCondition} {now : ℤ} {nodes : List (NodeInfo V)}
    {nom : Nomination V}
    (h : postFilter rt pr c (some st) pod conditions now (some nodes) = .ok nom) :
    ∃ m, c.engine.tree = some m ∧ ∃ ni ∈ nodes,
      Chosen rt pr m st (priorityOf pod) nom.nodeName nom.victims ni := by
  unfold postFilter at h
  dsimp only at h
  split_ifs at h
  split at h
  · cases h
  rename_i m hm
  split_ifs at h with hnone
  cases h
  refine ⟨m, hm, ?_⟩
  rcases foldl_consider rt pr m st (priorityOf pod) nodes ⟨"", [], ∅⟩ with hsame | hchosen
  · exact absurd (congrArg Best.node hsame) hnone
  · exact hchosen

end PostFilter

section Room

lemma get_clampNonNeg (r : Resource ℤ) (d : String) : get (clampNonNeg r) d = max (get r d) 0 := by
  rw [clampNonNeg, clampNonNegative, get_tabulate]
  by_cases hd : d ∈ r.keys
  · simp only [hd, Finset.mem_filter, true_and]
    split_ifs <;> omega
  · simp [hd, get_of_notMem hd]

lemma mem_clampNonNeg {r : Resource ℤ} {d : String} : d ∈ (clampNonNeg r).keys ↔ 0 < get r d := by
  rw [clampNonNeg, clampNonNegative, Finmap.mem_keys, mem_tabulate, Finset.mem_filter]
  exact ⟨fun h => h.2, fun h => ⟨mem_keys_of_get_ne_zero h.ne', h⟩⟩

/-- What is not requested of a node, below zero where it is over-subscribed. -/
def freeOn (allocatable requested : FwkResource ℤ) (d : String) : ℤ :=
  get (fwkResource allocatable) d - get (fwkResource requested) d

lemma get_deficitOn (req : Resource ℤ) (ni : NodeInfo ℤ) (d : String) :
    get (deficitOn req ni) d =
      max (get req d - max (freeOn ni.allocatable ni.requested d) 0) 0 := by
  rw [deficitOn, get_clampNonNeg, get_sub, nodeAvailable, get_clampNonNeg, get_sub, freeOn]

lemma mem_deficitOn {req : Resource ℤ} {ni : NodeInfo ℤ} {d : String} :
    d ∈ (deficitOn req ni).keys ↔ 0 < get req d - max (freeOn ni.allocatable ni.requested d) 0 := by
  rw [deficitOn, mem_clampNonNeg, get_sub, nodeAvailable, get_clampNonNeg, get_sub, freeOn]

lemma deficitOn_pos {req : Resource ℤ} {ni : NodeInfo ℤ} {d : String}
    (h : d ∈ (deficitOn req ni).keys) : 0 < get (deficitOn req ni) d := by
  rw [mem_deficitOn] at h
  rw [get_deficitOn]
  exact lt_max_of_lt_left h

variable {rt : Runtime ℤ} {pr : Preemptor} {m : QueueManager ℤ} {st : PreFilterState ℤ} {prio : ℤ}
  {name : String} {S : List (Victim ℤ)} {ni : NodeInfo ℤ}

lemma Chosen.isSelected (h : Chosen rt pr m st prio name S ni) :
    Selected (deficitOn st.req ni) (filterPDBProtected pr.pdbLister
      (eligibleVictims rt m ni.pods prio pr.schedulerName st.leaf).1
      (eligibleVictims rt m ni.pods prio pr.schedulerName st.leaf).2) S := by
  obtain ⟨-, rfl, hsome⟩ := h
  exact selectVictims_selected hsome

lemma Chosen.freed_nonneg (h : Chosen rt pr m st prio name S ni)
    (hnn : ∀ p ∈ ni.pods, NonNegative p) (d : String) : 0 ≤ freed S d := by
  refine List.sum_nonneg fun x hx => ?_
  obtain ⟨v, hv, rfl⟩ := List.mem_map.mp hx
  have hmem := mem_of_filterPDBProtected (h.isSelected.among.subset hv)
  obtain ⟨p, hp, rfl⟩ := List.mem_map.mp hmem
  exact (hnn p (mem_drainDonors _ _ _ _ _ hp).1).get d

lemma Chosen.frees (h : Chosen rt pr m st prio name S ni) (hnn : ∀ p ∈ ni.pods, NonNegative p)
    {d : String} (hfree : 0 ≤ freeOn ni.allocatable ni.requested d) :
    get st.req d ≤ freeOn ni.allocatable ni.requested d + freed S d := by
  have hpos := h.freed_nonneg hnn d
  by_cases hd : d ∈ (deficitOn st.req ni).keys
  · have hcovers := h.isSelected.covers d hd
    rw [get_deficitOn] at hcovers
    omega
  · rw [mem_deficitOn] at hd
    omega

def UniquelyNamed (nodes : List (NodeInfo ℤ)) : Prop :=
  ∀ a ∈ nodes, ∀ b ∈ nodes, ∀ name, a.node.map NodeMeta.name = some name →
    b.node.map NodeMeta.name = some name → a = b

/-- Wherever a pod that passed PreFilter with this request gets a node with these vectors
nominated, the victims selected there make room for the request. -/
def FreesNode (allocatable requested : FwkResource ℤ) (req : Resource ℤ) : Prop :=
  ∀ (rt : Runtime ℤ) (pr : Preemptor) (cap : Capacity ℤ) (c c' : Coordinator ℤ) (pod : Pod ℤ)
    (st : PreFilterState ℤ) (conditions : List PodCondition) (now : ℤ) (nodes : List (NodeInfo ℤ))
    (ni : NodeInfo ℤ) (nom : Nomination ℤ),
    cap.preFilter c pod = .ok st → st.req = req → UniquelyNamed nodes → ni ∈ nodes →
    ni.allocatable = allocatable → ni.requested = requested → (∀ p ∈ ni.pods, NonNegative p) →
    postFilter rt pr c' (some st) pod conditions now (some nodes) = .ok nom →
    ni.node.map NodeMeta.name = some nom.nodeName →
    ∀ d ∈ req.keys, get req d ≤ freeOn allocatable requested d + freed nom.victims d

lemma freesNode_of_free {allocatable requested : FwkResource ℤ} {req : Resource ℤ}
    (h : ∀ d ∈ req.keys, 0 ≤ freeOn allocatable requested d) :
    FreesNode allocatable requested req := by
  rintro rt pr cap c c' pod st conditions now nodes ni nom - rfl hunique hni rfl rfl hnn hnom hname
    d hd
  obtain ⟨m, -, ni', hni', hchosen⟩ := postFilter_ok hnom
  obtain rfl := hunique ni hni ni' hni' _ hname hchosen.named
  exact hchosen.frees hnn (h d hd)

end Room

section Crowded
/-! A tenant of one unbounded leaf, where a pod of any request can be placed and evicted. -/

/-- A pod of the tenant with a given priority and request. -/
def podAsking (uid : String) (priority : ℤ) (r : Resource ℤ) : Pod ℤ :=
  { barePod uid "team" "runner" 0 with
    priority := some priority
    containers := [⟨toQuantityMap r, none⟩] }

lemma get_fromResourceList_toQuantityMap (r : Resource ℤ) (d : String) :
    get (fromResourceList (toQuantityMap r)) d = get r d := by
  have hget := get_fromQuantityMap (toQuantityMap r) d
  by_cases hd : d ∈ r
  · rwa [quantityToUnit_toQuantityMap hd] at hget
  · have hnone : (toQuantityMap r).lookup d = none := by
      rw [Finmap.lookup_eq_none, toQuantityMap, mem_tabulate, Finmap.mem_keys]
      exact hd
    rw [hnone] at hget
    rw [get_of_notMem (Finmap.mem_keys.not.mpr hd)]
    exact hget

lemma effectiveRequest_podAsking {r : Resource ℤ} (h : ∀ d ∈ r.keys, get r d ≠ 0) (uid : String)
    (priority : ℤ) : effectiveRequest (podAsking uid priority r) = r := by
  change Resources.max (add ∅ (fromResourceList (toQuantityMap r))) ∅ = r
  refine eq_of_get (fun d => mem_prune_iff.mp) h fun d => ?_
  have hread : get (add ∅ (fromResourceList (toQuantityMap r))) d = get r d := by
    rw [get_add, get_empty, zero_add, get_fromResourceList_toQuantityMap]
  rw [Resources.max, get_prune, get_tabulate]
  by_cases hd : d ∈ (add ∅ (fromResourceList (toQuantityMap r))).keys
  · simp [hd, hread]
  · simp [hd, ← hread, get_of_notMem hd]

def openTenant : Spec ℤ :=
  bareSpec rootName ∅
    [bareSpec "team" ∅ [{ bareSpec "jobs" ∅ [] with serviceAccounts := ["runner"] }]]

def openTree : QueueManager ℤ := treeOf openTenant (by decide +kernel)

/-- The tree with an amount allocated on the leaf. -/
def busyTree (r : Resource ℤ) : QueueManager ℤ := (openTree.allocate "root.team.jobs" r).1

@[simp] lemma busyTree_index (r : Resource ℤ) : (busyTree r).index = openTree.index :=
  mutate_index openTree _ _

lemma busyTree_used (r : Resource ℤ) (d : String) :
    get ((busyTree r).used "root.team.jobs") d = get r d := by
  have hempty : get (openTree.used "root.team.jobs") d = 0 :=
    (newManager_fresh (newManager_treeOf openTenant (by decide +kernel))).used _ d
  have hcharges : Charges openTree.index "root.team.jobs" "root.team.jobs" := by decide +kernel
  have hused := mutate_used (moves_allocate r) openTree "root.team.jobs" "root.team.jobs" d
  rw [hempty, if_pos hcharges] at hused
  simpa [usedHom, busyTree, QueueManager.allocate] using hused

lemma resolve_busyTree (r : Resource ℤ) : resolve (busyTree r) ⟨"team", "runner"⟩ =
    .ok "root.team.jobs" := by
  rw [resolve_congr (busyTree_index r)]
  decide +kernel

lemma canFit_busyTree (r req : Resource ℤ) :
    (busyTree r).canFit "root.team.jobs" req = .ok true := by
  have hin : "root.team.jobs" ∈ (busyTree r).index := by
    rw [busyTree_index]
    decide +kernel
  have hopen : ∀ n ∈ pathUp openTree.index "root.team.jobs", n.max.keys = ∅ := by decide +kernel
  rw [canFit_iff_fits hin, fits_iff, busyTree_index]
  intro n hn d _ hd
  simp [hopen n hn] at hd

lemma preFilter_podAsking {r req : Resource ℤ} (h : ∀ d ∈ req.keys, get req d ≠ 0) (uid : String)
    (priority : ℤ) :
    (⟨none, none, false, false⟩ : Capacity ℤ).preFilter
      (newCoordinator (engineOn 60 (busyTree r))) (podAsking uid priority req) =
      .ok ⟨"root.team.jobs", req, false⟩ := by
  have hrequest : (⟨none, none, false, false⟩ : Capacity ℤ).request (podAsking uid priority req) =
      .ok (effectiveRequest (podAsking uid priority req)) := rfl
  have huncapped : (openTree.index.lookup "root.team.jobs").all
      (fun q => decide (q.maxApplications = 0) && q.limits.isEmpty) = true := by decide +kernel
  have happs : checkApplications (newCoordinator (engineOn 60 (busyTree r))) (busyTree r)
      "root.team.jobs" (podAsking uid priority req) req = .ok () := by
    rw [checkApplications, busyTree_index]
    cases hq : openTree.index.lookup "root.team.jobs" with
    | none => rfl
    | some q =>
      rw [hq, Option.all_some, Bool.and_eq_true, decide_eq_true_eq, List.isEmpty_iff] at huncapped
      simp [atMaxApplications, huncapped.1, huncapped.2, checkLimits]
  have hgang : (podAsking uid priority req).gang = false := rfl
  rw [effectiveRequest_podAsking h] at hrequest
  unfold Capacity.preFilter
  simp only [
    show (newCoordinator (engineOn 60 (busyTree r))).engine.tree = some (busyTree r) from rfl,
    show (podAsking uid priority req).placementKey = ⟨"team", "runner"⟩ from rfl, resolve_busyTree,
    hrequest, hgang, happs, canFit_busyTree]
  rfl

lemma nodeDonorLeaf_busyTree (r req : Resource ℤ) (uid : String) :
    nodeDonorLeaf (busyTree r) 1 "ad-scheduler" "root.team.jobs" (podAsking uid 0 req) =
      some "root.team.jobs" := by
  have hfence : pathWithinSubtree "root.team.jobs"
      ((fenceBoundary openTree "root.team.jobs").getD "") = true := by decide +kernel
  have hsame : fenceBoundary (busyTree r) "root.team.jobs" =
      fenceBoundary openTree "root.team.jobs" := by
    rw [fenceBoundary, fenceBoundary, busyTree_index]
  unfold nodeDonorLeaf
  simp only [show (podAsking uid 0 req).placementKey = ⟨"team", "runner"⟩ from rfl,
    resolve_busyTree,
    hsame, hfence]
  rfl

lemma drainDonor_busyTree (rt : Runtime ℤ) {r : Resource ℤ} (hpos : ∀ d ∈ r.keys, 0 < get r d)
    (hne : ∃ d, 0 < get r d) :
    drainDonor rt (busyTree r) (fun _ => false) ("root.team.jobs", [podAsking "victim" 0 r]) =
      [podAsking "victim" 0 r] := by
  have hfloor : (openTree.index.lookup "root.team.jobs").any
      (fun q => decide (q.guaranteed.keys = ∅)) = true := by decide +kernel
  cases hq : openTree.index.lookup "root.team.jobs" with
  | none => simp [hq] at hfloor
  | some q =>
    rw [hq, Option.any_some, decide_eq_true_eq] at hfloor
    have hlook : (busyTree r).index.lookup "root.team.jobs" = some q := by rw [busyTree_index, hq]
    have hbudget : ∀ d, get (reclaimable ((busyTree r).used "root.team.jobs") q.guaranteed) d =
        max 0 (get r d) := by
      intro d
      have hzero : get q.guaranteed d = 0 := get_of_notMem (by simp [hfloor])
      rw [get_reclaimable_eq _ hlook, busyTree_used, hzero, sub_zero]
    have hsome :
        isEmpty (reclaimable ((busyTree r).used "root.team.jobs") q.guaranteed) = false := by
      obtain ⟨d, hd⟩ := hne
      apply isEmpty_eq_false (d := d)
      rw [hbudget]
      omega
    have hsort : rt.sort cheaper [podAsking "victim" 0 r] = [podAsking "victim" 0 r] :=
      List.perm_singleton.mp (rt.sort_perm _ _)
    have hfits : fitIn (add ∅ (effectiveRequest (podAsking "victim" 0 r)))
        (reclaimable ((busyTree r).used "root.team.jobs") q.guaranteed) = true := by
      rw [effectiveRequest_podAsking (fun d hd => (hpos d hd).ne'), fitIn_iff]
      intro d _
      rw [hbudget, get_add, get_empty, zero_add]
      exact le_max_right _ _
    simp only [drainDonor, queueUsedGuaranteed, hlook, Option.map_some, hsome, hsort,
      Greedy.pack, hfits]
    rfl

lemma nodeVictimPods_busyTree (rt : Runtime ℤ) {r : Resource ℤ} (hpos : ∀ d ∈ r.keys, 0 < get r d)
    (hne : ∃ d, 0 < get r d) :
    nodeVictimPods rt (busyTree r) [podAsking "victim" 0 r] 1 "ad-scheduler" "root.team.jobs" =
      [podAsking "victim" 0 r] := by
  have hroute := nodeDonorLeaf_busyTree r r "victim"
  have hself : [podAsking "victim" 0 r].filter (fun p => decide (nodeDonorLeaf (busyTree r) 1
      "ad-scheduler" "root.team.jobs" p = some "root.team.jobs")) = [podAsking "victim" 0 r] := by
    simp [hroute]
  have hall := filter_drainDonors rt (busyTree r) (fun _ => false)
    (nodeDonorLeaf (busyTree r) 1 "ad-scheduler" "root.team.jobs") [podAsking "victim" 0 r]
    "root.team.jobs"
  rw [hself, List.filter_eq_self.mpr] at hall
  · rw [nodeVictimPods, hall]
    exact drainDonor_busyTree rt hpos hne
  · intro p hp
    have hmem := (mem_drainDonors _ _ _ _ _ hp).1
    rw [List.mem_singleton.mp hmem, hroute]
    rfl

def crowdedNode (allocatable requested : FwkResource ℤ) (r : Resource ℤ) : NodeInfo ℤ :=
  ⟨some ⟨"node", ∅⟩, allocatable, requested, [podAsking "victim" 0 r]⟩

def eagerPreemptor : Preemptor := ⟨fun _ => true, none, 0, "ad-scheduler"⟩

variable {allocatable requested : FwkResource ℤ} {req lack : Resource ℤ}

lemma victimsOn_crowdedNode (rt : Runtime ℤ)
    (hlack : deficitOn req (crowdedNode allocatable requested lack) = lack)
    (hne : ∃ d, 0 < get lack d) :
    victimsOn rt eagerPreemptor (busyTree lack) ⟨"root.team.jobs", req, false⟩ 1
      (crowdedNode allocatable requested lack) = [victimOf (podAsking "victim" 0 lack)] := by
  have hpos : ∀ d ∈ lack.keys, 0 < get lack d := by
    rw [← hlack]
    exact fun d hd => deficitOn_pos hd
  have hrequest : ∀ d, get (victimOf (podAsking "victim" 0 lack)).request d = get lack d := by
    intro d
    change get (effectiveRequest (podAsking "victim" 0 lack)) d = get lack d
    rw [effectiveRequest_podAsking fun d hd => (hpos d hd).ne']
  have hvictims : victimsOn rt eagerPreemptor (busyTree lack) ⟨"root.team.jobs", req, false⟩ 1
      (crowdedNode allocatable requested lack) =
        selectVictims lack [victimOf (podAsking "victim" 0 lack)] := by
    unfold victimsOn
    rw [hlack]
    change selectVictims lack ((nodeVictimPods rt (busyTree lack) [podAsking "victim" 0 lack] 1
      "ad-scheduler" "root.team.jobs").map victimOf) = _
    rw [nodeVictimPods_busyTree rt hpos hne]
    rfl
  have hsome : selectVictims lack [victimOf (podAsking "victim" 0 lack)] ≠ [] := by
    refine (selectVictims_ne_nil_iff (fun d hd => (hpos d hd).le) fun v hv d => ?_).mpr ⟨?_, ?_⟩
    · rw [List.mem_singleton.mp hv, hrequest]
      exact get_nonneg_of_keys (fun d hd => (hpos d hd).le) d
    · obtain ⟨d, hd⟩ := hne
      exact ⟨d, mem_keys_of_get_ne_zero hd.ne', hd⟩
    · intro d _
      have hfreed : freed [victimOf (podAsking "victim" 0 lack)] d = get lack d := by
        simp [freed, hrequest]
      exact hfreed.ge
  rw [hvictims]
  have hsub := (selectVictims_selected hsome).among
  have hlength := List.length_pos_of_ne_nil hsome
  exact List.perm_singleton.mp (hsub.perm_of_length_le hlength)

lemma postFilter_crowdedNode (rt : Runtime ℤ)
    (hlack : deficitOn req (crowdedNode allocatable requested lack) = lack)
    (hne : ∃ d, 0 < get lack d) :
    ∃ evicted, postFilter rt eagerPreemptor (newCoordinator (engineOn 60 (busyTree lack)))
        (some ⟨"root.team.jobs", req, false⟩) (podAsking "pod" 1 req) [] 0
        (some [crowdedNode allocatable requested lack]) =
      .ok ⟨"node", [victimOf (podAsking "victim" 0 lack)], evicted⟩ := by
  have hempty : isEmpty lack = false := by
    obtain ⟨e, he⟩ := hne
    exact isEmpty_eq_false he.ne'
  have hbest : consider rt eagerPreemptor (busyTree lack) ⟨"root.team.jobs", req, false⟩ 1
      ⟨"", [], ∅⟩ (crowdedNode allocatable requested lack) =
        ⟨"node", [victimOf (podAsking "victim" 0 lack)], (eligibleVictims rt (busyTree lack)
          [podAsking "victim" 0 lack] 1 "ad-scheduler" "root.team.jobs").2⟩ := by
    unfold consider
    simp only [victimsOn_crowdedNode rt hlack hne, hlack, hempty]
    rfl
  apply Exists.intro
  unfold postFilter
  simp only [show gangGuard (newCoordinator (engineOn 60 (busyTree lack)))
    ⟨"root.team.jobs", req, false⟩ (podAsking "pod" 1 req) = true from rfl,
    show (newCoordinator (engineOn 60 (busyTree lack))).engine.tree = some (busyTree lack) from rfl,
    show priorityOf (podAsking "pod" 1 req) = 1 from rfl, List.foldl_cons, List.foldl_nil, hbest]
  rfl

lemma not_freesNode (hpos : ∀ d ∈ req.keys, 0 < get req d) {d : String} (hd : d ∈ req.keys)
    (hover : freeOn allocatable requested d < 0) : ¬ FreesNode allocatable requested req := by
  intro hfrees
  set lack := deficitOn req ⟨none, allocatable, requested, []⟩
  have hread : get lack d = get req d := by
    have hasked := hpos d hd
    rw [get_deficitOn]
    change max (get req d - max (freeOn allocatable requested d) 0) 0 = get req d
    omega
  have hlackpos : ∀ e ∈ lack.keys, 0 < get lack e := fun e he => deficitOn_pos he
  have hnn : NonNegative (podAsking "victim" 0 lack) := by
    rw [NonNegative, effectiveRequest_podAsking fun e he => (hlackpos e he).ne']
    exact fun e he => (hlackpos e he).le
  have hlack : deficitOn req (crowdedNode allocatable requested lack) = lack := rfl
  obtain ⟨evicted, hnom⟩ := postFilter_crowdedNode (sortedRuntime ℤ) hlack
    ⟨d, by rw [hread]; exact hpos d hd⟩
  have hroom := hfrees _ _ _ _ _ _ _ _ _ _ (crowdedNode allocatable requested lack) _
    (preFilter_podAsking (r := lack) (fun d hd => (hpos d hd).ne') "pod" 1) rfl ?_
    (List.mem_singleton_self _) rfl rfl ?_ hnom rfl d hd
  · have hfreed : freed [victimOf (podAsking "victim" 0 lack)] d = get lack d := by
      simp [freed, victimOf, effectiveRequest_podAsking fun e he => (hlackpos e he).ne']
    rw [hfreed, hread] at hroom
    omega
  · intro a ha b hb _ _ _
    rw [List.mem_singleton.mp ha, List.mem_singleton.mp hb]
  · intro p hp
    rw [List.mem_singleton.mp hp]
    exact hnn

/-- The victims on the nominated node make room for a pod exactly where the node is not
over-subscribed in a dimension the pod asks for. -/
theorem nomination_frees_iff (allocatable requested : FwkResource ℤ) {req : Resource ℤ}
    (hpos : ∀ d ∈ req.keys, 0 < get req d) :
    FreesNode allocatable requested req ↔
      ∀ d ∈ req.keys, get (fwkResource requested) d ≤ get (fwkResource allocatable) d := by
  constructor
  · intro hfrees d hd
    by_contra hover
    exact not_freesNode hpos hd (by unfold freeOn; omega) hfrees
  · intro hroom
    refine freesNode_of_free fun d hd => ?_
    have hfree := hroom d hd
    unfold freeOn
    omega

/-- A node with 8 requested of 4 is nominated for a pod of 2 after a victim of 2: it is still
over-subscribed. -/
theorem oversubscribed_node_nominated :
    let r : Resource ℤ := Finmap.singleton "cpu" 2
    let c := newCoordinator (engineOn 60 (busyTree r))
    let node := crowdedNode ⟨4, 0, 0, ∅⟩ ⟨8, 0, 0, ∅⟩ r
    (match (⟨none, none, false, false⟩ : Capacity ℤ).preFilter c (podAsking "pod" 1 r) with
      | .error _ => false
      | .ok st => decide (get st.req "cpu" = 2) &&
        match postFilter (sortedRuntime ℤ) eagerPreemptor c (some st) (podAsking "pod" 1 r) [] 0
            (some [node]) with
        | .error _ => false
        | .ok nom => decide (nom.nodeName = "node" ∧ nom.victims.map Victim.uid = ["victim"] ∧
            freeOn node.allocatable node.requested "cpu" + freed nom.victims "cpu" = -2))
        = true := by
  decide +kernel

theorem full_node_freed :
    let r : Resource ℤ := Finmap.singleton "cpu" 2
    FreesNode ⟨10, 0, 0, ∅⟩ ⟨9, 0, 0, ∅⟩ r ∧
      get (deficitOn r (crowdedNode ⟨10, 0, 0, ∅⟩ ⟨9, 0, 0, ∅⟩ r)) "cpu" = 1 := by
  intro r
  exact ⟨(nomination_frees_iff ⟨10, 0, 0, ∅⟩ ⟨9, 0, 0, ∅⟩ (by decide)).mpr (by decide +kernel),
    by decide +kernel⟩

end Crowded

end AdScheduler.NodePreemption
