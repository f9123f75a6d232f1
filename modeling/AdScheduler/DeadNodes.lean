import AdScheduler.Informers

/-! Nodes that are gone and the bookings of the pods on them, after `pkg/framework/nodelife.go`.
The release of a node's pods untracks them while their objects stay bound. -/
namespace AdScheduler.DeadNodes
open KeyedMap Resources Manager EngineCore Runs Requests NodeCache Placement CoordinatorCore
open Informers
open Conservation (mem_index_of_isLeafPath)

/-- The coordinator, the pods that the API server has bound, and the nodes that were deleted
and not added again since. -/
structure Watch (V : Type*) [CommRing V] [LinearOrder V] where
  coord : Coordinator V
  bound : Finset String
  dead : Finset String

/-- An event of the informers, a call of the plugin, or a binding that the API server accepts. -/
inductive Step (V : Type*)
  | event (event : Event V)
  | reserve (uid leaf : String) (req : Resource V)
  | unreserve (uid : String)
  | commit (uid : String)
  | bind (uid : String)

section Ledger
variable {V : Type*} [CommRing V] [LinearOrder V]

def deadAfter (dead : Finset String) : Event V → Finset String
  | .nodeUpsert name _ _ => dead.erase name
  | .nodeDelete name => insert name dead
  | _ => dead

namespace Watch

def setEngine (s : Watch V) (e : Engine V) : Watch V :=
  { s with coord := { s.coord with engine := e } }

def next (s : Watch V) : Step V → Watch V
  | .event event => ⟨deliver s.coord event, s.bound, deadAfter s.dead event⟩
  | .reserve uid leaf req => s.setEngine (s.coord.engine.reserve uid leaf req)
  | .unreserve uid => s.setEngine (s.coord.engine.unreserve uid)
  | .commit uid => s.setEngine (s.coord.engine.commit uid)
  | .bind uid => { s with bound := insert uid s.bound }

end Watch

def shown : Event V → List (Pod V)
  | .podUpsert pod | .podDelete pod => [pod]
  | .store pods => pods
  | .nodeUpsert _ _ _ | .nodeDelete _ => []

/-- The informers show a pod on a node only once it is bound. -/
def Enabled (fixed : Fixed) (s : Watch V) : Step V → Prop
  | .event event => Delivered fixed s.coord event ∧
      ∀ pod ∈ shown event, pod.nodeName ≠ "" → pod.uid ∈ s.bound
  | _ => True

def watched (fixed : Fixed) : Machine (Watch V) (Step V) := ⟨Enabled fixed, Watch.next⟩

/-- A pod of ours that is bound to a dead node. -/
def Lost (fixed : Fixed) (s : Watch V) (uid : String) : Prop :=
  uid ∈ s.bound ∧ fixed.node uid ∈ s.dead ∧ fixed.scheduler uid = s.coord.cache.schedulerName

/-- No pod of ours that is bound to a dead node is booked. -/
def Unpinned (fixed : Fixed) (s : Watch V) : Prop :=
  ∀ uid, Lost fixed s uid → uid ∉ s.coord.engine.book

/-- An update of the pod tracks it and finds a queue for it. -/
def Books (c : Coordinator V) (pod : Pod V) : Prop :=
  pod.nodeName ≠ "" ∧ pod.terminal = false ∧ pod.uid ∉ c.tracked ∧
    ∃ t leaf, c.engine.tree = some t ∧ homeLeaf t (c.track pod) = some leaf

/-- The pod is tracked as one of ours outside gangs. -/
def Mine (c : Coordinator V) (uid : String) : Prop :=
  ∃ tp, c.tracked.lookup uid = some tp ∧ (tp.ours && !tp.gang) = true

/-- The booked pods on a deleted node are tracked and the store shows them on it; no pod that
would be booked is seen for the first time on a dead node; and no pod is reserved, or bound
with a booking, on one. -/
def Released (fixed : Fixed) (s : Watch V) : Step V → Prop
  | .event (.nodeDelete name) => ∀ uid ∈ s.coord.engine.book, uid ∈ s.bound →
      fixed.node uid = name → fixed.scheduler uid = s.coord.cache.schedulerName →
        Mine s.coord uid ∧ ∃ pod ∈ s.coord.pods, pod.uid = uid ∧ pod.nodeName = name
  | .event (.podUpsert pod) => pod.nodeName ∈ s.dead → ¬ Books s.coord pod
  | .reserve uid leaf _ => Lost fixed s uid →
      ∀ t, s.coord.engine.tree = some t → t.isLeafPath leaf = false
  | .bind uid => fixed.node uid ∈ s.dead → fixed.scheduler uid = s.coord.cache.schedulerName →
      uid ∉ s.coord.engine.book
  | _ => True

section Deletion
variable {c : Coordinator V}

lemma mem_book_onPodDelete (c : Coordinator V) (pod : Pod V) (uid : String) :
    uid ∈ (c.onPodDelete pod).engine.book ↔
      uid ∈ c.engine.book ∧ ¬ (uid = pod.uid ∧ Mine c uid) := by
  cases htp : c.tracked.lookup pod.uid with
  | none =>
    rw [onPodDelete_untracked c htp]
    refine ⟨fun hin => ⟨hin, ?_⟩, And.left⟩
    rintro ⟨rfl, tp, htp', _⟩
    simp [htp] at htp'
  | some tp =>
    rw [onPodDelete_tracked c htp]
    dsimp only
    split_ifs with hmine
    · rw [mem_book_observeDeleted, and_comm, and_congr_right_iff]
      refine fun _ => not_congr ⟨?_, And.left⟩
      rintro rfl
      exact ⟨rfl, tp, htp, hmine⟩
    · refine ⟨fun hin => ⟨hin, ?_⟩, And.left⟩
      rintro ⟨rfl, tp', htp', hmine'⟩
      rw [htp] at htp'
      cases htp'
      exact hmine hmine'

lemma mine_onPodDelete (c : Coordinator V) (pod : Pod V) (uid : String) :
    Mine (c.onPodDelete pod) uid ↔ uid ≠ pod.uid ∧ Mine c uid := by
  unfold Mine
  rw [onPodDelete_lookup]
  split_ifs with hu <;> simp [hu]

lemma mem_book_foldl_onPodDelete (c : Coordinator V) (pods : List (Pod V)) (uid : String) :
    uid ∈ (pods.foldl Coordinator.onPodDelete c).engine.book ↔
      uid ∈ c.engine.book ∧ ¬ (Mine c uid ∧ ∃ pod ∈ pods, pod.uid = uid) := by
  induction pods generalizing c with
  | nil => simp
  | cons pod pods ih =>
    rw [List.foldl_cons, ih, mem_book_onPodDelete, mine_onPodDelete]
    simp only [List.mem_cons, exists_eq_or_imp, eq_comm (a := pod.uid)]
    by_cases huid : uid = pod.uid
    · simp [huid]
    · simp [huid]

lemma onNodeDelete_schedulerName (name : String) :
    (c.onNodeDelete name).cache.schedulerName = c.cache.schedulerName := by
  refine releaseNodePods_invariant (I := fun c' => c'.cache.schedulerName = c.cache.schedulerName)
    rfl fun c' pod hc' _ _ _ => ?_
  rw [onPodDelete_schedulerName, hc']

lemma mem_book_onNodeDelete (c : Coordinator V) (name uid : String) :
    uid ∈ (c.onNodeDelete name).engine.book ↔ uid ∈ c.engine.book ∧
      ¬ (Mine c uid ∧ ∃ pod ∈ c.pods, (pod.nodeName = name ∧
        pod.schedulerName = c.cache.schedulerName) ∧ pod.uid = uid) := by
  rw [Coordinator.onNodeDelete, Coordinator.releaseNodePods, mem_book_foldl_onPodDelete]
  simp only [List.mem_filter, decide_eq_true_eq, and_assoc]
  rfl

end Deletion

section Calls

lemma mem_book_unreserve {e : Engine V} {uid u : String} (h : u ∈ (e.unreserve uid).book) :
    u ∈ e.book := by
  unfold Engine.unreserve at h
  split at h
  · exact h
  · split_ifs at h
    · exact h
    · exact (Finmap.mem_erase.mp h).2

lemma mem_book_commit {e : Engine V} {uid u : String} (h : u ∈ (e.commit uid).book) :
    u ∈ e.book := by
  unfold Engine.commit at h
  split at h
  · exact h
  · rename_i rec hrec
    split_ifs at h
    · exact h
    · rcases Finmap.mem_insert.mp h with rfl | h
      · exact Finmap.mem_of_lookup_eq_some hrec
      · exact h

end Calls

section Update
variable {c : Coordinator V} {pod : Pod V}

lemma mem_book_track (hnode : pod.nodeName ≠ "") (hrun : pod.terminal = false)
    (hnew : pod.uid ∉ c.tracked) (uid : String) :
    uid ∈ (c.onPodUpsert pod).engine.book ↔
      uid ∈ c.engine.book ∨ uid = pod.uid ∧ Books c pod := by
  rw [Coordinator.onPodUpsert_new c hnode hrun hnew]
  cases ht : c.engine.tree with
  | none => simp [Books, ht]
  | some t =>
    have hin : ∀ leaf, homeLeaf t (c.track pod) = some leaf → leaf ∈ t.index :=
      fun leaf hleaf => mem_index_of_isLeafPath (homeLeaf_isLeafPath hleaf)
    have hbooks : Books c pod ↔ ∃ t' leaf, c.engine.tree = some t' ∧
        homeLeaf t (c.track pod) = some leaf ∧ leaf ∈ t'.index := by
      constructor
      · rintro ⟨_, _, _, t', leaf, ht', hleaf⟩
        rw [ht] at ht'
        cases ht'
        exact ⟨t, leaf, ht, hleaf, hin leaf hleaf⟩
      · rintro ⟨t', leaf, _, hleaf, _⟩
        exact ⟨hnode, hrun, hnew, t, leaf, ht, hleaf⟩
    rw [hbooks]
    exact mem_book_bookTracked t c.engine pod.uid (c.track pod) uid

end Update

section Steps
variable {fixed : Fixed} {s : Watch V}

lemma unpinned_nodeDelete_iff (h : Unpinned fixed s) (hstore : ∀ pod ∈ s.coord.pods, fixed.Of pod)
    (name : String) : Unpinned fixed (s.next (.event (.nodeDelete name))) ↔
      Released fixed s (.event (.nodeDelete name)) := by
  have hname : (s.coord.onNodeDelete name).cache.schedulerName = s.coord.cache.schedulerName :=
    onNodeDelete_schedulerName name
  constructor
  · intro h' uid hin hbound hnode hours
    have hgone : uid ∉ (s.coord.onNodeDelete name).engine.book :=
      h' uid ⟨hbound, by simp [Watch.next, deadAfter, hnode], hours.trans hname.symm⟩
    rw [mem_book_onNodeDelete, not_and_not_right] at hgone
    obtain ⟨hmine, pod, hpod, ⟨hat, _⟩, huid⟩ := hgone hin
    exact ⟨hmine, pod, hpod, huid, hat⟩
  · rintro hrel uid ⟨hbound, hdead, hours⟩ hin
    obtain ⟨hold, hkept⟩ := (mem_book_onNodeDelete s.coord name uid).mp hin
    have hown : fixed.scheduler uid = s.coord.cache.schedulerName := hours.trans hname
    rcases Finset.mem_insert.mp hdead with hnode | hdead'
    · obtain ⟨hmine, pod, hpod, rfl, hat⟩ := hrel uid hold hbound hnode hown
      exact hkept ⟨hmine, pod, hpod, ⟨hat, (hstore pod hpod).2.trans hown⟩, rfl⟩
    · exact h uid ⟨hbound, hdead', hown⟩ hold

lemma unpinned_podDelete (h : Unpinned fixed s) (pod : Pod V) :
    Unpinned fixed ⟨s.coord.onPodDelete pod, s.bound, s.dead⟩ := by
  rintro uid ⟨hbound, hdead, hours⟩ hin
  rw [onPodDelete_schedulerName] at hours
  exact h uid ⟨hbound, hdead, hours⟩ ((mem_book_onPodDelete s.coord pod uid).mp hin).1

lemma unpinned_podUpsert_iff (h : Unpinned fixed s) {pod : Pod V} (hpod : fixed.Of pod)
    (hbound : pod.nodeName ≠ "" → pod.uid ∈ s.bound) :
    Unpinned fixed ⟨s.coord.onPodUpsert pod, s.bound, s.dead⟩ ↔
      (pod.nodeName ∈ s.dead → ¬ Books s.coord pod) := by
  rcases onPodUpsert_cases s.coord pod with ⟨he, hwhy⟩ | ⟨he, _, hterm⟩ | ⟨hnode, hrun, hnew⟩
  · rw [he]
    refine iff_of_true h fun _ hbooks => ?_
    rcases hwhy with hunbound | ⟨_, htracked⟩
    · exact hbooks.1 hunbound
    · exact hbooks.2.2.1 htracked
  · rw [he]
    refine iff_of_true (unpinned_podDelete h pod) fun _ hbooks => ?_
    rw [hbooks.2.1] at hterm
    cases hterm
  · have hat : pod.nodeName = fixed.node pod.uid := hpod.1.resolve_left hnode
    have hname : (s.coord.onPodUpsert pod).cache.schedulerName = s.coord.cache.schedulerName := by
      rw [Coordinator.onPodUpsert_new _ hnode hrun hnew]
      exact Cache.onPodBound_schedulerName _ _
    constructor
    · intro h' hdead hbooks
      have hmine : fixed.scheduler pod.uid = s.coord.cache.schedulerName := by
        obtain ⟨_, _, _, t, leaf, _, hleaf⟩ := hbooks
        have hours : s.coord.cache.isOurs pod = true :=
          (Bool.and_eq_true_iff.mp (homeLeaf_mine hleaf)).1
        rw [← hpod.2]
        exact of_decide_eq_true hours
      refine h' pod.uid ⟨hbound hnode, hat ▸ hdead, hmine.trans hname.symm⟩ ?_
      exact (mem_book_track hnode hrun hnew pod.uid).mpr (.inr ⟨rfl, hbooks⟩)
    · rintro hfree uid ⟨hb, hdead, hours⟩ hin
      rcases (mem_book_track hnode hrun hnew uid).mp hin with hold | ⟨rfl, hbooks⟩
      · exact h uid ⟨hb, hdead, hours.trans hname⟩ hold
      · exact hfree (by rw [hat]; exact hdead) hbooks

lemma unpinned_event_iff (h : Unpinned fixed s) (hstore : ∀ pod ∈ s.coord.pods, fixed.Of pod)
    {event : Event V} (hevent : Enabled fixed s (.event event)) :
    Unpinned fixed (s.next (.event event)) ↔ Released fixed s (.event event) := by
  cases event with
  | nodeUpsert name allocatable inPool =>
    refine iff_of_true (fun uid hlost => ?_) trivial
    exact h uid ⟨hlost.1, Finset.mem_of_mem_erase hlost.2.1, hlost.2.2⟩
  | nodeDelete name => exact unpinned_nodeDelete_iff h hstore name
  | podUpsert pod =>
    exact unpinned_podUpsert_iff h hevent.1.1 (hevent.2 pod (List.mem_singleton_self pod))
  | podDelete pod => exact iff_of_true (unpinned_podDelete h pod) trivial
  | store pods => exact iff_of_true h trivial

lemma unpinned_reserve_iff (h : Unpinned fixed s) (uid leaf : String) (req : Resource V) :
    Unpinned fixed (s.next (.reserve uid leaf req)) ↔
      Released fixed s (.reserve uid leaf req) := by
  constructor
  · intro h' hlost t ht
    by_contra hleaf
    exact h' uid hlost ((mem_book_reserve _ _ _ _ _).mpr
      (.inr ⟨rfl, t, ht, Bool.eq_true_of_not_eq_false hleaf⟩))
  · intro hrel u hlost hin
    rcases (mem_book_reserve _ _ _ _ _).mp hin with hold | ⟨rfl, t, ht, hleaf⟩
    · exact h u hlost hold
    · exact Bool.false_ne_true ((hrel hlost t ht).symm.trans hleaf)

lemma unpinned_bind_iff (h : Unpinned fixed s) (uid : String) :
    Unpinned fixed (s.next (.bind uid)) ↔ Released fixed s (.bind uid) := by
  constructor
  · intro h' hdead hours
    exact h' uid ⟨Finset.mem_insert_self uid s.bound, hdead, hours⟩
  · rintro hrel u ⟨hbound, hdead, hours⟩
    rcases Finset.mem_insert.mp hbound with rfl | hbound
    · exact hrel hdead hours
    · exact h u ⟨hbound, hdead, hours⟩

lemma unpinned_next_iff (h : Unpinned fixed s) (hstore : ∀ pod ∈ s.coord.pods, fixed.Of pod)
    {step : Step V} (hstep : Enabled fixed s step) :
    Unpinned fixed (s.next step) ↔ Released fixed s step := by
  cases step with
  | event event => exact unpinned_event_iff h hstore hstep
  | reserve uid leaf req => exact unpinned_reserve_iff h uid leaf req
  | unreserve uid =>
    exact iff_of_true (fun u hlost hin => h u hlost (mem_book_unreserve hin)) trivial
  | commit uid =>
    exact iff_of_true (fun u hlost hin => h u hlost (mem_book_commit hin)) trivial
  | bind uid => exact unpinned_bind_iff h uid

lemma store_deliver {c : Coordinator V} (h : ∀ pod ∈ c.pods, fixed.Of pod) {event : Event V}
    (hevent : Delivered fixed c event) : ∀ pod ∈ (deliver c event).pods, fixed.Of pod := by
  cases event with
  | nodeUpsert => exact h
  | nodeDelete name =>
    refine releaseNodePods_invariant (I := fun c' => ∀ pod ∈ c'.pods, fixed.Of pod) h
      fun c' pod hc' _ _ _ => ?_
    rwa [onPodDelete_pods]
  | podUpsert pod =>
    rw [deliver]
    rcases onPodUpsert_cases c pod with ⟨he, -⟩ | ⟨he, -⟩ | ⟨hnode, hrun, hnew⟩
    · rwa [he]
    · rwa [he, onPodDelete_pods]
    · rwa [Coordinator.onPodUpsert_new c hnode hrun hnew]
  | podDelete pod => rwa [deliver, onPodDelete_pods]
  | store pods => exact hevent

lemma store_next (h : ∀ pod ∈ s.coord.pods, fixed.Of pod) {step : Step V}
    (hstep : Enabled fixed s step) : ∀ pod ∈ (s.next step).coord.pods, fixed.Of pod := by
  cases step with
  | event event => exact store_deliver h hstep.1
  | reserve | unreserve | commit | bind => exact h

end Steps

end Ledger

section Result
variable {V : Type*} [CommRing V] [LinearOrder V]

/-- From any state of the ledger, the tracked pods and the tree, whatever events, plugin calls
and bindings come in, as long as each meets the condition, no pod of ours that is bound to a
dead node is booked. A step that does not meet it leaves such a booking at once. -/
theorem dead_nodes_pin_nothing {fixed : Fixed} {c : Coordinator V}
    (hstore : ∀ pod ∈ c.pods, fixed.Of pod) {bound : Finset String} {steps : List (Step V)}
    {s : Watch V} (h : Run ((watched fixed).restrict (Released fixed)) ⟨c, bound, ∅⟩ steps s) :
    Unpinned fixed s ∧ ∀ step, Enabled fixed s step →
      (Unpinned fixed (s.next step) ↔ Released fixed s step) := by
  have hinv : Unpinned fixed s ∧ ∀ pod ∈ s.coord.pods, fixed.Of pod := by
    apply h.invariant
    · exact ⟨fun uid hlost => absurd hlost.2.1 (Finset.notMem_empty _), hstore⟩
    · rintro s' step ⟨hu, hs⟩ ⟨hstep, hrel⟩
      exact ⟨(unpinned_next_iff hu hs hstep).mpr hrel, store_next hs hstep⟩
  exact ⟨hinv.1, fun step hstep => unpinned_next_iff hinv.1 hinv.2 hstep⟩

end Result

def allOurs : Fixed := ⟨fun _ => "node", fun _ => "ad-scheduler"⟩

def emptyCluster : Watch ℤ :=
  ⟨newCoordinator (engineOn 60 (treeOf (oneTenant 10) oneTenant_isOk)), ∅, ∅⟩

def beforeLoss : List (Step ℤ) :=
  [.event nodeAdded, .reserve "pod" "root.team.jobs" (Finmap.singleton "cpu" 2), .bind "pod",
    .commit "pod", .event (.store [boundPod 2]), .event (.podUpsert (boundPod 2))]

def startedPod : Pod ℤ := { boundPod 2 with phase := .running }

lemma enabled_pod (s : Watch ℤ) (pod : Pod ℤ) (hof : allOurs.Of pod) (hnode : pod.nodeName ≠ "")
    (hbound : pod.uid ∈ s.bound) : Enabled allOurs s (.event (.podUpsert pod)) ∧
      Enabled allOurs s (.event (.podDelete pod)) ∧ Enabled allOurs s (.event (.store [pod])) := by
  simp [Enabled, Delivered, shown, hof, hnode, hbound]

/-- The node is deleted and its pod released; the next status update of the pod, whose object
is still bound to the node, books it again. -/
theorem update_after_node_loss_books :
    let events : List (Step ℤ) := [.event (.nodeDelete "node"), .event (.podUpsert startedPod)]
    let before := beforeLoss.foldl Watch.next emptyCluster
    let after := events.foldl Watch.next before
    Run (watched allOurs) emptyCluster (beforeLoss ++ events) after ∧
    "pod" ∉ (before.next (.event (.nodeDelete "node"))).coord.engine.book ∧ "node" ∈ after.dead ∧
    (after.coord.engine.book.lookup "pod").map BookRec.leaf = some "root.team.jobs" ∧
    ¬ Unpinned allOurs after := by
  intro events before after
  have hbooked : (after.coord.engine.book.lookup "pod").map BookRec.leaf =
      some "root.team.jobs" := by decide +kernel
  have hnode : "node" ≠ "" := by decide
  have hadded : Enabled allOurs emptyCluster (.event nodeAdded) := ⟨hnode, nofun⟩
  have hpod : ∀ s : Watch ℤ, "pod" ∈ s.bound → _ := fun s hbound =>
    enabled_pod s (boundPod 2) ⟨.inr rfl, rfl⟩ hnode hbound
  have hstarted : ∀ s : Watch ℤ, "pod" ∈ s.bound → _ := fun s hbound =>
    enabled_pod s startedPod ⟨.inr rfl, rfl⟩ hnode hbound
  have hlegal : (watched allOurs).Legal emptyCluster (beforeLoss ++ events) :=
    ⟨hadded, trivial, trivial, trivial, (hpod _ (by decide +kernel)).2.2,
      (hpod _ (by decide +kernel)).1, ⟨hnode, nofun⟩, (hstarted _ (by decide +kernel)).1, trivial⟩
  refine ⟨hlegal.run, by decide +kernel, by decide +kernel, hbooked, fun h => ?_⟩
  refine h "pod" ⟨by decide +kernel, by decide +kernel, by decide +kernel⟩ ?_
  obtain ⟨rec, hrec, _⟩ := Option.map_eq_some_iff.mp hbooked
  exact Finmap.mem_of_lookup_eq_some hrec

theorem lost_node_released :
    let events : List (Step ℤ) := [.event (.nodeDelete "node"), .event (.podDelete (boundPod 2))]
    let before := beforeLoss.foldl Watch.next emptyCluster
    "pod" ∈ before.coord.engine.book ∧ (events.foldl Watch.next before).dead = {"node"} ∧
      Unpinned allOurs (events.foldl Watch.next before) := by
  intro events before
  have hnode : "node" ≠ "" := by decide
  have hpod : ∀ s : Watch ℤ, "pod" ∈ s.bound → _ := fun s hbound =>
    enabled_pod s (boundPod 2) ⟨.inr rfl, rfl⟩ hnode hbound
  have hbook : before.coord.engine.book.keys = {"pod"} := by decide +kernel
  have hmine : Mine before.coord "pod" := ⟨_, rfl, by decide +kernel⟩
  have hshown : Released allOurs before (.event (.nodeDelete "node")) := by
    intro uid hin _ _ _
    rw [← Finmap.mem_keys, hbook, Finset.mem_singleton] at hin
    rw [hin]
    exact ⟨hmine, boundPod 2, List.mem_singleton_self _, rfl, rfl⟩
  have hempty : ∀ s : Watch ℤ, s.dead = ∅ → ∀ uid, ¬ Lost allOurs s uid :=
    fun s hdead uid hlost => by simpa [hdead] using hlost.2.1
  have hbefore : ((watched allOurs).restrict (Released allOurs)).Legal emptyCluster
      beforeLoss := by
    refine ⟨⟨⟨hnode, nofun⟩, trivial⟩, ⟨trivial, fun hlost => ?_⟩, ⟨trivial, fun hdead => ?_⟩,
      ⟨trivial, trivial⟩, ⟨(hpod _ (by decide +kernel)).2.2, trivial⟩,
      ⟨(hpod _ (by decide +kernel)).1, fun hdead => ?_⟩, trivial⟩
    · exact absurd hlost (hempty _ (by decide +kernel) _)
    · exact absurd hdead (by decide +kernel)
    · exact absurd hdead (by decide +kernel)
  have hevents : ((watched allOurs).restrict (Released allOurs)).Legal before events :=
    ⟨⟨⟨hnode, nofun⟩, hshown⟩, ⟨(hpod _ (by decide +kernel)).2.1, trivial⟩, trivial⟩
  have hstore : ∀ pod ∈ emptyCluster.coord.pods, allOurs.Of pod := by
    simp [emptyCluster, newCoordinator]
  have hall := dead_nodes_pin_nothing hstore (hbefore.run.append hevents.run)
  refine ⟨?_, by decide +kernel, hall.1⟩
  rw [← Finmap.mem_keys, hbook]
  exact Finset.mem_singleton_self _

end AdScheduler.DeadNodes
