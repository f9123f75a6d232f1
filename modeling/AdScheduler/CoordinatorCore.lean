import AdScheduler.EngineCore
import AdScheduler.NodeCache
import AdScheduler.Placement
import AdScheduler.TreeAssembly

/-! The coordinator, after `pkg/framework/coordinator.go`, `gangstatus.go` and
`nodelife.go`: it drives the engine from the informers. The stores of the informers are
part of its state and are listed in the order they are kept in. Waking gated pods up has
no effect on this state and is left out, as are logs and events. -/
namespace AdScheduler.CoordinatorCore
open KeyedMap Resources QueueTree Manager EngineCore Runs Requests NodeCache Placement TreeAssembly

structure TrackedPod (V : Type*) where
  ours : Bool
  gang : Bool
  identity : Identity
  req : Resource V

/-- What the gang plugin needs to know of a pod group. -/
structure GangInfo (V : Type*) where
  minMember : ℤ
  minResources : Resource V
  queue : String
  timeoutSecs : ℤ
  membersReadyTimeoutSecs : ℤ
  failed : Bool
  age : ℤ

inductive PodGroupPhase
  | unset
  | pending
  | scheduling
  | running
  | completed
  | failed
  deriving DecidableEq

structure PodGroup (V : Type*) where
  ns : String
  name : String
  creationTimestamp : ℤ
  minMember : ℤ
  minResources : ResourceList V
  queue : String
  scheduleTimeoutSeconds : Option ℤ
  membersReadyTimeoutSeconds : Option ℤ
  phase : PodGroupPhase
  admitted : Bool
  reservedResources : ResourceList V
  reservedQueue : String

def PodGroup.key {V : Type*} (pg : PodGroup V) : String := pg.ns ++ "/" ++ pg.name

structure Coordinator (V : Type*) [CommRing V] [LinearOrder V] where
  engine : Engine V
  cache : Cache V
  tracked : Map String (TrackedPod V)
  gangs : Map String (GangInfo V)
  pods : List (Pod V)
  podGroups : List (PodGroup V)
  queues : List (QueueCR V)
  quotas : List (ResourceQuota V)

variable {V : Type*} [CommRing V] [LinearOrder V]

/-- A coordinator over an engine, with nothing seen yet. -/
def newCoordinator (engine : Engine V) : Coordinator V where
  engine := engine
  cache := ⟨"ad-scheduler", ∅⟩
  tracked := ∅
  gangs := ∅
  pods := []
  podGroups := []
  queues := []
  quotas := []

def Coordinator.track (c : Coordinator V) (pod : Pod V) : TrackedPod V where
  ours := c.cache.isOurs pod
  gang := pod.gang
  identity := pod.placementKey
  req := effectiveRequest pod

/-- Book a tracked pod on the leaf its identity has in the tree. -/
def bookTracked (tree : QueueManager V) (e : Engine V) (entry : String × TrackedPod V) : Engine V :=
  if entry.2.ours && !entry.2.gang then
    match resolve tree entry.2.identity with
    | .error _ => e
    | .ok leaf => e.observeBound entry.1 leaf entry.2.req
  else e

/-- The leaf a tracked pod belongs on; only our pods outside gangs have one. -/
def homeLeaf (tree : QueueManager V) (tp : TrackedPod V) : Option String :=
  if tp.ours && !tp.gang then
    match resolve tree tp.identity with
    | .error _ => none
    | .ok leaf => some leaf
  else none

lemma bookTracked_eq (tree : QueueManager V) (e : Engine V) (uid : String) (tp : TrackedPod V) :
    bookTracked tree e (uid, tp) =
      (homeLeaf tree tp).elim e fun leaf => e.observeBound uid leaf tp.req := by
  unfold bookTracked homeLeaf
  dsimp only
  split_ifs
  · cases resolve tree tp.identity <;> rfl
  · rfl

def podCalls : Machine (Engine V) (Call V) := machine.restrict fun _ call =>
  match call with
  | .observeBound _ _ _ | .observeDeleted _ => True
  | _ => False

lemma reaches_bookTracked (tree : QueueManager V) (e : Engine V)
    (entry : String × TrackedPod V) : podCalls.Reaches e (bookTracked tree e entry) := by
  rw [show bookTracked tree e entry = _ from bookTracked_eq tree e entry.1 entry.2]
  cases homeLeaf tree entry.2 with
  | none => exact .refl _ _
  | some leaf => exact .step (a := Call.observeBound entry.1 leaf entry.2.req) ⟨trivial, trivial⟩

lemma homeLeaf_congr {t t' : QueueManager V} (h : t.index = t'.index) (tp : TrackedPod V) :
    homeLeaf t tp = homeLeaf t' tp := by
  simp only [homeLeaf, resolve_congr h]

lemma homeLeaf_mine {t : QueueManager V} {tp : TrackedPod V} {leaf : String}
    (h : homeLeaf t tp = some leaf) : (tp.ours && !tp.gang) = true := by
  by_contra hno
  rw [homeLeaf, if_neg hno] at h
  cases h

lemma homeLeaf_isLeafPath {t : QueueManager V} {tp : TrackedPod V} {leaf : String}
    (h : homeLeaf t tp = some leaf) : t.isLeafPath leaf = true := by
  unfold homeLeaf at h
  split_ifs at h
  cases hr : resolve t tp.identity with
  | error err => simp [hr] at h
  | ok l =>
    rw [hr] at h
    cases h
    exact resolve_isLeafPath hr

lemma mem_book_bookTracked (tree : QueueManager V) (e : Engine V) (uid : String)
    (tp : TrackedPod V) (u : String) :
    u ∈ (bookTracked tree e (uid, tp)).book ↔
      u ∈ e.book ∨ u = uid ∧ ∃ t leaf, e.tree = some t ∧ homeLeaf tree tp = some leaf ∧
        leaf ∈ t.index := by
  rw [bookTracked_eq]
  cases homeLeaf tree tp with
  | none => simp
  | some leaf => simp [mem_book_observeBound]

/-- Restore one gang from the reservation its status records. The outcome of the
admission is only logged. -/
def recoverGang (tree : QueueManager V) (e : Engine V) (pg : PodGroup V) : Engine V :=
  if pg.phase = .failed then e
  else if pg.admitted = false ∨ pg.reservedQueue = "" then e
  else if e.isGangAdmitted pg.key then e
  else if strictlyGtZero (fromQuantityMap pg.reservedResources) = false then e
  else if pg.reservedQueue ∉ tree.index then e
  else (e.admitGang pg.reservedQueue pg.key (fromQuantityMap pg.reservedResources)).1

/-- The status of the group records a reservation that the tree has a queue for. -/
structure Recorded (tree : QueueManager V) (pg : PodGroup V) : Prop where
  live : pg.phase ≠ .failed
  admitted : pg.admitted = true
  queue : pg.reservedQueue ≠ ""
  positive : strictlyGtZero (fromQuantityMap pg.reservedResources) = true
  known : pg.reservedQueue ∈ tree.index

lemma recoverGang_cases (tree : QueueManager V) (e : Engine V) (pg : PodGroup V) :
    (Recorded tree pg ∧ e.isGangAdmitted pg.key = false ∧ recoverGang tree e pg =
      (e.admitGang pg.reservedQueue pg.key (fromQuantityMap pg.reservedResources)).1) ∨
    ((Recorded tree pg → e.isGangAdmitted pg.key = true) ∧ recoverGang tree e pg = e) := by
  unfold recoverGang
  by_cases hphase : pg.phase = .failed
  · exact .inr ⟨fun h => absurd hphase h.live, if_pos hphase⟩
  rw [if_neg hphase]
  by_cases hrec : pg.admitted = false ∨ pg.reservedQueue = ""
  · refine .inr ⟨fun h => ?_, if_pos hrec⟩
    rcases hrec with ha | hq
    · rw [h.admitted] at ha
      cases ha
    · exact absurd hq h.queue
  rw [if_neg hrec]
  rw [not_or] at hrec
  by_cases hin : e.isGangAdmitted pg.key = true
  · exact .inr ⟨fun _ => hin, if_pos hin⟩
  rw [if_neg hin]
  by_cases hpos : strictlyGtZero (fromQuantityMap pg.reservedResources) = false
  · exact .inr ⟨fun h => absurd h.positive (by simp [hpos]), if_pos hpos⟩
  rw [if_neg hpos]
  by_cases hq : pg.reservedQueue ∈ tree.index
  · rw [if_neg (not_not.mpr hq)]
    exact .inl ⟨⟨hphase, by simpa using hrec.1, hrec.2, by simpa using hpos, hq⟩,
      by simpa using hin, rfl⟩
  · exact .inr ⟨fun h => absurd h.known hq, if_pos hq⟩

lemma reaches_recoverGang (tree : QueueManager V) (e : Engine V) (pg : PodGroup V) :
    machine.Reaches e (recoverGang tree e pg) := by
  rcases recoverGang_cases tree e pg with ⟨-, -, he⟩ | ⟨-, he⟩
  · rw [he]
    exact .step (a := Call.admitGang pg.reservedQueue pg.key (fromQuantityMap pg.reservedResources))
      trivial
  · rw [he]
    exact .refl _ _

lemma recoverGang_book (tree : QueueManager V) (e : Engine V) (pg : PodGroup V) :
    (recoverGang tree e pg).book = e.book := by
  rcases recoverGang_cases tree e pg with ⟨_, _, he⟩ | ⟨_, he⟩
  · rw [he, admitGang_book]
  · rw [he]

namespace Coordinator

def onPodDelete (c : Coordinator V) (pod : Pod V) : Coordinator V :=
  match c.tracked.lookup pod.uid with
  | none => c
  | some tp =>
    { c with
      tracked := c.tracked.erase pod.uid
      cache := c.cache.onPodDeleted pod
      engine := if tp.ours && !tp.gang then c.engine.observeDeleted pod.uid else c.engine }

def onPodUpsert (c : Coordinator V) (pod : Pod V) : Coordinator V :=
  if pod.nodeName = "" then c
  else if pod.terminal then c.onPodDelete pod
  else if pod.uid ∈ c.tracked then c
  else
    { c with
      tracked := c.tracked.insert pod.uid (c.track pod)
      cache := c.cache.onPodBound pod
      engine := match c.engine.tree with
        | none => c.engine
        | some t => bookTracked t c.engine (pod.uid, c.track pod) }

lemma onPodUpsert_new (c : Coordinator V) {pod : Pod V} (hnode : pod.nodeName ≠ "")
    (hrun : pod.terminal = false) (hnew : pod.uid ∉ c.tracked) :
    c.onPodUpsert pod = { c with
      tracked := c.tracked.insert pod.uid (c.track pod)
      cache := c.cache.onPodBound pod
      engine := c.engine.tree.elim c.engine fun t =>
        bookTracked t c.engine (pod.uid, c.track pod) } := by
  rw [onPodUpsert, if_neg hnode, hrun, if_neg Bool.false_ne_true, if_neg hnew]
  cases c.engine.tree <;> rfl

def onNodeUpsert (c : Coordinator V) (name : String) (allocatable : ResourceList V)
    (inPool : Bool) : Coordinator V :=
  { c with cache := c.cache.upsertNode name allocatable inPool }

def releaseNodePods (c : Coordinator V) (nodeName : String) : Coordinator V :=
  (c.pods.filter fun p =>
    decide (p.nodeName = nodeName ∧ p.schedulerName = c.cache.schedulerName)).foldl onPodDelete c

def onNodeDelete (c : Coordinator V) (name : String) : Coordinator V :=
  releaseNodePods { c with cache := c.cache.removeNode name } name

def onPodGroupUpsert (c : Coordinator V) (pg : PodGroup V) : Coordinator V :=
  { c with gangs := c.gangs.insert pg.key {
      minMember := pg.minMember
      minResources := fromQuantityMap pg.minResources
      queue := pg.queue
      timeoutSecs := pg.scheduleTimeoutSeconds.getD 0
      membersReadyTimeoutSecs := pg.membersReadyTimeoutSeconds.getD 0
      failed := decide (pg.phase = .failed)
      age := -pg.creationTimestamp } }

def onPodGroupDelete (c : Coordinator V) (pg : PodGroup V) : Coordinator V :=
  { c with gangs := c.gangs.erase pg.key, engine := c.engine.releaseGang pg.key }

def gangInfo (c : Coordinator V) (ns name : String) : Option (GangInfo V) :=
  c.gangs.lookup (ns ++ "/" ++ name)

/-- Book the tracked pods that the new tree routes. -/
def reseedQueueAllocation (c : Coordinator V) (mgr : QueueManager V) (order : List String)
    (e : Engine V) : Engine V :=
  (entries order c.tracked).foldl (bookTracked mgr) e

def recoverGangs (c : Coordinator V) (mgr : QueueManager V) (e : Engine V) : Engine V :=
  c.podGroups.foldl (recoverGang mgr) e

lemma recoverGangs_book (c : Coordinator V) (mgr : QueueManager V) (e : Engine V) :
    (c.recoverGangs mgr e).book = e.book := by
  refine List.foldlRecOn (motive := fun x : Engine V => x.book = e.book) _ _ rfl fun x hx pg _ => ?_
  rw [recoverGang_book, hx]

/-- Assemble the tree, swap it in, and fill in what the ledgers do not carry over. An
assembly that fails keeps the last good tree. -/
def rebuild (c : Coordinator V) (bookOrder gangOrder trackedOrder : List String) :
    Coordinator V :=
  match assemble c.queues c.quotas with
  | .error _ => c
  | .ok mgr =>
    let published := c.engine.rebuild mgr bookOrder gangOrder
    let reseeded := c.reseedQueueAllocation mgr trackedOrder published
    { c with engine := c.recoverGangs mgr reseeded }

lemma rebuild_podGroups (c : Coordinator V) (bookOrder gangOrder trackedOrder : List String) :
    (c.rebuild bookOrder gangOrder trackedOrder).podGroups = c.podGroups := by
  rw [rebuild]
  split <;> rfl

lemma reaches_rebuild {c : Coordinator V} {bookOrder gangOrder : List String}
    (hb : Visits bookOrder c.engine.book) (hg : Visits gangOrder c.engine.gangBook)
    (trackedOrder : List String) :
    machine.Reaches c.engine (c.rebuild bookOrder gangOrder trackedOrder).engine := by
  rw [rebuild]
  split
  · exact .refl _ _
  · rename_i mgr hmgr
    have hpublish : machine.Reaches c.engine (c.engine.rebuild mgr bookOrder gangOrder) :=
      .step (a := Call.rebuild mgr bookOrder gangOrder) ⟨assemble_newManager hmgr, hb, hg⟩
    have hreseed := Machine.Reaches.foldl (fun e entry =>
      (reaches_bookTracked mgr e entry).of_restrict)
      (entries trackedOrder c.tracked) (c.engine.rebuild mgr bookOrder gangOrder)
    exact (hpublish.trans hreseed).trans (.foldl (reaches_recoverGang mgr) _ _)

/-- The periodic release of ledger entries whose object is gone. -/
def gcStaleLedgers (c : Coordinator V) (bookOrder gangOrder : List String) : Coordinator V :=
  let liveUIDs := ((c.pods.filter fun p => !p.terminal).map Pod.uid).toFinset
  let livePGs := (c.podGroups.map PodGroup.key).toFinset
  { c with engine := ((c.engine.gcBookings liveUIDs bookOrder).1.gcGangs livePGs gangOrder).1 }

/-- Our pods that are neither finished nor being deleted, apart from one. -/
def runningPods (c : Coordinator V) (exclude : String) : List (Pod V) :=
  c.pods.filter fun p =>
    decide (p.uid ≠ exclude ∧ p.schedulerName = c.cache.schedulerName ∧
      p.deletionTimestamp = none) && !p.terminal

def routesTo (t : QueueManager V) (leaf : String) (id : Identity) : Bool :=
  match resolve t id with
  | .error _ => false
  | .ok l => decide (l = leaf)

def appIDsOnLeaf (c : Coordinator V) (leaf exclude : String) : Finset String :=
  match c.engine.tree with
  | none => ∅
  | some t =>
    (((c.runningPods exclude).filter fun p => routesTo t leaf p.placementKey).map
      Pod.appID).toFinset

/-- The applications and the summed request of the pods a limit covers. -/
def leafLimitUsage (c : Coordinator V) (leaf : String) (saSet : List String) (exclude : String) :
    Finset String × Resource V :=
  match c.engine.tree with
  | none => (∅, ∅)
  | some t =>
    let covered := (c.runningPods exclude).filter fun p =>
      (saSet.contains "*" || saSet.contains p.placementKey.serviceAccount) &&
        routesTo t leaf p.placementKey
    ((covered.map Pod.appID).toFinset,
      covered.foldl (fun used p => add used (effectiveRequest p)) ∅)

end Coordinator

end AdScheduler.CoordinatorCore
