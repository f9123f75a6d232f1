import AdScheduler.ReclaimOutcome
import AdScheduler.Runs

/-! Reclaims one after the other, after `reclaimLoop` and `evictVictims` of
`pkg/framework/reclaim.go`. A victim keeps its booking until its deletion is observed, while the
next tick may look for victims again. In between pods are bound, arrive and leave. -/
namespace AdScheduler.ReclaimRuns
open KeyedMap Resources QueueTree TreeShape Manager Conservation EngineCore Requests Placement
open CoordinatorCore Preemption Reclaim Eviction ReclaimChoice ReclaimOutcome Runs

def placed (c : Coordinator ℤ) (p : Pod ℤ) : Bool :=
  decide (p.schedulerName = c.cache.schedulerName ∧ p.nodeName ≠ "") && !p.gang

def terminating (c : Coordinator ℤ) (p : Pod ℤ) : Bool := placed c p && p.deletionTimestamp.isSome

/-- The coordinator, and beside it the pods that their owners have deleted and those that were
bound by a right to reclaim. -/
structure Cluster where
  coord : Coordinator ℤ
  left : List (Pod ℤ)
  won : List (Pod ℤ)

inductive Step
  | reclaim (rt : Runtime ℤ) (now : ℤ) (failed : List String)
  | depart (pod : Pod ℤ) (now : ℤ)
  | gone (pod : Pod ℤ)
  | arrive (pod : Pod ℤ)
  | bind (pod : Pod ℤ) (node : String)

/-- The API server has accepted the deletion of some pods. -/
def markDeleted (uids : List String) (now : ℤ) (p : Pod ℤ) : Pod ℤ :=
  if p.uid ∈ uids then { p with deletionTimestamp := some now } else p

def bindTo (uid node : String) (p : Pod ℤ) : Pod ℤ :=
  if p.uid = uid then { p with nodeName := node } else p

/-- The pods that are deleted: the victims for which the call does not fail. -/
def evictVictims (S : List (Victim ℤ)) (failed : List String) : List String :=
  (S.map Victim.uid).filter fun uid => decide (uid ∉ failed)

namespace Cluster

def setPods (s : Cluster) (pods : List (Pod ℤ)) : Cluster :=
  { s with coord := { s.coord with pods := pods } }

def next (s : Cluster) : Step → Cluster
  | .reclaim rt now failed =>
    match reclaimOnce rt s.coord with
    | none => s
    | some (_, S) => s.setPods (s.coord.pods.map (markDeleted (evictVictims S failed) now))
  | .depart pod now =>
    { s.setPods (s.coord.pods.map (markDeleted [pod.uid] now)) with left := s.left ++ [pod] }
  | .gone pod =>
    { s with coord := { s.coord with
        pods := s.coord.pods.filter fun p => decide (p.uid ≠ pod.uid)
        engine := s.coord.engine.observeDeleted pod.uid } }
  | .arrive pod => s.setPods (s.coord.pods ++ [pod])
  | .bind pod node =>
    match s.coord.engine.tree with
    | none => s
    | some m =>
      match resolve m pod.placementKey with
      | .error _ => s
      | .ok leaf =>
        { s with
          coord := { s.coord with
            pods := s.coord.pods.map (bindTo pod.uid node)
            engine := (s.coord.engine.reserve pod.uid leaf (effectiveRequest pod)).commit pod.uid }
          won := if entitledToReclaim m leaf (effectiveRequest pod) then s.won ++ [pod] else s.won }

def Enabled (s : Cluster) : Step → Prop
  | .reclaim _ _ _ => True
  | .depart pod _ => pod ∈ boundPods s.coord
  | .gone pod => pod ∈ s.coord.pods ∧ terminating s.coord pod = true
  | .arrive pod => pod.uid ∉ s.coord.pods.map Pod.uid ∧ pod.uid ∉ s.coord.engine.book ∧
      pod.nodeName = "" ∧ NonNegative pod
  | .bind pod node => pod ∈ pendingPods s.coord ∧ node ≠ "" ∧
      ∀ m ∈ s.coord.engine.tree, ∃ leaf, resolve m pod.placementKey = .ok leaf ∧
        m.canFit leaf (effectiveRequest pod) = .ok true

/-- No victim is taken from a leaf on which pods are still terminating. -/
def Calm (s : Cluster) : Step → Prop
  | .reclaim rt _ _ => ∀ p S, reclaimOnce rt s.coord = some (p, S) → ∀ m ∈ s.coord.engine.tree,
      ∀ v ∈ boundPods s.coord, v.uid ∈ S.map Victim.uid → ∀ x ∈ s.coord.pods,
        terminating s.coord x = true → ∀ l, resolve m v.placementKey = .ok l →
          resolve m x.placementKey ≠ .ok l
  | _ => True

end Cluster

def cluster : Machine Cluster Step := ⟨Cluster.Enabled, Cluster.next⟩

/-- The pod is booked with its request on the leaf that placement gives it. -/
def Holds (e : Engine ℤ) (m : QueueManager ℤ) (p : Pod ℤ) : Prop :=
  ∃ leaf state, resolve m p.placementKey = .ok leaf ∧
    e.book.lookup p.uid = some ⟨state, leaf, effectiveRequest p⟩

/-- What holds of the bookings in between: every pod with a node is booked, no other pod is. -/
structure Sound (c : Coordinator ℤ) (m : QueueManager ℤ) : Prop where
  tree : c.engine.tree = some m
  distinct : (c.pods.map Pod.uid).Nodup
  booked : ∀ p ∈ c.pods, placed c p = true → Holds c.engine m p
  fresh : ∀ p ∈ c.pods, p.nodeName = "" → p.uid ∉ c.engine.book
  nonneg : ∀ p ∈ c.pods, NonNegative p

/-- What the pods that are on their way out have booked at a queue. -/
def leaving (c : Coordinator ℤ) (m : QueueManager ℤ) (l d : String) : ℤ :=
  (c.pods.map fun p => if terminating c p then podShare m l d p else 0).sum

/-- What a queue is charged for the pods that stay. -/
def staying (c : Coordinator ℤ) (m : QueueManager ℤ) (l d : String) : ℤ :=
  get (m.used l) d - leaving c m l d

section Shares
variable {m m' : QueueManager ℤ}

end Shares

section Marks
variable {c : Coordinator ℤ} {m : QueueManager ℤ}

end Marks

section Reclaims
variable {c : Coordinator ℤ} {m : QueueManager ℤ}

end Reclaims

section Bookings
variable {c : Coordinator ℤ} {m : QueueManager ℤ} {e : Engine ℤ}

lemma Holds.congr {m' : QueueManager ℤ} {e' : Engine ℤ} {p : Pod ℤ} (h : Holds e m p)
    (hix : m'.index = m.index) (hbook : e'.book.lookup p.uid = e.book.lookup p.uid) :
    Holds e' m' p := by
  obtain ⟨leaf, state, hleaf, hrec⟩ := h
  exact ⟨leaf, state, (resolve_congr hix _).trans hleaf, hbook.trans hrec⟩

end Bookings

section Balance
variable {s t : Cluster} {m : QueueManager ℤ}

end Balance

section Concrete

def lending : Coordinator ℤ :=
  populated (treeOf (twoShares 7 4 2) (by decide +kernel))
    [runningPod "b1" "team" "bob" 2, runningPod "b2" "team" "bob" 2,
      runningPod "b3" "team" "bob" 2, barePod "p" "team" "alice" 2]

def lent : QueueManager ℤ := lending.engine.tree.get (by decide +kernel)

def oneTick (s : Cluster) : Cluster := s.next (.reclaim (sortedRuntime ℤ) 0 [])

/-- The next two ticks come before the first victim is gone. Each of them measures the lender with
the pods that are leaving, and nothing stays of what it is guaranteed. -/
theorem overlapping_ticks_breach_guarantee :
    let t := oneTick (oneTick (oneTick ⟨lending, [], []⟩))
    (t.coord.pods.filter (terminating t.coord)).map Pod.uid = ["b1", "b2", "b3"] ∧
      (lent.index.lookup "root.team.b").map (fun q => get q.guaranteed "cpu") = some 2 ∧
      staying t.coord lent "root.team.b" "cpu" = 0 := by
  decide +kernel

end Concrete

end AdScheduler.ReclaimRuns
