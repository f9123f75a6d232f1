import AdScheduler.TreeShape
import AdScheduler.Outcomes

/-! The queue manager, after `pkg/queue/manager.go` and `pkg/queue/gang.go`. The
index is what `newManager` built and never changes; the three usage vectors of a
queue are kept beside it under the queue's path. Calls that can fail return the
new manager together with their result. -/
namespace AdScheduler.Manager
open KeyedMap Resources QueueTree TreeShape

structure Usage (V : Type*) where
  allocated : Resource V
  allocating : Resource V
  pending : Resource V

structure GangHold (V : Type*) where
  leaf : String
  held : Resource V

structure QueueManager (V : Type*) [CommRing V] [LinearOrder V] where
  index : Index V
  wf : WellFormed index
  usage : String → Usage V
  gangs : Map String (GangHold V)

variable {V : Type*} [CommRing V] [LinearOrder V]

def namespaceOf (path : String) : String :=
  match path.toList.splitOn '.' with
  | r :: ns :: _ => if String.ofList r = rootName then String.ofList ns else ""
  | _ => ""

/-- What the placement scan has met so far. -/
structure PlacementSeen where
  saLeaf : Map (String × String) String
  defaultLeaf : Map String String

/-- The loop over the service accounts of one leaf. -/
def checkServiceAccounts (ns path : String) :
    List String → PlacementSeen → Except QueueErr PlacementSeen
  | [], seen => .ok seen
  | sa :: rest, seen =>
    if sa = "*" then checkServiceAccounts ns path rest seen
    else
      let next := { seen with saLeaf := seen.saLeaf.insert (ns, sa) path }
      match seen.saLeaf.lookup (ns, sa) with
      | some prev =>
        if prev ≠ path then .error (.twoLeaves ns sa prev path)
        else checkServiceAccounts ns path rest next
      | none => checkServiceAccounts ns path rest next

def checkDefault (ns : String) (q : Queue V) (seen : PlacementSeen) :
    Except QueueErr PlacementSeen :=
  if q.isDefaultLeaf then
    match seen.defaultLeaf.lookup ns with
    | some prev => .error (.twoDefaults ns prev q.path)
    | none => .ok { seen with defaultLeaf := seen.defaultLeaf.insert ns q.path }
  else .ok seen

def checkPlacement (q : Queue V) (seen : PlacementSeen) : Except QueueErr PlacementSeen :=
  if q.serviceAccounts = [] ∧ q.defaultLeaf = false then .ok seen
  else if q.isLeaf = false then .error (.placementOnInner q.path)
  else if namespaceOf q.path = "" then .error (.placementWithoutNamespace q.path)
  else
    match checkDefault (namespaceOf q.path) q seen with
    | .error e => .error e
    | .ok seen' => checkServiceAccounts (namespaceOf q.path) q.path q.serviceAccounts seen'

def all (ix : Index V) : List (Queue V) := (sortedKeys ix).filterMap fun p => ix.lookup p

/-- The routing invariants across the tree. The source scans in map order, which
decides only which of several violations is reported; here the scan is by path. -/
def validatePlacement (ix : Index V) : Except QueueErr Unit :=
  scan (all ix) ⟨∅, ∅⟩
where
  scan : List (Queue V) → PlacementSeen → Except QueueErr Unit
    | [], _ => .ok ()
    | q :: rest, seen =>
      match checkPlacement q seen with
      | .error e => .error e
      | .ok seen' => scan rest seen'

/-- Build a manager from a root specification, whose name is forced to the root's. -/
def newManager (root : Spec V) : Except QueueErr (QueueManager V) :=
  match h : build none ∅ { root with name := rootName } with
  | .error e => .error e
  | .ok r =>
    match validatePlacement r.1 with
    | .error e => .error e
    | .ok () => .ok ⟨r.1, build_wellFormed h, fun _ => ⟨∅, ∅, ∅⟩, ∅⟩

/-- A tree as it comes out of `newManager`: nothing is booked. -/
structure Fresh (m : QueueManager V) : Prop where
  usage : ∀ n, m.usage n = ⟨∅, ∅, ∅⟩
  gangs : m.gangs = ∅

lemma newManager_fresh {root : Spec V} {m : QueueManager V} (h : newManager root = .ok m) :
    Fresh m := by
  unfold newManager at h
  split at h
  · cases h
  · split at h
    · cases h
    · cases h
      exact ⟨fun _ => rfl, rfl⟩

def treeOf (spec : Spec V) (h : (newManager spec).isOk = true) : QueueManager V :=
  match newManager spec, h with
  | .ok m, _ => m

lemma newManager_treeOf (spec : Spec V) (h : (newManager spec).isOk = true) :
    newManager spec = .ok (treeOf spec h) := by
  unfold treeOf
  generalize newManager spec = x at h
  cases x with
  | error e => cases h
  | ok m => rfl

def bareSpec (name : String) (max : Resource V) (children : List (Spec V)) : Spec V :=
  ⟨name, ∅, max, [], false, 0, [], "", "", false, children⟩

/-- A small tree for concrete runs: two leaves under the root, the first one with a
maximum of its own. -/
def twoLeaves (rootMax leafMax : ℤ) : Spec ℤ :=
  bareSpec rootName (Finmap.singleton "cpu" rootMax)
    [bareSpec "a" (Finmap.singleton "cpu" leafMax) [], bareSpec "b" ∅ []]

namespace Usage

def reserve (r : Resource V) (u : Usage V) : Usage V :=
  { u with allocating := add u.allocating r }

def unreserve (r : Resource V) (u : Usage V) : Usage V :=
  { u with allocating := sub u.allocating r }

def commit (r : Resource V) (u : Usage V) : Usage V :=
  { u with allocating := sub u.allocating r, allocated := add u.allocated r }

def allocate (r : Resource V) (u : Usage V) : Usage V :=
  { u with allocated := add u.allocated r }

def release (r : Resource V) (u : Usage V) : Usage V :=
  { u with allocated := sub u.allocated r }

def addPending (r : Resource V) (u : Usage V) : Usage V :=
  { u with pending := add u.pending r }

def subPending (r : Resource V) (u : Usage V) : Usage V :=
  { u with pending := sub u.pending r }

def read (u : Usage V) (d : String) : V × V × V :=
  (get u.allocated d, get u.allocating d, get u.pending d)

end Usage

namespace QueueManager

/-- The paths from a queue to the root. -/
def up (m : QueueManager V) (p : String) : List String := (pathUp m.index p).map Queue.path

def isLeafPath (m : QueueManager V) (p : String) : Bool :=
  (m.index.lookup p).elim false Queue.isLeaf

/-- What counts against the maximum of a queue. -/
def used (m : QueueManager V) (p : String) : Resource V :=
  add (m.usage p).allocated (m.usage p).allocating

def walkUp (m : QueueManager V) (p : String) (fn : Usage V → Usage V) : QueueManager V :=
  { m with usage := RollUp.along (m.up p) fn m.usage }

/-- No queue on the way to the root is pushed over a maximum it declares. -/
def fits (m : QueueManager V) (p : String) (request : Resource V) : Bool :=
  (pathUp m.index p).all fun n =>
    decide (∀ d ∈ request.keys, d ∈ n.max.keys →
      ¬ get n.max d - get (m.used n.path) d < get request d)

/-- The request alone is within every maximum on the way to the root. -/
def fitsMax (m : QueueManager V) (p : String) (request : Resource V) : Bool :=
  (pathUp m.index p).all fun n =>
    decide (∀ d ∈ request.keys, d ∈ n.max.keys → ¬ get n.max d < get request d)

def canFit (m : QueueManager V) (path : String) (request : Resource V) : Except QueueErr Bool :=
  match m.index.lookup path with
  | none => .error (.unknownQueue path)
  | some _ => .ok (m.fits path request)

/-- The leaf and all its ancestors are at or under their maximum. -/
def withinMax (m : QueueManager V) (path : String) : Except QueueErr Bool :=
  match m.index.lookup path with
  | none => .error (.unknownQueue path)
  | some _ => .ok ((pathUp m.index path).all fun n =>
      decide (∀ d ∈ n.max.keys, ¬ get n.max d < get (m.used n.path) d))

/-- Usage is booked at leaves only. -/
def mutate (m : QueueManager V) (path : String) (fn : Usage V → Usage V) :
    QueueManager V × Except QueueErr Unit :=
  match m.index.lookup path with
  | none => (m, .error (.unknownQueue path))
  | some q => if q.isLeaf then (m.walkUp path fn, .ok ()) else (m, .error (.notLeaf path))

def reserve (m : QueueManager V) (path : String) (r : Resource V) := m.mutate path (Usage.reserve r)

def unreserve (m : QueueManager V) (path : String) (r : Resource V) :=
  m.mutate path (Usage.unreserve r)

def commit (m : QueueManager V) (path : String) (r : Resource V) := m.mutate path (Usage.commit r)

def allocate (m : QueueManager V) (path : String) (r : Resource V) :=
  m.mutate path (Usage.allocate r)

def release (m : QueueManager V) (path : String) (r : Resource V) := m.mutate path (Usage.release r)

def addPending (m : QueueManager V) (path : String) (r : Resource V) :=
  m.mutate path (Usage.addPending r)

def subPending (m : QueueManager V) (path : String) (r : Resource V) :=
  m.mutate path (Usage.subPending r)

/-- Admit a gang as a whole or not at all. -/
def admitGang (m : QueueManager V) (leaf gangID : String) (minResources : Resource V) :
    QueueManager V × Except QueueErr Bool :=
  if gangID = "" then (m, .error .emptyGangID)
  else if strictlyGtZero minResources = false then (m, .error (.minResourcesNotPositive gangID))
  else if gangID ∈ m.gangs then (m, .ok true)
  else
    match m.index.lookup leaf with
    | none => (m, .error (.unknownQueue leaf))
    | some q =>
      if q.isLeaf = false then (m, .error (.gangNotLeaf leaf))
      else if m.fitsMax leaf minResources = false then (m, .error (.neverFits gangID leaf))
      else if m.fits leaf minResources = false then (m, .ok false)
      else
        ({ m.walkUp leaf (Usage.reserve minResources) with
            gangs := m.gangs.insert gangID ⟨leaf, minResources⟩ }, .ok true)

/-- Release a gang's reservation; releasing an unknown gang does nothing. -/
def releaseGang (m : QueueManager V) (gangID : String) : QueueManager V :=
  match m.gangs.lookup gangID with
  | none => m
  | some h =>
    let m' := if h.leaf ∈ m.index ∧ isEmpty h.held = false then
      m.walkUp h.leaf (Usage.unreserve h.held) else m
    { m' with gangs := m.gangs.erase gangID }

end QueueManager

lemma Fresh.used {m : QueueManager V} (h : Fresh m) (p d : String) : get (m.used p) d = 0 := by
  simp [QueueManager.used, h.usage]

end AdScheduler.Manager
