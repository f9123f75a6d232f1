import AdScheduler.Requests

/-! The accounting of nodes, after `pkg/cache/node.go` and `pkg/cache/cache.go`. -/
namespace AdScheduler.NodeCache
open KeyedMap Resources Requests

structure Node (V : Type*) where
  inPool : Bool
  allocatable : Resource V
  foreign : Resource V
  ours : Resource V

structure Cache (V : Type*) where
  schedulerName : String
  nodes : Map String (Node V)

variable {V : Type*} [CommRing V] [LinearOrder V]

def clampNonNegative (r : Resource V) : Resource V :=
  tabulate (r.keys.filter fun d => 0 < get r d) (get r)

namespace Node

/-- What is left on the node, with an over-subscribed dimension read as zero. -/
def available (n : Node V) : Resource V :=
  clampNonNegative (sub (sub n.allocatable n.foreign) n.ours)

def addForeign (req : Resource V) (n : Node V) : Node V := { n with foreign := add n.foreign req }

def removeForeign (req : Resource V) (n : Node V) : Node V :=
  { n with foreign := sub n.foreign req }

def addOurs (req : Resource V) (n : Node V) : Node V := { n with ours := add n.ours req }

def removeOurs (req : Resource V) (n : Node V) : Node V := { n with ours := sub n.ours req }

end Node

namespace Cache

/-- Add a node, or refresh it and keep its tallies. -/
def upsertNode (c : Cache V) (name : String) (allocatable : ResourceList V) (inPool : Bool) :
    Cache V :=
  let node := match c.nodes.lookup name with
    | some n => { n with inPool := inPool, allocatable := fromResourceList allocatable }
    | none => ⟨inPool, fromResourceList allocatable, ∅, ∅⟩
  { c with nodes := c.nodes.insert name node }

def removeNode (c : Cache V) (name : String) : Cache V := { c with nodes := c.nodes.erase name }

omit [CommRing V] [LinearOrder V] in
def isOurs (c : Cache V) (pod : Pod V) : Bool := decide (pod.schedulerName = c.schedulerName)

/-- Change the node a pod is bound to, if the cache knows it. -/
def onNode (c : Cache V) (pod : Pod V) (fn : Node V → Node V) : Cache V :=
  if pod.nodeName = "" then c
  else
    match c.nodes.lookup pod.nodeName with
    | none => c
    | some n => { c with nodes := c.nodes.insert pod.nodeName (fn n) }

omit [CommRing V] [LinearOrder V] in
lemma onNode_schedulerName (c : Cache V) (pod : Pod V) (fn : Node V → Node V) :
    (c.onNode pod fn).schedulerName = c.schedulerName := by
  unfold onNode
  split_ifs
  · rfl
  · split <;> rfl

def onPodBound (c : Cache V) (pod : Pod V) : Cache V :=
  let req := effectiveRequest pod
  c.onNode pod (if c.isOurs pod then Node.addOurs req else Node.addForeign req)

@[simp] lemma onPodBound_schedulerName (c : Cache V) (pod : Pod V) :
    (c.onPodBound pod).schedulerName = c.schedulerName :=
  onNode_schedulerName c pod _

def onPodDeleted (c : Cache V) (pod : Pod V) : Cache V :=
  let req := effectiveRequest pod
  c.onNode pod (if c.isOurs pod then Node.removeOurs req else Node.removeForeign req)

end Cache

end AdScheduler.NodeCache
