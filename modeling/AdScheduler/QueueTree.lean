import AdScheduler.Resources

/-! The queue hierarchy and its assembly from a declarative specification, after
`pkg/queue/queue.go`, `acl.go` and the building half of `manager.go`. A `*Queue`
pointer is modelled by the path of the queue, which is its key in the index. -/
namespace AdScheduler.QueueTree
open KeyedMap Resources

def rootName : String := "root"

/-- A submit or admin access list; the zero value inherits from the parent. -/
structure ACL where
  all : Bool
  namespaces : Finset String
  deriving DecidableEq

/-- The non-empty runs of characters between separators. -/
def fieldsFunc (separator : Char → Bool) : List Char → List Char → List String
  | [], [] => []
  | run, [] => [String.ofList run.reverse]
  | [], c :: cs => if separator c then fieldsFunc separator [] cs else fieldsFunc separator [c] cs
  | run, c :: cs =>
      if separator c then String.ofList run.reverse :: fieldsFunc separator [] cs
      else fieldsFunc separator (c :: run) cs

def parseACL (s : String) : ACL :=
  let toks := fieldsFunc (fun c => c == ' ' || c == ',' || c == '\t') [] s.toList
  ⟨toks.contains "*", (toks.filter (· != "*")).toFinset⟩

def ACL.isEmpty (a : ACL) : Bool := !a.all && decide (a.namespaces = ∅)

def ACL.allows (a : ACL) (ns : String) : Bool := a.all || decide (ns ∈ a.namespaces)

/-- A sub-cap for a group of service accounts within a leaf. -/
structure Limit (V : Type*) where
  serviceAccounts : List String
  maxApplications : ℤ
  maxResources : Resource V

structure Spec (V : Type*) where
  name : String
  guaranteed : Resource V
  max : Resource V
  serviceAccounts : List String
  default : Bool
  maxApplications : ℤ
  limits : List (Limit V)
  submitACL : String
  adminACL : String
  fence : Bool
  children : List (Spec V)

/-- One node of the hierarchy without its usage vectors: what `build` writes and
nothing changes afterwards. -/
structure Queue (V : Type*) where
  name : String
  path : String
  parent : Option String
  children : Map String String
  guaranteed : Resource V
  max : Resource V
  serviceAccounts : List String
  defaultLeaf : Bool
  maxApplications : ℤ
  limits : List (Limit V)
  submitACL : ACL
  adminACL : ACL
  fence : Bool

abbrev Index (V : Type*) := Map String (Queue V)

/-- The errors of the queue package. Where the text also names a dimension, the
dimension depends on the iteration order of a map and is left out. -/
inductive QueueErr
  | emptyName (under : String)
  | dottedName (name : String)
  | negativeGuaranteed (name : String)
  | negativeMax (name : String)
  | duplicatePath (path : String)
  | duplicateChild (child path : String)
  | maxExceedsParent (child path : String)
  | guaranteedExceeds (path : String)
  | placementOnInner (path : String)
  | placementWithoutNamespace (path : String)
  | twoDefaults (ns prev path : String)
  | twoLeaves (ns sa prev path : String)
  | unknownQueue (path : String)
  | notLeaf (path : String)
  | emptyGangID
  | minResourcesNotPositive (gangID : String)
  | gangNotLeaf (leaf : String)
  | neverFits (gangID leaf : String)
  deriving DecidableEq

variable {V : Type*} [CommRing V] [LinearOrder V]

def nonNegative (r : Resource V) : Bool := decide (∀ d ∈ r.keys, ¬ get r d < 0)

/-- The child raises no ceiling that the parent bounds. -/
def maxWithinParent (childMax parentMax : Resource V) : Bool :=
  decide (∀ d ∈ parentMax.keys, d ∈ childMax.keys → ¬ get parentMax d < get childMax d)

/-- No bounded dimension of the guarantee is exceeded by the children's sum. -/
def guaranteedCovers (guaranteed sumGuar : Resource V) : Bool :=
  decide (∀ d ∈ guaranteed.keys, ¬ get guaranteed d < get sumGuar d)

def pathOf (q : Option (Queue V)) : String := q.elim "<root>" Queue.path

def childPath (parent : Option (Queue V)) (name : String) : String :=
  match parent with
  | none => name
  | some p => p.path ++ "." ++ name

def newQueue (parent : Option (Queue V)) (spec : Spec V) : Queue V where
  name := spec.name
  path := childPath parent spec.name
  parent := parent.map Queue.path
  children := ∅
  guaranteed := spec.guaranteed
  max := spec.max
  serviceAccounts := spec.serviceAccounts
  defaultLeaf := spec.default
  maxApplications := spec.maxApplications
  limits := spec.limits
  submitACL := parseACL spec.submitACL
  adminACL := parseACL spec.adminACL
  fence := spec.fence

mutual

/-- Add a queue and its subtree to the index. -/
def build (parent : Option (Queue V)) (ix : Index V) :
    Spec V → Except QueueErr (Index V × Queue V)
  | spec@⟨_, _, _, _, _, _, _, _, _, _, children⟩ =>
    if spec.name = "" then .error (.emptyName (pathOf parent))
    else if '.' ∈ spec.name.toList then .error (.dottedName spec.name)
    else if nonNegative spec.guaranteed = false then .error (.negativeGuaranteed spec.name)
    else if nonNegative spec.max = false then .error (.negativeMax spec.name)
    else
      let q := newQueue parent spec
      if q.path ∈ ix then .error (.duplicatePath q.path)
      else
        match buildChildren q ∅ (ix.insert q.path q) children with
        | .error e => .error e
        | .ok (ix', q', sumGuar) =>
          if guaranteedCovers q'.guaranteed sumGuar then .ok (ix', q')
          else .error (.guaranteedExceeds q.path)

/-- The loop over the children of `q`, with the sum of their guarantees. -/
def buildChildren (q : Queue V) (sumGuar : Resource V) (ix : Index V) :
    List (Spec V) → Except QueueErr (Index V × Queue V × Resource V)
  | [] => .ok (ix, q, sumGuar)
  | cs :: rest =>
    if cs.name ∈ q.children then .error (.duplicateChild cs.name q.path)
    else if maxWithinParent cs.max q.max = false then .error (.maxExceedsParent cs.name q.path)
    else
      match build (some q) ix cs with
      | .error e => .error e
      | .ok (ix', child) =>
        let q' := { q with children := q.children.insert cs.name child.path }
        buildChildren q' (add sumGuar child.guaranteed) (ix'.insert q.path q') rest

end

def Queue.isLeaf (q : Queue V) : Bool := decide (q.children = ∅)

def Queue.isDefaultLeaf (q : Queue V) : Bool := q.defaultLeaf || q.serviceAccounts.contains "*"

end AdScheduler.QueueTree
