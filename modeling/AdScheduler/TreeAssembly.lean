import AdScheduler.Manager
import AdScheduler.Requests

/-! From the Queue custom resources to the specification of the tree, after
`pkg/admission/rules.go` and `pkg/controller/queue/build.go`, with the envelopes that
`pkg/framework/coordinator.go` derives from the ResourceQuotas. -/
namespace AdScheduler.TreeAssembly
open KeyedMap Resources QueueTree Manager Requests

structure QueueLimit (V : Type*) where
  serviceAccounts : List String
  maxApplications : ℤ
  maxResources : ResourceList V
  deriving DecidableEq

structure QueueCR (V : Type*) where
  ns : String
  name : String
  parent : String
  capacityMode : String
  guaranteed : ResourceList V
  max : ResourceList V
  preemptionPolicy : Option String
  maxApplications : ℤ
  submitACL : String
  adminACL : String
  serviceAccounts : List String
  default : Bool
  limits : List (QueueLimit V)
  deriving DecidableEq

/-- One admission rule; the expression for the API server is left out. -/
structure QueueRule (V : Type*) where
  name : String
  message : String
  valid : QueueCR V → Bool

variable {V : Type*}

def queueRules : List (QueueRule V) :=
  [⟨"self-parent", "a Queue cannot be its own parent",
      fun q => decide (q.parent = "" ∨ q.parent ≠ q.name)⟩,
    ⟨"dotted-parent", "spec.parent must be a bare Queue name in the same namespace (no dots)",
      fun q => decide ('.' ∉ q.parent.toList)⟩,
    ⟨"absolute-capacity", "only capacityMode=absolute is supported in the MVP (decision q13)",
      fun q => decide (q.capacityMode = "" ∨ q.capacityMode = "absolute")⟩,
    ⟨"no-default-sa", "the default ServiceAccount must not be mapped to a queue (decision q21)",
      fun q => decide ("default" ∉ q.serviceAccounts)⟩]

/-- The rule a queue violates, with the message for it. -/
structure RuleViolation where
  ns : String
  queue : String
  rule : String
  message : String
  deriving DecidableEq

def validateQueue (q : QueueCR V) : Except RuleViolation Unit :=
  match queueRules.find? fun r => !r.valid q with
  | none => .ok ()
  | some r => .error ⟨q.ns, q.name, r.name, r.message⟩

inductive BuildErr
  | duplicate (ns name : String)
  | unknownParent (ns name parent : String)
  | cycle (ns name : String)
  | unreachable (ns : String) (count : ℕ)
  -- no error of the code: the recursion is cut off, or a name has no queue
  | unexpected (name : String)
  deriving DecidableEq

/-- The fence policy is compared without regard to case. -/
def isFencePolicy (p : Option String) : Bool :=
  p.elim false fun policy => decide (policy.toList.map Char.toLower = "fence".toList)

section Spec
variable [CommRing V] [LinearOrder V]

def crLimits (limits : List (QueueLimit V)) : List (Limit V) :=
  limits.map fun l => ⟨l.serviceAccounts, l.maxApplications, fromQuantityMap l.maxResources⟩

/-- The specification of one queue, given its children's. -/
def crToSpec (cr : QueueCR V) (children : List (Spec V)) : Spec V where
  name := cr.name
  guaranteed := fromQuantityMap cr.guaranteed
  max := fromQuantityMap cr.max
  serviceAccounts := cr.serviceAccounts
  default := cr.default
  maxApplications := cr.maxApplications
  limits := crLimits cr.limits
  submitACL := cr.submitACL
  adminACL := cr.adminACL
  fence := isFencePolicy cr.preemptionPolicy
  children := children

def indexByName (ns : String) :
    List (QueueCR V) → Map String (QueueCR V) → Except BuildErr (Map String (QueueCR V))
  | [], byName => .ok byName
  | cr :: rest, byName =>
    if cr.name ∈ byName then .error (.duplicate ns cr.name)
    else indexByName ns rest (byName.insert cr.name cr)

/-- The names under each parent, in the order of the list; the parent of a top queue is
the empty name. -/
def groupByParent (ns : String) (byName : Map String (QueueCR V)) :
    List (QueueCR V) → Map String (List String) → Except BuildErr (Map String (List String))
  | [], childrenOf => .ok childrenOf
  | cr :: rest, childrenOf =>
    if cr.parent ≠ "" ∧ cr.parent ∉ byName then .error (.unknownParent ns cr.name cr.parent)
    else
      let siblings := (childrenOf.lookup cr.parent).getD []
      groupByParent ns byName rest (childrenOf.insert cr.parent (siblings ++ [cr.name]))

def sortedStrings (names : List String) : List String := names.insertionSort (· ≤ ·)

/-- The loop over the children of a queue, with the set of the queues built so far. -/
def buildEach (build : Finset String → String → Except BuildErr (Spec V × Finset String)) :
    List String → Finset String → Except BuildErr (List (Spec V) × Finset String)
  | [], built => .ok ([], built)
  | name :: rest, built =>
    match build built name with
    | .error err => .error err
    | .ok (spec, built') =>
      match buildEach build rest built' with
      | .error err => .error err
      | .ok (specs, built'') => .ok (spec :: specs, built'')

/-- One queue with its subtree. The names being visited are the queue's ancestors. The
recursion never goes deeper than there are queues: a longer chain repeats a name. -/
def buildQueue (ns : String) (byName : Map String (QueueCR V))
    (childrenOf : Map String (List String)) :
    ℕ → Finset String → Finset String → String → Except BuildErr (Spec V × Finset String)
  | 0, _, _, name => .error (.unexpected name)
  | depth + 1, visiting, built, name =>
    if name ∈ visiting then .error (.cycle ns name)
    else
      let children := sortedStrings ((childrenOf.lookup name).getD [])
      let build := buildQueue ns byName childrenOf depth (insert name visiting)
      match buildEach build children built with
      | .error err => .error err
      | .ok (specs, built') =>
        match byName.lookup name with
        | none => .error (.unexpected name)
        | some cr => .ok (crToSpec cr specs, insert name built')

/-- The synthetic node of a namespace over the queues of that namespace. -/
def buildNamespace (ns : String) (crs : List (QueueCR V)) (envelope : Resource V) :
    Except BuildErr (Spec V) :=
  match indexByName ns crs ∅ with
  | .error err => .error err
  | .ok byName =>
    match groupByParent ns byName crs ∅ with
    | .error err => .error err
    | .ok childrenOf =>
      let tops := sortedStrings ((childrenOf.lookup "").getD [])
      let build := buildQueue ns byName childrenOf (crs.length + 1) ∅
      match buildEach build tops ∅ with
      | .error err => .error err
      | .ok (specs, built) =>
        if built.card ≠ byName.keys.card then
          .error (.unreachable ns (byName.keys.card - built.card))
        else .ok (bareSpec ns envelope specs)

/-- The valid queues by namespace, in the order of the list. -/
def groupByNamespace (queues : List (QueueCR V)) : Map String (List (QueueCR V)) :=
  (queues.filter fun q => (validateQueue q).isOk).foldl
    (fun byNS q => byNS.insert q.ns ((byNS.lookup q.ns).getD [] ++ [q])) ∅

/-- The root specification of all namespaces, or the first error. -/
def buildSpec (queues : List (QueueCR V)) (envelopes : Map String (Resource V)) :
    Except BuildErr (Spec V) :=
  let byNS := groupByNamespace queues
  match (sortedKeys byNS).mapM fun ns =>
      buildNamespace ns ((byNS.lookup ns).getD []) ((envelopes.lookup ns).getD ∅) with
  | .error err => .error err
  | .ok nodes => .ok (bareSpec rootName ∅ nodes)

end Spec

section Envelopes
variable [CommRing V] [LinearOrder V]

structure ResourceQuota (V : Type*) where
  ns : String
  specHard : ResourceList V
  statusHard : ResourceList V

/-- The dimension a hard limit caps; empty for a key that is not a compute request. -/
def envelopeDim (key : String) : String :=
  if key = "cpu" ∨ key = "requests.cpu" then "cpu"
  else if key = "memory" ∨ key = "requests.memory" then "memory"
  else if "requests.".toList.isPrefixOf key.toList then
    String.ofList (key.toList.drop "requests.".toList.length)
  else ""

/-- The tighter of two capacity vectors; an absent dimension is unbounded. -/
def minCap (a b : Resource V) : Resource V :=
  tabulate (a.keys ∪ b.keys) fun d =>
    if d ∈ a.keys ∧ (d ∈ b.keys → ¬ get b d < get a d) then get a d else get b d

/-- The caps of one quota. Keys for the same dimension leave the tightest one, so the
order of the visits does not matter. -/
def quotaEnvelope (hard : ResourceList V) : Resource V :=
  (sortedKeys hard).foldl tighten ∅
where
  tighten (env : Resource V) (name : String) : Resource V :=
    match hard.lookup name with
    | none => env
    | some q =>
      let dim := envelopeDim name
      if dim = "" then env
      else
        let v := if dim = "cpu" then q.milliValue else q.value
        if dim ∈ env ∧ ¬ v < get env dim then env else env.insert dim v

/-- The envelope of each namespace from the quotas in it. -/
def envelopes (quotas : List (ResourceQuota V)) : Map String (Resource V) :=
  quotas.foldl collect ∅
where
  collect (out : Map String (Resource V)) (rq : ResourceQuota V) : Map String (Resource V) :=
    let env := quotaEnvelope (if rq.statusHard.keys = ∅ then rq.specHard else rq.statusHard)
    if env.keys = ∅ then out
    else
      match out.lookup rq.ns with
      | none => out.insert rq.ns env
      | some cur => out.insert rq.ns (minCap cur env)

end Envelopes

inductive AssemblyErr
  | build (e : BuildErr)
  | tree (e : QueueErr)
  deriving DecidableEq

variable [CommRing V] [LinearOrder V]

/-- The tree of the listed queues, empty of usage. A queue that violates a rule is
excluded; any other fault keeps the last good tree. -/
def assemble (queues : List (QueueCR V)) (quotas : List (ResourceQuota V)) :
    Except AssemblyErr (QueueManager V) :=
  match buildSpec (queues.filter fun q => (validateQueue q).isOk) (envelopes quotas) with
  | .error err => .error (.build err)
  | .ok spec =>
    match newManager spec with
    | .error err => .error (.tree err)
    | .ok mgr => .ok mgr

lemma assemble_newManager {queues : List (QueueCR V)} {quotas : List (ResourceQuota V)}
    {mgr : QueueManager V} (h : assemble queues quotas = .ok mgr) :
    ∃ spec, newManager spec = .ok mgr := by
  unfold assemble at h
  split at h
  · cases h
  · rename_i spec _
    refine ⟨spec, ?_⟩
    split at h
    · cases h
    · cases h
      assumption

/-- A Queue for concrete runs: a top queue of its namespace with a maximum in millicores
and the service accounts it takes. -/
def bareQueue (ns name : String) (max : ℤ) (serviceAccounts : List String) : QueueCR ℤ where
  ns := ns
  name := name
  parent := ""
  capacityMode := ""
  guaranteed := ∅
  max := Finmap.singleton "cpu" ⟨0, max⟩
  preemptionPolicy := none
  maxApplications := 0
  submitACL := ""
  adminACL := ""
  serviceAccounts := serviceAccounts
  default := false
  limits := []

end AdScheduler.TreeAssembly
