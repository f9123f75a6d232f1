import AdScheduler.Resources

/-! Pods and what they ask for, after `pkg/util/identity.go`, `pkg/resource/request.go`
and `pkg/resource/dra.go`. Of a Kubernetes object only the fields that the scheduler
reads are kept. -/
namespace AdScheduler.Requests
open KeyedMap Resources

/-- A quantity by its two integer readings. -/
structure Quantity (V : Type*) where
  value : V
  milliValue : V
  deriving DecidableEq

abbrev ResourceList (V : Type*) := Map String (Quantity V)

inductive ContainerRestartPolicy
  | always
  | onFailure
  | never
  deriving DecidableEq

structure Container (V : Type*) where
  requests : ResourceList V
  restartPolicy : Option ContainerRestartPolicy

inductive PodPhase
  | pending
  | running
  | succeeded
  | failed
  | unknown
  deriving DecidableEq

/-- A reference of a pod to a claim for devices, by name or through a template. -/
structure PodResourceClaim where
  resourceClaimName : Option String
  resourceClaimTemplateName : Option String

structure Pod (V : Type*) where
  uid : String
  ns : String
  annotations : Map String String
  labels : Map String String
  creationTimestamp : ℤ
  deletionTimestamp : Option ℤ
  serviceAccountName : String
  schedulerName : String
  nodeName : String
  priority : Option ℤ
  phase : PodPhase
  containers : List (Container V)
  initContainers : List (Container V)
  overhead : Option (ResourceList V)
  resourceClaims : List PodResourceClaim

def appIDAnnotation : String := "arenadata.io/app-id"
def podGroupAnnotation : String := "arenadata.io/pod-group"
def appIDLabel : String := "applicationId"
def sparkAppSelector : String := "spark-app-selector"
def defaultSAName : String := "default"

/-- `m[k]` of a string map: an absent key reads as the empty string. -/
def textAt (m : Map String String) (k : String) : String := (m.lookup k).getD ""

structure Identity where
  ns : String
  serviceAccount : String
  deriving DecidableEq

variable {V : Type*}

namespace Pod

def terminal (pod : Pod V) : Bool := decide (pod.phase = .succeeded ∨ pod.phase = .failed)

def placementKey (pod : Pod V) : Identity :=
  ⟨pod.ns, if pod.serviceAccountName = "" then defaultSAName else pod.serviceAccountName⟩

def appID (pod : Pod V) : String :=
  if textAt pod.annotations appIDAnnotation ≠ "" then textAt pod.annotations appIDAnnotation
  else if textAt pod.labels appIDLabel ≠ "" then textAt pod.labels appIDLabel
  else if textAt pod.labels sparkAppSelector ≠ "" then textAt pod.labels sparkAppSelector
  else "ad-" ++ pod.ns ++ "-" ++ pod.uid

def gang (pod : Pod V) : Bool := decide (textAt pod.annotations podGroupAnnotation ≠ "")

/-- The key of the pod's gang and the name of its pod group, if it is a member. -/
def gangKey (pod : Pod V) : Option (String × String) :=
  let name := textAt pod.annotations podGroupAnnotation
  if name = "" then none else some (pod.ns ++ "/" ++ name, name)

lemma gangKey_eq {pod : Pod V} {key name : String} (h : pod.gangKey = some (key, name)) :
    key = pod.ns ++ "/" ++ name := by
  unfold gangKey at h
  dsimp only at h
  split_ifs at h
  cases h
  rfl

end Pod

/-- A pending pod for concrete runs, with one container that asks for millicores. -/
def barePod (uid ns serviceAccountName : String) (cpu : ℤ) : Pod ℤ where
  uid := uid
  ns := ns
  annotations := ∅
  labels := ∅
  creationTimestamp := 0
  deletionTimestamp := none
  serviceAccountName := serviceAccountName
  schedulerName := "ad-scheduler"
  nodeName := ""
  priority := none
  phase := .pending
  containers := [⟨Finmap.singleton "cpu" ⟨0, cpu⟩, none⟩]
  initContainers := []
  overhead := none
  resourceClaims := []

section Quantities
variable [CommRing V] [LinearOrder V]

/-- CPU is counted in millicores, everything else in whole units. -/
def quantityToUnit (name : String) (q : Quantity V) : V :=
  if name = "cpu" then q.milliValue else q.value

/-- Dimensions of value zero are left out. -/
def fromResourceList (rl : ResourceList V) : Resource V :=
  prune (tabulate rl.keys fun name => (rl.lookup name).elim 0 (quantityToUnit name))

/-- The same conversion for the vectors of the custom resources. -/
def fromQuantityMap (m : ResourceList V) : Resource V := fromResourceList m

lemma get_fromQuantityMap (m : ResourceList V) (d : String) :
    get (fromQuantityMap m) d = (m.lookup d).elim 0 (quantityToUnit d) := by
  rw [fromQuantityMap, fromResourceList, get_prune, get_tabulate]
  split_ifs with hd
  · rfl
  · rw [Finmap.lookup_eq_none.mpr fun hin => hd (Finmap.mem_keys.mpr hin)]
    rfl

/-- A number of thousandths; as whole units it is rounded up. -/
def newMilliQuantity (v : ℤ) : Quantity ℤ := ⟨-(-v / 1000), v⟩

def newQuantity (v : ℤ) : Quantity ℤ := ⟨v, v * 1000⟩

/-- A resource vector as it is written into a custom resource. -/
def toQuantityMap (r : Resource ℤ) : ResourceList ℤ :=
  tabulate r.keys fun name =>
    if name = "cpu" then newMilliQuantity (get r name) else newQuantity (get r name)

lemma quantityToUnit_toQuantityMap {r : Resource ℤ} {d : String} (h : d ∈ r) :
    ((toQuantityMap r).lookup d).elim 0 (quantityToUnit d) = get r d := by
  rw [toQuantityMap, lookup_tabulate, if_pos (Finmap.mem_keys.mpr h)]
  by_cases hd : d = "cpu"
  · simp [hd, quantityToUnit, newMilliQuantity]
  · simp [hd, quantityToUnit, newQuantity]

/-- The running totals of the pass over the init containers. -/
structure InitScan (V : Type*) where
  reqs : Resource V
  restartableInit : Resource V
  initPeak : Resource V

/-- One init container. A native sidecar runs on beside the app containers; an
ordinary one runs alone, next to the sidecars started before it. -/
def InitScan.step (s : InitScan V) (c : Container V) : InitScan V :=
  let cr := fromResourceList c.requests
  if c.restartPolicy = some .always then
    let restartableInit := add s.restartableInit cr
    ⟨add s.reqs cr, restartableInit, Resources.max s.initPeak restartableInit⟩
  else { s with initPeak := Resources.max s.initPeak (add s.restartableInit cr) }

/-- What a pod counts for, computed as the kube-scheduler does. -/
def effectiveRequest (pod : Pod V) : Resource V :=
  let reqs := pod.containers.foldl (fun acc c => add acc (fromResourceList c.requests)) ∅
  let scan := pod.initContainers.foldl InitScan.step ⟨reqs, ∅, ∅⟩
  let eff := Resources.max scan.reqs scan.initPeak
  match pod.overhead with
  | none => eff
  | some overhead => add eff (fromResourceList overhead)

end Quantities

section Devices

def draDimPrefix : String := "dra/"

inductive DeviceAllocationMode
  | unset
  | exactCount
  | all
  deriving DecidableEq

/-- A request for devices of one class. The alternatives of `firstAvailable` carry the
same three fields. -/
structure ExactDeviceRequest (V : Type*) where
  deviceClassName : String
  allocationMode : DeviceAllocationMode
  count : V

structure DeviceRequest (V : Type*) where
  name : String
  exactly : Option (ExactDeviceRequest V)
  firstAvailable : List (ExactDeviceRequest V)

structure ResourceClaimSpec (V : Type*) where
  requests : List (DeviceRequest V)

/-- A lookup by namespace and name; `none` when it is not configured. -/
abbrev ClaimLookup (V : Type*) := Option (String → String → Except String (ResourceClaimSpec V))

inductive DRAErr
  | noClaimLookup (name : String)
  | resolvingClaim (ns name err : String)
  | noTemplateLookup (name : String)
  | resolvingTemplate (ns name err : String)
  | firstAvailable (reqName : String)
  | allocationModeAll (reqName : String)
  deriving DecidableEq

/-- The claim a reference stands for; a reference without a name stands for none. -/
def resolveClaimSpec (ns : String) (prc : PodResourceClaim) (claim template : ClaimLookup V) :
    Except DRAErr (Option (ResourceClaimSpec V)) :=
  let claimName := prc.resourceClaimName.getD ""
  let templateName := prc.resourceClaimTemplateName.getD ""
  if claimName ≠ "" then
    match claim with
    | none => .error (.noClaimLookup claimName)
    | some lookup =>
      match lookup ns claimName with
      | .error err => .error (.resolvingClaim ns claimName err)
      | .ok spec => .ok (some spec)
  else if templateName ≠ "" then
    match template with
    | none => .error (.noTemplateLookup templateName)
    | some lookup =>
      match lookup ns templateName with
      | .error err => .error (.resolvingTemplate ns templateName err)
      | .ok spec => .ok (some spec)
  else .ok none

variable [CommRing V] [LinearOrder V]

def addExact (out : Resource V) (r : ExactDeviceRequest V) (reqName : String) (failClosed : Bool) :
    Except DRAErr (Resource V) :=
  if r.deviceClassName = "" then .ok out
  else if r.allocationMode = .all then
    if failClosed then .error (.allocationModeAll reqName) else .ok out
  else
    let count := if r.count ≤ 0 then 1 else r.count
    let dim := draDimPrefix ++ r.deviceClassName
    .ok (out.insert dim (get out dim + count))

def addDeviceRequest (out : Resource V) (req : DeviceRequest V) (failClosed : Bool) :
    Except DRAErr (Resource V) :=
  match req.exactly, req.firstAvailable with
  | some r, _ => addExact out r req.name failClosed
  | none, sr :: _ =>
    if failClosed then .error (.firstAvailable req.name) else addExact out sr req.name failClosed
  | none, [] => .ok out

/-- The loop over the device requests of one claim. -/
def addDeviceRequests (failClosed : Bool) :
    List (DeviceRequest V) → Resource V → Except DRAErr (Resource V)
  | [], out => .ok out
  | req :: rest, out =>
    match addDeviceRequest out req failClosed with
    | .error err => .error err
    | .ok out' => addDeviceRequests failClosed rest out'

def addClaims (ns : String) (claim template : ClaimLookup V) (failClosed : Bool) :
    List PodResourceClaim → Resource V → Except DRAErr (Resource V)
  | [], out => .ok out
  | prc :: rest, out =>
    match resolveClaimSpec ns prc claim template with
    | .error err =>
      if failClosed then .error err else addClaims ns claim template failClosed rest out
    | .ok none => addClaims ns claim template failClosed rest out
    | .ok (some spec) =>
      match addDeviceRequests failClosed spec.requests out with
      | .error err => .error err
      | .ok out' => addClaims ns claim template failClosed rest out'

/-- The device counts of a pod, one dimension for each device class. -/
def podDeviceRequests (pod : Pod V) (claim template : ClaimLookup V) (failClosed : Bool) :
    Except DRAErr (Resource V) :=
  (addClaims pod.ns claim template failClosed pod.resourceClaims ∅).map prune

/-- The request the code looks at: the exact one, or the head of the alternatives. -/
def DeviceRequest.asked (req : DeviceRequest V) : Option (ExactDeviceRequest V) :=
  req.exactly.or req.firstAvailable.head?

/-- The request names a class and a number of devices. -/
def ExactDeviceRequest.countable (r : ExactDeviceRequest V) : Bool :=
  decide (r.deviceClassName ≠ "" ∧ r.allocationMode ≠ .all)

/-- The device requests behind the claims of a pod that resolve. -/
def deviceAsks (pod : Pod V) (claim template : ClaimLookup V) : List (ExactDeviceRequest V) :=
  pod.resourceClaims.flatMap (claimAsks pod.ns)
where
  claimAsks (ns : String) (prc : PodResourceClaim) : List (ExactDeviceRequest V) :=
    match resolveClaimSpec ns prc claim template with
    | .ok (some spec) => spec.requests.filterMap DeviceRequest.asked
    | _ => []

/-- What a request adds in one dimension. A count that is not positive stands for one. -/
def ExactDeviceRequest.amount (r : ExactDeviceRequest V) (d : String) : V :=
  if r.countable = true ∧ d = draDimPrefix ++ r.deviceClassName then
    if r.count ≤ 0 then 1 else r.count
  else 0

lemma addExact_get {out out' : Resource V} {r : ExactDeviceRequest V} {reqName : String}
    {failClosed : Bool} (h : addExact out r reqName failClosed = .ok out') (d : String) :
    get out' d = get out d + r.amount d := by
  unfold addExact at h
  simp only [ExactDeviceRequest.amount, ExactDeviceRequest.countable, decide_eq_true_eq]
  by_cases hclass : r.deviceClassName = ""
  · rw [if_pos hclass] at h
    cases h
    simp [hclass]
  rw [if_neg hclass] at h
  by_cases hall : r.allocationMode = .all
  · rw [if_pos hall] at h
    split_ifs at h
    cases h
    simp [hall]
  rw [if_neg hall] at h
  cases h
  rw [get_insert]
  by_cases hd : d = draDimPrefix ++ r.deviceClassName
  · simp [hclass, hall, hd]
  · simp [hd]

lemma addDeviceRequest_get {out out' : Resource V} {req : DeviceRequest V} {failClosed : Bool}
    (h : addDeviceRequest out req failClosed = .ok out') (d : String) :
    get out' d = get out d + req.asked.elim 0 (ExactDeviceRequest.amount · d) := by
  unfold addDeviceRequest at h
  split at h
  · rename_i r he
    rw [DeviceRequest.asked, he]
    exact addExact_get h d
  · rename_i sr rest he hf
    split_ifs at h
    rw [DeviceRequest.asked, he, hf]
    exact addExact_get h d
  · rename_i he hf
    cases h
    rw [DeviceRequest.asked, he, hf]
    exact (add_zero _).symm

lemma addDeviceRequests_get {failClosed : Bool} {reqs : List (DeviceRequest V)}
    {out out' : Resource V} (h : addDeviceRequests failClosed reqs out = .ok out') (d : String) :
    get out' d =
      get out d + ((reqs.filterMap DeviceRequest.asked).map
        (ExactDeviceRequest.amount · d)).sum := by
  induction reqs generalizing out with
  | nil =>
    cases h
    simp
  | cons req rest ih =>
    rw [addDeviceRequests] at h
    split at h
    · cases h
    · rename_i mid hmid
      rw [ih h, addDeviceRequest_get hmid d]
      cases hask : req.asked <;> simp [hask, add_assoc]

lemma addClaims_get {ns : String} {claim template : ClaimLookup V} {failClosed : Bool}
    {claims : List PodResourceClaim} {out out' : Resource V}
    (h : addClaims ns claim template failClosed claims out = .ok out') (d : String) :
    get out' d = get out d +
      ((claims.flatMap (deviceAsks.claimAsks claim template ns)).map
        (ExactDeviceRequest.amount · d)).sum := by
  induction claims generalizing out with
  | nil =>
    cases h
    simp
  | cons prc rest ih =>
    rw [List.flatMap_cons, List.map_append, List.sum_append, deviceAsks.claimAsks]
    rw [addClaims] at h
    generalize resolveClaimSpec ns prc claim template = resolved at h ⊢
    rcases resolved with err | _ | spec
    · dsimp only at h
      split_ifs at h
      simpa using ih h
    · simpa using ih h
    · dsimp only at h ⊢
      split at h
      · cases h
      · rename_i mid hmid
        rw [ih h, addDeviceRequests_get hmid d, add_assoc]

lemma podDeviceRequests_get {pod : Pod V} {claim template : ClaimLookup V} {failClosed : Bool}
    {out : Resource V} (h : podDeviceRequests pod claim template failClosed = .ok out)
    (d : String) :
    get out d = ((deviceAsks pod claim template).map (ExactDeviceRequest.amount · d)).sum := by
  unfold podDeviceRequests at h
  cases hraw : addClaims pod.ns claim template failClosed pod.resourceClaims ∅ with
  | error err => simp [hraw, Except.map] at h
  | ok raw =>
    rw [hraw] at h
    cases h
    rw [get_prune, addClaims_get hraw d, get_empty, zero_add]
    rfl

end Devices

end AdScheduler.Requests
