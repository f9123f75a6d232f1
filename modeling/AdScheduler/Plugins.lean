import AdScheduler.CoordinatorCore

/-! The two scheduler plugins, after `pkg/plugins/capacity/capacity.go` and
`pkg/plugins/gang/gang.go`: the extension points that read or change the engine. The
state that PreFilter leaves for the rest of a scheduling cycle is passed explicitly. -/
namespace AdScheduler.Plugins
open KeyedMap Resources QueueTree Manager EngineCore WoundWait Requests NodeCache Placement
open Runs CoordinatorCore

/-- What PreFilter hands on to Reserve, PreBind and PostBind. -/
structure PreFilterState (V : Type*) where
  leaf : String
  req : Resource V
  gang : Bool

/-- The capacity plugin: its lookups for device claims and its settings. -/
structure Capacity (V : Type*) where
  draClaims : ClaimLookup V
  draTemplates : ClaimLookup V
  draFailClosed : Bool
  sharedPool : Bool

inductive CapacityStatus (V : Type*)
  | treeNotBuilt
  | placement (err : PlacementErr)
  | dra (err : DRAErr)
  | maxApplications (leaf : String) (maxApps : ℤ)
  | limitMaxApplications (leaf : String) (serviceAccounts : List String) (maxApps : ℤ)
  | limitMaxResources (leaf : String) (serviceAccounts : List String)
  | queue (err : QueueErr)
  | overMax (leaf : String) (req : Resource V)
  | stateMissing
  | treeGone
  | overMaxAtBind (leaf : String)
  | nodeLacksRoom (nodeName : String)

def saInSet (sa : String) (set : List String) : Bool := set.any fun s => decide (s = "*" ∨ s = sa)

variable {V : Type*} [CommRing V] [LinearOrder V]

/-- A cap on applications is set and would be passed by one more. -/
def atMaxApplications (apps : Finset String) (pod : Pod V) (maxApps : ℤ) : Bool :=
  decide (0 < maxApps ∧ pod.appID ∉ apps ∧ maxApps ≤ apps.card)

/-- The loop over the limits of a leaf that cover the pod. -/
def checkLimits (c : Coordinator V) (leaf : String) (pod : Pod V) (req : Resource V) :
    List (Limit V) → Except (CapacityStatus V) Unit
  | [] => .ok ()
  | lim :: rest =>
    if saInSet pod.placementKey.serviceAccount lim.serviceAccounts = false then
      checkLimits c leaf pod req rest
    else
      let usage := c.leafLimitUsage leaf lim.serviceAccounts pod.uid
      if atMaxApplications usage.1 pod lim.maxApplications then
        .error (.limitMaxApplications leaf lim.serviceAccounts lim.maxApplications)
      else if !isEmpty lim.maxResources && !fitIn (add usage.2 req) lim.maxResources then
        .error (.limitMaxResources leaf lim.serviceAccounts)
      else checkLimits c leaf pod req rest

/-- The caps on applications and on groups of service accounts. -/
def checkApplications (c : Coordinator V) (t : QueueManager V) (leaf : String) (pod : Pod V)
    (req : Resource V) : Except (CapacityStatus V) Unit :=
  match t.index.lookup leaf with
  | none => .ok ()
  | some q =>
    if atMaxApplications (c.appIDsOnLeaf leaf pod.uid) pod q.maxApplications then
      .error (.maxApplications leaf q.maxApplications)
    else checkLimits c leaf pod req q.limits

namespace Capacity

/-- The request PreFilter books: the containers' and the devices'. -/
def request (cap : Capacity V) (pod : Pod V) : Except DRAErr (Resource V) :=
  match podDeviceRequests pod cap.draClaims cap.draTemplates cap.draFailClosed with
  | .error err => .error err
  | .ok dra =>
    .ok (if isEmpty dra then effectiveRequest pod else add (effectiveRequest pod) dra)

lemma get_request (cap : Capacity V) {pod : Pod V} {req : Resource V}
    (h : cap.request pod = .ok req) : ∃ devices,
      podDeviceRequests pod cap.draClaims cap.draTemplates cap.draFailClosed = .ok devices ∧
      ∀ d, get req d = get (effectiveRequest pod) d + get devices d := by
  unfold request at h
  split at h
  · cases h
  · rename_i devices hdevices
    cases h
    refine ⟨devices, hdevices, fun d => ?_⟩
    split_ifs with hempty
    · rw [(isEmpty_iff devices).mp hempty d, add_zero]
    · exact get_add _ _ d

/-- Resolve the leaf and gate on the headroom of the queue. A gang member passes
without the gates. -/
def preFilter (cap : Capacity V) (c : Coordinator V) (pod : Pod V) :
    Except (CapacityStatus V) (PreFilterState V) :=
  match c.engine.tree with
  | none => .error .treeNotBuilt
  | some t =>
    match resolve t pod.placementKey with
    | .error err => .error (.placement err)
    | .ok leaf =>
      match cap.request pod with
      | .error err => .error (.dra err)
      | .ok req =>
        if pod.gang then .ok ⟨leaf, req, true⟩
        else
          match checkApplications c t leaf pod req with
          | .error status => .error status
          | .ok () =>
            match t.canFit leaf req with
            | .error err => .error (.queue err)
            | .ok false => .error (.overMax leaf req)
            | .ok true => .ok ⟨leaf, req, false⟩

/-- Everything a pod that passes PreFilter went through. -/
structure Passes (cap : Capacity V) (c : Coordinator V) (pod : Pod V) (s : PreFilterState V)
    (t : QueueManager V) : Prop where
  tree : c.engine.tree = some t
  leaf : resolve t pod.placementKey = .ok s.leaf
  req : cap.request pod = .ok s.req
  gang : s.gang = pod.gang
  fits : pod.gang = false → t.canFit s.leaf s.req = .ok true

lemma preFilter_ok {cap : Capacity V} {c : Coordinator V} {pod : Pod V} {s : PreFilterState V}
    (h : cap.preFilter c pod = .ok s) : ∃ t, Passes cap c pod s t := by
  unfold preFilter at h
  split at h
  · cases h
  rename_i t ht
  split at h
  · cases h
  rename_i leaf hleaf
  split at h
  · cases h
  rename_i req hreq
  split_ifs at h with hg
  · cases h
    exact ⟨t, ht, hleaf, hreq, hg.symm, fun hn => absurd hg (by simp [hn])⟩
  split at h
  · cases h
  split at h
  · cases h
  · cases h
  · cases h
    rename_i hfit
    exact ⟨t, ht, hleaf, hreq, by simpa using hg, fun _ => hfit⟩

/-- Book the pod; a gang member is skipped. -/
def reserve (c : Coordinator V) (state : Option (PreFilterState V)) (pod : Pod V) :
    Coordinator V × Except (CapacityStatus V) Unit :=
  match state with
  | none => (c, .error .stateMissing)
  | some s =>
    if s.gang then (c, .ok ())
    else ({ c with engine := c.engine.reserve pod.uid s.leaf s.req }, .ok ())

def unreserve (c : Coordinator V) (pod : Pod V) : Coordinator V :=
  { c with engine := c.engine.unreserve pod.uid }

/-- The last check before binding: the queue, and in a shared pool the node, may have
filled up since Reserve. -/
def preBind (cap : Capacity V) (c : Coordinator V) (state : Option (PreFilterState V))
    (nodeName : String) : Except (CapacityStatus V) Unit :=
  match state with
  | none => .error .stateMissing
  | some s =>
    if s.gang then .ok ()
    else
      match c.engine.tree with
      | none => .error .treeGone
      | some t =>
        match t.withinMax s.leaf with
        | .error err => .error (.queue err)
        | .ok false => .error (.overMaxAtBind s.leaf)
        | .ok true =>
          match c.cache.nodes.lookup nodeName with
          | none => .ok ()
          | some n =>
            if cap.sharedPool && !fitIn s.req n.available then .error (.nodeLacksRoom nodeName)
            else .ok ()

/-- Commit the booking of a bound pod; a gang member is skipped. -/
def postBind (c : Coordinator V) (state : Option (PreFilterState V)) (pod : Pod V) :
    Coordinator V :=
  if state.elim false PreFilterState.gang then c
  else { c with engine := c.engine.commit pod.uid }

end Capacity

/-- The answer of Permit: go on, go on and release waiting members, or wait. -/
inductive PermitResult (V : Type*)
  | success
  | release (members : List (Pod V))
  | wait (waiting minMember timeout : ℤ)

inductive GangStatus
  | notObserved (key : String)
  | gangFailed (key : String)
  | treeNotBuilt
  | queueNotFound (explicit : String)
  | placement (err : PlacementErr)
  | wrongLeaf (leaf key bound : String)
  | engine (err : EngineErr)
  | awaitingHeadroom (key : String)
  deriving DecidableEq

/-- Durations are counted in nanoseconds. -/
def second : ℤ := 1000000000

namespace Gang

def hasRootPrefix (path : String) : Bool := (rootName ++ ".").toList.isPrefixOf path.toList

/-- The leaf of a gang: the queue its pod group names, or the member's own. -/
def resolveLeaf (c : Coordinator V) (pod : Pod V) (explicit : String) : Except GangStatus String :=
  match c.engine.tree with
  | none => .error .treeNotBuilt
  | some t =>
    if explicit ≠ "" then
      let path := if hasRootPrefix explicit then explicit else rootName ++ "." ++ explicit
      if path ∈ t.index then .ok path else .error (.queueNotFound explicit)
    else
      match resolve t pod.placementKey with
      | .error err => .error (.placement err)
      | .ok leaf => .ok leaf

def gangPriority (pod : Pod V) : ℤ := pod.priority.getD 0

/-- Admit the gang of a member on its leaf, or let the member of an admitted gang
through if it belongs on that leaf. -/
def admitMember (c : Coordinator V) (pod : Pod V) (key : String) (info : GangInfo V) (now : ℤ) :
    Coordinator V × Except GangStatus Unit :=
  match resolveLeaf c pod info.queue with
  | .error status => (c, .error status)
  | .ok leaf =>
    match c.engine.gangLeaf key with
    | some bound => (c, if leaf ≠ bound then .error (.wrongLeaf leaf key bound) else .ok ())
    | none =>
      let wwkey : WoundWaitKey := ⟨gangPriority pod, info.age, key⟩
      let r := c.engine.admitGangWW leaf key info.minResources wwkey now
      ({ c with engine := r.1 }, match r.2 with
        | .error err => .error (.engine err)
        | .ok false => .error (.awaitingHeadroom key)
        | .ok true => .ok ())

def preEnqueue (c : Coordinator V) (pod : Pod V) (now : ℤ) :
    Coordinator V × Except GangStatus Unit :=
  match pod.gangKey with
  | none => (c, .ok ())
  | some (key, name) =>
    match c.gangInfo pod.ns name with
    | none =>
      (c, if c.engine.isGangAdmitted key then .ok () else .error (.notObserved key))
    | some info =>
      if info.failed then (c, .error (.gangFailed key))
      else if strictlyGtZero info.minResources = false then (c, .ok ())
      else admitMember c pod key info now

/-- All that PreEnqueue can do: nothing, or one admission call for the gang of the pod,
with what its registered group declares. -/
inductive Effect (c : Coordinator V) (pod : Pod V) (now : ℤ) : Coordinator V → Prop
  | none : Effect c pod now c
  | admission {key name leaf : String} {info : GangInfo V} (member : pod.gangKey = some (key, name))
      (registered : c.gangInfo pod.ns name = some info) (live : info.failed = false)
      (positive : strictlyGtZero info.minResources = true)
      (leaf_ok : resolveLeaf c pod info.queue = .ok leaf) (new : c.engine.gangLeaf key = .none) :
      Effect c pod now { c with engine := (c.engine.admitGangWW leaf key info.minResources
        ⟨gangPriority pod, info.age, key⟩ now).1 }

lemma preEnqueue_effect (c : Coordinator V) (pod : Pod V) (now : ℤ) :
    Effect c pod now (preEnqueue c pod now).1 := by
  unfold preEnqueue
  split
  · exact .none
  rename_i key name hkey
  split
  · exact .none
  rename_i info hinfo
  split_ifs with hfailed hpos
  · exact .none
  · exact .none
  unfold admitMember
  split
  · exact .none
  rename_i leaf hleaf
  split
  · exact .none
  · rename_i hnew
    exact .admission hkey hinfo (by simpa using hfailed) (by simpa using hpos) hleaf hnew

lemma reaches_preEnqueue (c : Coordinator V) (pod : Pod V) (now : ℤ) :
    machine.Reaches c.engine (preEnqueue c pod now).1.engine := by
  generalize (preEnqueue c pod now).1 = c', preEnqueue_effect c pod now = heffect
  cases heffect with
  | none => exact .refl _ _
  | @admission key name leaf info =>
    exact .step (a := Call.admitGangWW leaf key info.minResources
      ⟨gangPriority pod, info.age, key⟩ now) trivial

lemma preEnqueue_rest (c : Coordinator V) (pod : Pod V) (now : ℤ) :
    (preEnqueue c pod now).1 = { c with engine := (preEnqueue c pod now).1.engine } := by
  generalize (preEnqueue c pod now).1 = c', preEnqueue_effect c pod now = heffect
  cases heffect <;> rfl

lemma preEnqueue_ok {c : Coordinator V} {pod : Pod V} {now : ℤ} {key name : String}
    (h : (preEnqueue c pod now).2 = .ok ()) (hkey : pod.gangKey = some (key, name)) :
    key ∈ (preEnqueue c pod now).1.engine.gangBook ∨
      ∃ info, c.gangInfo pod.ns name = some info ∧ strictlyGtZero info.minResources = false := by
  unfold preEnqueue at h ⊢
  rw [hkey] at h ⊢
  dsimp only at h ⊢
  split at h
  · rename_i hinfo
    split_ifs at h with hin
    exact .inl (of_decide_eq_true hin)
  rename_i info hinfo
  split_ifs at h ⊢ with hfailed hpos
  · exact .inr ⟨info, hinfo, hpos⟩
  unfold admitMember at h ⊢
  split at h
  · cases h
  rename_i leaf hleaf
  split at h
  · rename_i bound hbound
    obtain ⟨gb, hgb, -⟩ := Option.map_eq_some_iff.mp hbound
    exact .inl (Finmap.mem_of_lookup_eq_some hgb)
  · rename_i hnew
    dsimp only at h
    split at h
    · cases h
    · cases h
    · rename_i htrue
      exact .inl (admitGangWW_admitted htrue)

/-- Hold a member back until enough members of its gang wait, then let all of them go. -/
def permit (c : Coordinator V) (waitingPods : List (Pod V)) (pod : Pod V) : PermitResult V :=
  match pod.gangKey with
  | none => .success
  | some (key, name) =>
    match c.gangInfo pod.ns name with
    | none => .success
    | some info =>
      if info.minMember ≤ 1 then .success
      else
        let members := waitingPods.filter fun w => decide (w.gangKey.map Prod.fst = some key)
        let waiting : ℤ := 1 + members.length
        if info.minMember ≤ waiting then .release members
        else .wait waiting info.minMember
          (if 0 < info.timeoutSecs then info.timeoutSecs * second else c.engine.gangScheduleTimeout)

end Gang

end AdScheduler.Plugins
