import AdScheduler.PodGroupStatus
import AdScheduler.Reconciling

/-! The demand for nodes of gangs that do not fit, after `pkg/framework/provreq.go`. Every tick of
the leader upserts a PodTemplate and a ProvisioningRequest for each gang that lacks nodes, marks
the waiting members, and deletes the objects of ours that no gang wants any more. Each call to
the API server may fail on its own. -/
namespace AdScheduler.ProvisioningRequests
open KeyedMap Resources Requests CoordinatorCore PodGroupStatus Reconciling Runs

def provReqClassAtomic : String := "best-effort-atomic-scale-up.autoscaling.x-k8s.io"
def provReqNamePrefix : String := "ad-gang-"
def provReqConsumeAnnotation : String := "autoscaling.x-k8s.io/consume-provisioning-request"
def provReqManagedBy : String := "scheduler.arenadata.io/managed-by"
def provReqGangLabel : String := "scheduler.arenadata.io/gang"
def provReqOwnerVal : String := "ad-scheduler"

/-- An object by namespace and name. No namespace has a slash. -/
structure ObjectKey where
  ns : String
  name : String
  valid : '/' ∉ ns.toList
  deriving DecidableEq

def ObjectKey.path (k : ObjectKey) : String := k.ns ++ "/" ++ k.name

inductive ConditionStatus
  | true
  | false
  | unknown
  deriving DecidableEq

structure PodCondition where
  type : String
  status : ConditionStatus
  deriving DecidableEq

/-- A pod of the store with its name, its conditions, and its node selector, affinity and
tolerations, which are only ever copied. -/
structure ListedPod (S : Type*) where
  pod : Pod ℤ
  name : String
  conditions : List PodCondition
  scheduling : S

variable {S : Type*}

def podUnschedulable (p : ListedPod S) : Bool :=
  p.conditions.any fun cd => decide (cd.type = "PodScheduled" ∧ cd.status = .false)

structure View (S : Type*) where
  coord : Coordinator ℤ
  listed : List (ListedPod S)
  shown : coord.pods = listed.map ListedPod.pod
  autoscaleDemand : Bool
  client : Bool
  dynClient : Bool

def View.on (v : View S) : Bool := v.autoscaleDemand && v.client && v.dynClient

structure PodTemplate (S : Type*) where
  labels : Map String String
  scheduling : S
  containerName : String
  image : String
  requests : ResourceList ℤ

structure PodSet where
  podTemplateRef : String
  count : ℤ
  deriving DecidableEq

structure ProvisioningRequest where
  labels : Map String String
  provisioningClassName : String
  podSets : List PodSet

structure Api (S : Type*) where
  templates : Map ObjectKey (PodTemplate S)
  requests : Map ObjectKey ProvisioningRequest

def managed (labels : Map String String) : Bool :=
  decide (labels.lookup provReqManagedBy = some provReqOwnerVal)

def ownLabels (gang : String) : Map String String :=
  (Finmap.singleton provReqManagedBy provReqOwnerVal).insert provReqGangLabel gang

/-- The cpu and memory of a member. A member that asks for no cpu counts with 100 millicores. -/
def memberRequests (p : Pod ℤ) : ResourceList ℤ :=
  let ask := toQuantityMap (effectiveRequest p)
  let out := tabulate (ask.keys.filter fun dim => dim = "cpu" ∨ dim = "memory")
    fun dim => (ask.lookup dim).getD (newQuantity 0)
  if "cpu" ∈ out then out else out.insert "cpu" (newMilliQuantity 100)

def View.pendingGangMembers (v : View S) (ns name : String) : List (ListedPod S) :=
  v.listed.filter fun p =>
    decide (p.pod.ns = ns ∧ p.pod.nodeName = "" ∧ p.pod.deletionTimestamp = none ∧
      textAt p.pod.annotations podGroupAnnotation = name) && podUnschedulable p

/-- What one gang lacks: how many members are still to be placed, and the members that wait, the
first of which the template is made after. -/
structure Demand (S : Type*) where
  object : ObjectKey
  gang : String
  count : ℤ
  rep : ListedPod S
  others : List (ListedPod S)

def Demand.members (d : Demand S) : List (ListedPod S) := d.rep :: d.others

lemma splitGangKey_ns (key : String) : '/' ∉ (splitGangKey key).1.toList := by
  unfold splitGangKey
  dsimp only
  split
  · simp
  · rw [List.span_eq_takeWhile_dropWhile, String.toList_ofList]
    intro hslash
    simpa using List.mem_takeWhile_imp hslash

def objectOf (key : String) : ObjectKey where
  ns := (splitGangKey key).1
  name := provReqNamePrefix ++ (splitGangKey key).2
  valid := splitGangKey_ns key

/-- The guards of the loop over the registered gangs. -/
def View.demand (v : View S) (key : String) (info : GangInfo ℤ) : Option (Demand S) :=
  let ns := (splitGangKey key).1
  let name := (splitGangKey key).2
  if info.failed then none
  else
    match gangProgress v.coord ns name with
    | none => none
    | some (placed, minMember) =>
      if minMember ≤ 0 then none
      else if minMember - placed ≤ 0 then none
      else
        match v.pendingGangMembers ns name with
        | [] => none
        | rep :: others => some ⟨objectOf key, name, minMember - placed, rep, others⟩

def Demand.template (d : Demand S) : PodTemplate S where
  labels := ownLabels d.gang
  scheduling := d.rep.scheduling
  containerName := "gang-member"
  image := "registry.k8s.io/pause:3.10"
  requests := memberRequests d.rep.pod

def Demand.podSets (d : Demand S) : List PodSet := [⟨d.object.name, d.count⟩]

def Demand.request (d : Demand S) : ProvisioningRequest where
  labels := ownLabels d.gang
  provisioningClassName := provReqClassAtomic
  podSets := d.podSets

inductive Call
  | getTemplate (k : ObjectKey)
  | createTemplate (k : ObjectKey)
  | updateTemplate (k : ObjectKey)
  | getRequest (k : ObjectKey)
  | createRequest (k : ObjectKey)
  | updateRequest (k : ObjectKey)
  | patchPod (ns name prName : String)
  | listRequests
  | deleteRequest (k : ObjectKey)
  | listTemplates
  | deleteTemplate (k : ObjectKey)

/-- A tick under way: the stores, the objects to keep, and the writes that were sent. -/
structure Pass (S : Type*) where
  api : Api S
  desired : Finset String
  writes : List Call

section Tick
variable (reply : Call → Reply)

/-- Get the template, then create or replace it. The flag says that no error came back. -/
def ensurePodTemplate (d : Demand S) (p : Pass S) : Pass S × Bool :=
  let k := d.object
  if reply (.getTemplate k) ≠ .done then (p, false)
  else if k ∈ p.api.templates then
    let r := reply (.updateTemplate k)
    ({ p with
      api := { p.api with templates := put r k d.template p.api.templates }
      writes := p.writes ++ [.updateTemplate k] }, decide (r = .done))
  else
    let r := reply (.createTemplate k)
    ({ p with
      api := { p.api with templates := put r k d.template p.api.templates }
      writes := p.writes ++ [.createTemplate k] }, r.created)

/-- Get the request, then create it or bring its pod sets up to date. A request that is up to date
is not written. -/
def ensureProvisioningRequest (d : Demand S) (p : Pass S) : Pass S × Bool :=
  let k := d.object
  if reply (.getRequest k) ≠ .done then (p, false)
  else
    match p.api.requests.lookup k with
    | none =>
      let r := reply (.createRequest k)
      ({ p with
        api := { p.api with requests := put r k d.request p.api.requests }
        writes := p.writes ++ [.createRequest k] }, r.created)
    | some cur =>
      if cur.podSets = d.podSets then (p, true)
      else
        let r := reply (.updateRequest k)
        ({ p with
          api := { p.api with requests := put r k { cur with podSets := d.podSets } p.api.requests }
          writes := p.writes ++ [.updateRequest k] }, decide (r = .done))

/-- The patches for the members that do not name the request yet; errors are only logged. -/
def markMembersConsumeProvReq (d : Demand S) (p : Pass S) : Pass S :=
  { p with writes := p.writes ++ (d.members.filter fun m =>
      decide (textAt m.pod.annotations provReqConsumeAnnotation ≠ d.object.name)).map fun m =>
        .patchPod m.pod.ns m.name d.object.name }

/-- One gang of the loop. The objects are kept even if a call fails. -/
def publish (v : View S) (p : Pass S) (entry : String × GangInfo ℤ) : Pass S :=
  match v.demand entry.1 entry.2 with
  | none => p
  | some d =>
    let kept := { p with desired := insert d.object.path p.desired }
    let templated := ensurePodTemplate reply d kept
    if templated.2 = false then templated.1
    else
      let requested := ensureProvisioningRequest reply d templated.1
      if requested.2 = false then requested.1 else markMembersConsumeProvReq d requested.1

def unwanted {O : Type*} (labels : O → Map String String) (desired : Finset String)
    (order : List ObjectKey) (m : Map ObjectKey O) : List ObjectKey :=
  ((entries order m).filter fun ko => managed (labels ko.2) && decide (ko.1.path ∉ desired)).map
    Prod.fst

def gcProvisioningRequests (requestOrder templateOrder : List ObjectKey) (p : Pass S) : Pass S :=
  let keep (k : ObjectKey) := decide (k.path ∈ p.desired)
  let listed := decide (reply .listRequests = .done)
  let listed' := decide (reply .listTemplates = .done)
  { p with
    api :=
      { requests := if listed then sweep (fun r => managed r.labels) keep
          (fun k => reply (.deleteRequest k)) requestOrder p.api.requests else p.api.requests
        templates := if listed' then sweep (fun t => managed t.labels) keep
          (fun k => reply (.deleteTemplate k)) templateOrder p.api.templates else p.api.templates }
    writes := p.writes
      ++ (if listed then (unwanted ProvisioningRequest.labels p.desired requestOrder
        p.api.requests).map .deleteRequest else [])
      ++ (if listed' then (unwanted PodTemplate.labels p.desired templateOrder
        p.api.templates).map .deleteTemplate else []) }

end Tick

/-- Everything outside that decides a tick: what the coordinator shows, how the calls end, and the
orders in which the maps and the lists come. -/
structure Tick (S : Type*) where
  view : View S
  reply : Call → Reply
  gangOrder : List String
  requestOrder : List ObjectKey
  templateOrder : List ObjectKey

namespace Tick

def published (tk : Tick S) (api : Api S) : Pass S :=
  (entries tk.gangOrder tk.view.coord.gangs).foldl (publish tk.reply tk.view) ⟨api, ∅, []⟩

def syncProvisioningRequests (tk : Tick S) (api : Api S) : Pass S :=
  if tk.view.on then
    gcProvisioningRequests tk.reply tk.requestOrder tk.templateOrder (tk.published api)
  else ⟨api, ∅, []⟩

/-- Every gang and every listed object is visited once. -/
def Legal (tk : Tick S) (api : Api S) : Prop :=
  Visits tk.gangOrder tk.view.coord.gangs ∧
    Visits tk.requestOrder (tk.published api).api.requests ∧
    Visits tk.templateOrder (tk.published api).api.templates

end Tick

def ticks : Machine (Api S) (Tick S) :=
  ⟨fun api tk => tk.Legal api, fun api tk => (tk.syncProvisioningRequests api).api⟩

def View.Demands (v : View S) (d : Demand S) : Prop :=
  ∃ key info, v.coord.gangs.lookup key = some info ∧ v.demand key info = some d

/-- The tick runs and wants the objects of this key. -/
def View.Wants (v : View S) (k : ObjectKey) : Prop := v.on = true ∧ ∃ d, v.Demands d ∧ d.object = k

section Keys

lemma ObjectKey.path_injective : Function.Injective ObjectKey.path := by
  rintro ⟨ns, name, hns⟩ ⟨ns', name', hns'⟩ h
  have hsplit := congrArg splitGangKey h
  rw [ObjectKey.path, ObjectKey.path, splitGangKey_key hns, splitGangKey_key hns'] at hsplit
  cases hsplit
  rfl

lemma objectOf_injective {key key' : String} (h : objectOf key = objectOf key') :
    splitGangKey key = splitGangKey key' := by
  rw [objectOf, objectOf, ObjectKey.mk.injEq] at h
  have hname : (splitGangKey key).2 = (splitGangKey key').2 := by simpa using h.2
  exact Prod.ext h.1 hname

lemma View.demand_eq_some {v : View S} {key : String} {info : GangInfo ℤ} {d : Demand S}
    (h : v.demand key info = some d) :
    ∃ placed minMember, gangProgress v.coord (splitGangKey key).1 (splitGangKey key).2
        = some (placed, minMember) ∧ d.object = objectOf key ∧ d.gang = (splitGangKey key).2 ∧
      d.count = minMember - placed ∧ 0 < d.count ∧
      v.pendingGangMembers (splitGangKey key).1 (splitGangKey key).2 = d.members := by
  unfold View.demand at h
  dsimp only at h
  split_ifs at h
  split at h
  · cases h
  rename_i placed minMember hprogress
  split_ifs at h with hmin hcount
  split at h
  · cases h
  rename_i rep others hmembers
  cases h
  exact ⟨placed, minMember, hprogress, rfl, rfl, rfl, by dsimp only; omega, hmembers⟩

lemma View.Demands.unique {v : View S} {d d' : Demand S} (h : v.Demands d) (h' : v.Demands d')
    (hobject : d.object = d'.object) : d = d' := by
  obtain ⟨key, info, -, hd⟩ := h
  obtain ⟨key', info', -, hd'⟩ := h'
  obtain ⟨placed, minMember, hprogress, hobj, hgang, hcount, -, hmembers⟩ := View.demand_eq_some hd
  obtain ⟨placed', minMember', hprogress', hobj', hgang', hcount', -, hmembers'⟩ :=
    View.demand_eq_some hd'
  rw [hobj, hobj'] at hobject
  have hkey := objectOf_injective hobject
  rw [← hkey, hprogress, Option.some.injEq, Prod.mk.injEq] at hprogress'
  rw [← hkey, hmembers] at hmembers'
  obtain ⟨object, gang, count, rep, others⟩ := d
  obtain ⟨object', gang', count', rep', others'⟩ := d'
  cases hmembers'
  simp_all

end Keys

section Writes
variable {reply : Call → Reply}

def Demand.upsert (d : Demand S) : Option ProvisioningRequest → ProvisioningRequest
  | none => d.request
  | some cur => { cur with podSets := d.podSets }

lemma ensurePodTemplate_spec (reply : Call → Reply) (d : Demand S) (p : Pass S) :
    ∃ r, (ensurePodTemplate reply d p).1.api
        = ⟨put r d.object d.template p.api.templates, p.api.requests⟩ ∧
      (ensurePodTemplate reply d p).1.desired = p.desired ∧
      ((∀ call, reply call = .done) → r = .done ∧ (ensurePodTemplate reply d p).2 = true) := by
  unfold ensurePodTemplate
  dsimp only
  split_ifs with hget hmem
  · exact ⟨.refused, rfl, rfl, fun hdone => absurd (hdone _) hget⟩
  · exact ⟨_, rfl, rfl, fun hdone => ⟨hdone _, by simp [hdone]⟩⟩
  · exact ⟨_, rfl, rfl, fun hdone => ⟨hdone _, by simp [hdone, Reply.created]⟩⟩

lemma ensureProvisioningRequest_spec (reply : Call → Reply) (d : Demand S) (p : Pass S) :
    ∃ r, (ensureProvisioningRequest reply d p).1.api
        = ⟨p.api.templates,
            put r d.object (d.upsert (p.api.requests.lookup d.object)) p.api.requests⟩ ∧
      (ensureProvisioningRequest reply d p).1.desired = p.desired ∧
      ((∀ call, reply call = .done) →
        r = .done ∧ (ensureProvisioningRequest reply d p).2 = true) := by
  unfold ensureProvisioningRequest
  dsimp only
  split_ifs with hget
  · exact ⟨.refused, rfl, rfl, fun hdone => absurd (hdone _) hget⟩
  cases hcur : p.api.requests.lookup d.object with
  | none => exact ⟨_, rfl, rfl, fun hdone => ⟨hdone _, by simp [hdone, Reply.created]⟩⟩
  | some cur =>
    dsimp only
    split_ifs with hsame
    · refine ⟨.done, ?_, rfl, fun _ => ⟨rfl, rfl⟩⟩
      -- writing what is there already
      have hup : d.upsert (some cur) = cur := by simp [Demand.upsert, ← hsame]
      rw [hup, put_self hcur]
    · exact ⟨_, rfl, rfl, fun hdone => ⟨hdone _, by simp [hdone]⟩⟩

lemma publish_none {v : View S} {entry : String × GangInfo ℤ} (h : v.demand entry.1 entry.2 = none)
    (p : Pass S) : publish reply v p entry = p := by
  rw [publish, h]

lemma publish_some (reply : Call → Reply) {v : View S} (entry : String × GangInfo ℤ)
    {d : Demand S} (h : v.demand entry.1 entry.2 = some d) (p : Pass S) :
    ∃ rt rr, (publish reply v p entry).api =
        ⟨put rt d.object d.template p.api.templates,
          put rr d.object (d.upsert (p.api.requests.lookup d.object)) p.api.requests⟩ ∧
      (publish reply v p entry).desired = insert d.object.path p.desired ∧
      ((∀ call, reply call = .done) → rt = .done ∧ rr = .done) := by
  rw [publish, h]
  dsimp only
  obtain ⟨rt, hapi, hdesired, hdone⟩ :=
    ensurePodTemplate_spec reply d { p with desired := insert d.object.path p.desired }
  generalize ensurePodTemplate reply d _ = templated at hapi hdesired hdone ⊢
  by_cases hflag : templated.2 = false
  · rw [if_pos hflag]
    refine ⟨rt, .refused, hapi, hdesired, fun hd => ?_⟩
    rw [(hdone hd).2] at hflag
    cases hflag
  rw [if_neg hflag]
  obtain ⟨rr, hapi', hdesired', hdone'⟩ := ensureProvisioningRequest_spec reply d templated.1
  generalize ensureProvisioningRequest reply d templated.1 = requested at hapi' hdesired' hdone' ⊢
  refine ⟨rt, rr, ?_, ?_, fun hd => ⟨(hdone hd).1, (hdone' hd).1⟩⟩
  · rw [hapi] at hapi'
    split_ifs <;> exact hapi'
  · rw [hdesired] at hdesired'
    split_ifs <;> exact hdesired'

end Writes

section Loop
variable {tk : Tick S} {api : Api S} {k : ObjectKey}

def Tick.Faultless (tk : Tick S) : Prop := ∀ call, tk.reply call = .done

lemma demands_of_mem {tk : Tick S} {entry : String × GangInfo ℤ} {d : Demand S}
    (hentry : entry ∈ entries tk.gangOrder tk.view.coord.gangs)
    (hd : tk.view.demand entry.1 entry.2 = some d) : tk.view.Demands d :=
  ⟨entry.1, entry.2, lookup_of_mem_entries hentry, hd⟩

lemma published_rec (tk : Tick S) {api : Api S} (I : Api S → Finset String → Prop) (h0 : I api ∅)
    (hstep : ∀ a desired d rt rr, I a desired → tk.view.Demands d →
      (tk.Faultless → rt = .done ∧ rr = .done) →
      I ⟨put rt d.object d.template a.templates,
        put rr d.object (d.upsert (a.requests.lookup d.object)) a.requests⟩
        (insert d.object.path desired)) :
    I (tk.published api).api (tk.published api).desired := by
  refine List.foldlRecOn (motive := fun p : Pass S => I p.api p.desired) _ _ h0
    fun p hp entry hentry => ?_
  cases hd : tk.view.demand entry.1 entry.2 with
  | none => rwa [publish_none hd]
  | some d =>
    obtain ⟨rt, rr, hapi, hdesired, hdone⟩ := publish_some tk.reply entry hd p
    rw [hapi, hdesired]
    exact hstep _ _ d rt rr hp (demands_of_mem hentry hd) hdone

lemma desired_published {path : String} (h : path ∈ (tk.published api).desired) :
    ∃ d, tk.view.Demands d ∧ d.object.path = path := by
  refine published_rec tk (fun _ desired =>
    ∀ path ∈ desired, ∃ d, tk.view.Demands d ∧ d.object.path = path) (by simp)
    (fun a desired d rt rr ih hd _ path hpath => ?_) path h
  rcases Finset.mem_insert.mp hpath with rfl | hpath
  · exact ⟨d, hd, rfl⟩
  · exact ih path hpath

lemma publish_desired_mono {reply : Call → Reply} {v : View S} {p : Pass S}
    {entry : String × GangInfo ℤ} {path : String} (h : path ∈ p.desired) :
    path ∈ (publish reply v p entry).desired := by
  cases hd : v.demand entry.1 entry.2 with
  | none => rwa [publish_none hd]
  | some d =>
    obtain ⟨rt, rr, -, hdesired, -⟩ := publish_some reply entry hd p
    rw [hdesired]
    exact Finset.mem_insert_of_mem h

lemma path_mem_desired (hv : Visits tk.gangOrder tk.view.coord.gangs) :
    k.path ∈ (tk.published api).desired ↔ ∃ d, tk.view.Demands d ∧ d.object = k := by
  constructor
  · intro h
    obtain ⟨d, hd, hpath⟩ := desired_published h
    exact ⟨d, hd, ObjectKey.path_injective hpath⟩
  · rintro ⟨d, ⟨key, info, hkey, hd⟩, rfl⟩
    refine foldl_establishes (fun p : Pass S => d.object.path ∈ p.desired)
      (fun p entry _ => publish_desired_mono) ((mem_entries_iff hv).mpr hkey) (fun p => ?_) _
    obtain ⟨rt, rr, -, hdesired, -⟩ :=
      publish_some tk.reply (key, info) hd p
    rw [hdesired]
    exact Finset.mem_insert_self _ _

lemma published_lookup (tk : Tick S) (api : Api S) (h : ∀ d, tk.view.Demands d → d.object ≠ k) :
    (tk.published api).api.templates.lookup k = api.templates.lookup k ∧
      (tk.published api).api.requests.lookup k = api.requests.lookup k := by
  refine published_rec tk (fun a _ => a.templates.lookup k = api.templates.lookup k ∧
    a.requests.lookup k = api.requests.lookup k) ⟨rfl, rfl⟩ fun a desired d rt rr ih hd _ => ?_
  have hne : k ≠ d.object := (h d hd).symm
  simpa [lookup_put, hne] using ih

lemma mem_published (tk : Tick S) (api : Api S) (k : ObjectKey) :
    (k ∈ api.templates → k ∈ (tk.published api).api.templates) ∧
      (k ∈ api.requests → k ∈ (tk.published api).api.requests) := by
  refine published_rec tk (fun a _ => (k ∈ api.templates → k ∈ a.templates) ∧
    (k ∈ api.requests → k ∈ a.requests)) ⟨fun h => h, fun h => h⟩ fun a desired d rt rr ih _ _ => ?_
  exact ⟨fun h => mem_put (ih.1 h) _ _, fun h => mem_put (ih.2 h) _ _⟩

lemma published_keeps_request (tk : Tick S) {r : ProvisioningRequest}
    (h : api.requests.lookup k = some r) :
    ∃ podSets, (tk.published api).api.requests.lookup k = some { r with podSets := podSets } := by
  refine published_rec tk (fun a _ => ∃ podSets,
    a.requests.lookup k = some { r with podSets := podSets }) ⟨r.podSets, h⟩
    fun a desired d rt rr ⟨podSets, ih⟩ _ _ => ?_
  dsimp only
  rw [lookup_put]
  split_ifs with hk
  · rw [← hk.1, ih]
    exact ⟨d.podSets, rfl⟩
  · exact ⟨podSets, ih⟩

/-- The objects of a demand are as the gang wants them. -/
def Api.Serves (a : Api S) (d : Demand S) : Prop :=
  a.templates.lookup d.object = some d.template ∧
    ∃ r, a.requests.lookup d.object = some r ∧ r.podSets = d.podSets

lemma upsert_podSets (d : Demand S) (cur : Option ProvisioningRequest) :
    (d.upsert cur).podSets = d.podSets := by
  cases cur <;> rfl

lemma serves_put (a : Api S) (d : Demand S) :
    Api.Serves ⟨put .done d.object d.template a.templates,
      put .done d.object (d.upsert (a.requests.lookup d.object)) a.requests⟩ d := by
  simp [Api.Serves, lookup_put_done, upsert_podSets]

lemma published_serves (hv : Visits tk.gangOrder tk.view.coord.gangs) (hdone : tk.Faultless)
    {d : Demand S} (h : tk.view.Demands d) : (tk.published api).api.Serves d := by
  have hserves := h
  obtain ⟨key, info, hkey, hd⟩ := h
  refine foldl_establishes (fun p : Pass S => p.api.Serves d)
    (fun p entry hentry hp => ?_) ((mem_entries_iff hv).mpr hkey) (fun p => ?_) _
  · cases hd' : tk.view.demand entry.1 entry.2 with
    | none => rwa [publish_none hd']
    | some d' =>
      obtain ⟨rt, rr, hapi, -, hreply⟩ := publish_some tk.reply entry hd' p
      obtain ⟨rfl, rfl⟩ := hreply hdone
      rw [hapi]
      by_cases hobject : d'.object = d.object
      · obtain rfl := (demands_of_mem hentry hd').unique hserves hobject
        exact serves_put p.api d'
      · simpa [Api.Serves, lookup_put_done, Ne.symm hobject] using hp
  · obtain ⟨rt, rr, hapi, -, hreply⟩ :=
      publish_some tk.reply (key, info) hd p
    obtain ⟨rfl, rfl⟩ := hreply hdone
    rw [hapi]
    exact serves_put p.api d

end Loop

section Ticks
variable {tk : Tick S} {api : Api S} {k : ObjectKey}

lemma sync_off (h : tk.view.on = false) : (tk.syncProvisioningRequests api).api = api := by
  simp [Tick.syncProvisioningRequests, h]

lemma sync_requests (hon : tk.view.on = true) (hv : Visits tk.gangOrder tk.view.coord.gangs)
    (h : tk.view.Wants k ∨ ∀ r, (tk.published api).api.requests.lookup k = some r →
      managed r.labels = false) :
    (tk.syncProvisioningRequests api).api.requests.lookup k
      = (tk.published api).api.requests.lookup k := by
  simp only [Tick.syncProvisioningRequests, hon, if_true, gcProvisioningRequests]
  split_ifs
  · refine lookup_sweep_of_spared (fun r hr => ?_) _ _
    exact h.imp (fun hk => by simpa [path_mem_desired hv] using hk.2) fun hforeign => hforeign r hr
  · rfl

lemma sync_templates (hon : tk.view.on = true) (hv : Visits tk.gangOrder tk.view.coord.gangs)
    (h : tk.view.Wants k ∨ ∀ t, (tk.published api).api.templates.lookup k = some t →
      managed t.labels = false) :
    (tk.syncProvisioningRequests api).api.templates.lookup k
      = (tk.published api).api.templates.lookup k := by
  simp only [Tick.syncProvisioningRequests, hon, if_true, gcProvisioningRequests]
  split_ifs
  · refine lookup_sweep_of_spared (fun t ht => ?_) _ _
    exact h.imp (fun hk => by simpa [path_mem_desired hv] using hk.2) fun hforeign => hforeign t ht
  · rfl

lemma sync_foreign_request {tk : Tick S} (hv : Visits tk.gangOrder tk.view.coord.gangs)
    {r : ProvisioningRequest}
    (hr : api.requests.lookup k = some r) (hforeign : managed r.labels = false) :
    ∃ podSets, (tk.syncProvisioningRequests api).api.requests.lookup k
        = some { r with podSets := podSets } ∧ (¬ tk.view.Wants k → podSets = r.podSets) := by
  by_cases hon : tk.view.on = true
  · obtain ⟨podSets, hpub⟩ := published_keeps_request tk hr
    have hsync := sync_requests hon hv (.inr fun r' hr' => by
      rw [hpub] at hr'
      cases hr'
      exact hforeign)
    refine ⟨podSets, hsync.trans hpub, fun hunwanted => ?_⟩
    have hsame := (published_lookup tk api (k := k)
      fun d hd hk => hunwanted ⟨hon, d, hd, hk⟩).2
    rw [hpub, hr, Option.some.injEq] at hsame
    exact congrArg ProvisioningRequest.podSets hsame
  · rw [sync_off (by simpa using hon)]
    exact ⟨r.podSets, hr, fun _ => rfl⟩

lemma sync_foreign_template (hv : Visits tk.gangOrder tk.view.coord.gangs) {t : PodTemplate S}
    (ht : api.templates.lookup k = some t) (hforeign : managed t.labels = false)
    (hunwanted : ¬ tk.view.Wants k) :
    (tk.syncProvisioningRequests api).api.templates.lookup k = some t := by
  by_cases hon : tk.view.on = true
  · have hsame := (published_lookup tk api (k := k)
      fun d hd hk => hunwanted ⟨hon, d, hd, hk⟩).1
    rw [sync_templates hon hv (.inr fun t' ht' => ?_), hsame, ht]
    rw [hsame, ht] at ht'
    cases ht'
    exact hforeign
  · rwa [sync_off (by simpa using hon)]

lemma sync_wanted (api : Api S) (hv : Visits tk.gangOrder tk.view.coord.gangs)
    (h : tk.view.on = true → tk.view.Wants k) :
    (k ∈ api.templates → k ∈ (tk.syncProvisioningRequests api).api.templates) ∧
      (k ∈ api.requests → k ∈ (tk.syncProvisioningRequests api).api.requests) := by
  by_cases hon : tk.view.on = true
  · obtain ⟨htemplates, hrequests⟩ := mem_published tk api k
    simp only [Finmap.mem_iff] at htemplates hrequests ⊢
    rw [sync_templates hon hv (.inl (h hon)), sync_requests hon hv (.inl (h hon))]
    exact ⟨htemplates, hrequests⟩
  · rw [sync_off (by simpa using hon)]
    exact ⟨fun h => h, fun h => h⟩

/-- Whatever calls fail, in any run of ticks: a request of somebody else is never deleted and at
most its pod sets are rewritten; what no tick wants and is not labelled as ours stays as it is; and
the objects of a gang that wants them throughout are never deleted. -/
theorem ticks_spare_foreign_and_wanted {api' : Api S} {run : List (Tick S)}
    (hrun : Run ticks api run api') (k : ObjectKey) :
    (∀ r, api.requests.lookup k = some r → managed r.labels = false →
      ∃ podSets, api'.requests.lookup k = some { r with podSets := podSets } ∧
        ((∀ tk ∈ run, ¬ tk.view.Wants k) → podSets = r.podSets)) ∧
    (∀ t, api.templates.lookup k = some t → managed t.labels = false →
      (∀ tk ∈ run, ¬ tk.view.Wants k) → api'.templates.lookup k = some t) ∧
    ((∀ tk ∈ run, tk.view.on = true → tk.view.Wants k) →
      (k ∈ api.templates → k ∈ api'.templates) ∧ (k ∈ api.requests → k ∈ api'.requests)) := by
  induction hrun with
  | nil => exact ⟨fun r hr _ => ⟨r.podSets, hr, fun _ => rfl⟩, fun t ht _ _ => ht,
      fun _ => ⟨fun h => h, fun h => h⟩⟩
  | @snoc as a tk _ hlegal ih =>
    obtain ⟨hrequest, htemplate, hwanted⟩ := ih
    refine ⟨fun r hr hforeign => ?_, fun t ht hforeign hunwanted => ?_, fun hwants => ?_⟩
    · obtain ⟨podSets, hlookup, hsame⟩ := hrequest r hr hforeign
      obtain ⟨podSets', hlookup', hsame'⟩ := sync_foreign_request hlegal.1 hlookup hforeign
      refine ⟨podSets', hlookup', fun hunwanted => ?_⟩
      rw [List.forall_mem_append, List.forall_mem_singleton] at hunwanted
      exact (hsame' hunwanted.2).trans (hsame hunwanted.1)
    · rw [List.forall_mem_append, List.forall_mem_singleton] at hunwanted
      exact sync_foreign_template hlegal.1 (htemplate t ht hforeign hunwanted.1)
        hforeign hunwanted.2
    · rw [List.forall_mem_append, List.forall_mem_singleton] at hwants
      obtain ⟨htemplates, hrequests⟩ := hwanted hwants.1
      obtain ⟨htemplates', hrequests'⟩ := sync_wanted a hlegal.1 hwants.2
      exact ⟨fun h => htemplates' (htemplates h), fun h => hrequests' (hrequests h)⟩

end Ticks

section Settled
variable {tk : Tick S} {api : Api S}

/-- The stores hold what the gangs of the view demand, and nothing else of ours. -/
structure Settled (v : View S) (api : Api S) : Prop where
  serves : ∀ d, v.Demands d → api.Serves d
  requests : ∀ k r, api.requests.lookup k = some r → managed r.labels = true →
    ∃ d, v.Demands d ∧ d.object = k
  templates : ∀ k t, api.templates.lookup k = some t → managed t.labels = true →
    ∃ d, v.Demands d ∧ d.object = k

lemma sync_templates_done (hon : tk.view.on = true) (hdone : tk.Faultless) (hlegal : tk.Legal api)
    (k : ObjectKey) : (tk.syncProvisioningRequests api).api.templates.lookup k =
      ((tk.published api).api.templates.lookup k).filter fun t =>
        !managed t.labels || decide (k.path ∈ (tk.published api).desired) := by
  simp only [Tick.syncProvisioningRequests, hon, if_true, gcProvisioningRequests, hdone _,
    decide_true]
  exact lookup_sweep_done _ _ (fun _ => rfl) hlegal.2.2 k

lemma sync_requests_done (hon : tk.view.on = true) (hdone : tk.Faultless) (hlegal : tk.Legal api)
    (k : ObjectKey) : (tk.syncProvisioningRequests api).api.requests.lookup k =
      ((tk.published api).api.requests.lookup k).filter fun r =>
        !managed r.labels || decide (k.path ∈ (tk.published api).desired) := by
  simp only [Tick.syncProvisioningRequests, hon, if_true, gcProvisioningRequests, hdone _,
    decide_true]
  exact lookup_sweep_done _ _ (fun _ => rfl) hlegal.2.1 k

lemma sync_settled (hon : tk.view.on = true) (hdone : tk.Faultless) (hlegal : tk.Legal api) :
    Settled tk.view (tk.syncProvisioningRequests api).api := by
  have hv := hlegal.1
  refine ⟨fun d hd => ?_, fun k r hr hours => ?_, fun k t ht hours => ?_⟩
  · have hwants : tk.view.Wants d.object := ⟨hon, d, hd, rfl⟩
    rw [Api.Serves, sync_templates hon hv (.inl hwants), sync_requests hon hv (.inl hwants)]
    exact published_serves hv hdone hd
  · rw [sync_requests_done hon hdone hlegal, Option.filter_eq_some_iff] at hr
    simpa [hours, path_mem_desired hv] using hr.2
  · rw [sync_templates_done hon hdone hlegal, Option.filter_eq_some_iff] at ht
    simpa [hours, path_mem_desired hv] using ht.2

lemma ensurePodTemplate_writes (reply : Call → Reply) (d : Demand S) (p : Pass S) :
    ∃ calls, (ensurePodTemplate reply d p).1.writes = p.writes ++ calls ∧
      (d.object ∈ p.api.templates → ∀ call ∈ calls, call = .updateTemplate d.object) := by
  unfold ensurePodTemplate
  dsimp only
  split_ifs with hget hmem
  · exact ⟨[], by simp, by simp⟩
  · exact ⟨_, rfl, by simp⟩
  · exact ⟨_, rfl, fun h => absurd h hmem⟩

lemma ensureProvisioningRequest_writes (reply : Call → Reply) (d : Demand S) (p : Pass S) :
    ∃ calls, (ensureProvisioningRequest reply d p).1.writes = p.writes ++ calls ∧
      (∀ r, p.api.requests.lookup d.object = some r → r.podSets = d.podSets → calls = []) := by
  unfold ensureProvisioningRequest
  dsimp only
  split_ifs with hget
  · exact ⟨[], by simp, by simp⟩
  split
  · rename_i hnone
    exact ⟨_, rfl, by simp [hnone]⟩
  · rename_i cur hcur
    split_ifs with hsame
    · exact ⟨[], by simp, by simp⟩
    · refine ⟨_, rfl, fun r hr hsets => ?_⟩
      rw [hcur] at hr
      cases hr
      exact absurd hsets hsame

/-- The waiting members of the gang are marked, or a patch to mark them was sent. -/
def Marked (d : Demand S) (writes : List Call) : Prop :=
  ∀ m ∈ d.members, textAt m.pod.annotations provReqConsumeAnnotation ≠ d.object.name →
    .patchPod m.pod.ns m.name d.object.name ∈ writes

lemma publish_writes_mono {reply : Call → Reply} {v : View S} {p : Pass S}
    {entry : String × GangInfo ℤ} {call : Call} (h : call ∈ p.writes) :
    call ∈ (publish reply v p entry).writes := by
  unfold publish
  split
  · exact h
  rename_i d _
  dsimp only
  obtain ⟨calls, hwrites, -⟩ :=
    ensurePodTemplate_writes reply d { p with desired := insert d.object.path p.desired }
  generalize ensurePodTemplate reply d _ = templated at hwrites ⊢
  obtain ⟨calls', hwrites', -⟩ := ensureProvisioningRequest_writes reply d templated.1
  rw [hwrites] at hwrites'
  split_ifs
  · simp [hwrites, h]
  · simp [hwrites', h]
  · simp [markMembersConsumeProvReq, hwrites', h]

lemma marked_publish {v : View S} (entry : String × GangInfo ℤ) {d : Demand S}
    {reply : Call → Reply} (hdone : ∀ call, reply call = .done)
    (hd : v.demand entry.1 entry.2 = some d) (p : Pass S) :
    Marked d (publish reply v p entry).writes := by
  rw [publish, hd]
  dsimp only
  obtain ⟨rt, -, -, hok⟩ :=
    ensurePodTemplate_spec reply d { p with desired := insert d.object.path p.desired }
  generalize ensurePodTemplate reply d _ = templated at hok ⊢
  obtain ⟨rr, -, -, hok'⟩ := ensureProvisioningRequest_spec reply d templated.1
  rw [if_neg (by simp [(hok hdone).2]), if_neg (by simp [(hok' hdone).2])]
  intro m hm hunmarked
  refine List.mem_append.mpr (.inr (List.mem_map.mpr ⟨m, List.mem_filter.mpr ⟨hm, ?_⟩, rfl⟩))
  simpa using hunmarked

lemma marked_published (api : Api S) (hv : Visits tk.gangOrder tk.view.coord.gangs)
    (hdone : tk.Faultless)
    {d : Demand S} (h : tk.view.Demands d) : Marked d (tk.published api).writes := by
  obtain ⟨key, info, hkey, hd⟩ := h
  refine foldl_establishes (fun p : Pass S => Marked d p.writes)
    (fun p entry _ hp m hm hunmarked => ?_) ((mem_entries_iff hv).mpr hkey) (fun p => ?_) _
  · exact publish_writes_mono (hp m hm hunmarked)
  · exact marked_publish (key, info) hdone hd p

/-- From any stores, a tick whose calls succeed leaves exactly what the gangs demand, and has
marked their waiting members. -/
theorem faultless_tick_settles (hon : tk.view.on = true) (hdone : tk.Faultless)
    (hlegal : tk.Legal api) :
    Settled tk.view (tk.syncProvisioningRequests api).api ∧
      ∀ d, tk.view.Demands d → Marked d (tk.syncProvisioningRequests api).writes := by
  refine ⟨sync_settled hon hdone hlegal, fun d hd m hm hunmarked => ?_⟩
  have hmark := marked_published api hlegal.1 hdone hd m hm hunmarked
  simp [Tick.syncProvisioningRequests, hon, gcProvisioningRequests, hmark]

lemma managed_ownLabels (gang : String) : managed (ownLabels gang) = true := by
  simp [managed, ownLabels, provReqManagedBy, provReqGangLabel]

/-- What is stored under the key, if anything, has our label. -/
def Taken (k : ObjectKey) (api : Api S) : Prop :=
  ∀ t, api.templates.lookup k = some t → managed t.labels = true

lemma taken_published (tk : Tick S) {k : ObjectKey} (h : Taken k api) :
    Taken k (tk.published api).api := by
  refine published_rec tk (fun a _ => Taken k a) h fun a desired d rt rr ih _ _ t ht => ?_
  rw [lookup_put] at ht
  split_ifs at ht
  · cases ht
    exact managed_ownLabels d.gang
  · exact ih t ht

lemma taken_sync {k : ObjectKey} (h : Taken k api) (hlegal : tk.Legal api) :
    Taken k (tk.syncProvisioningRequests api).api := by
  by_cases hon : tk.view.on = true
  · intro t ht
    simp only [Tick.syncProvisioningRequests, hon, if_true, gcProvisioningRequests] at ht
    split_ifs at ht
    · exact taken_published tk h t (lookup_of_lookup_sweep hlegal.2.2 ht)
    · exact taken_published tk h t ht
  · rwa [sync_off (by simpa using hon)]

lemma taken_run {k : ObjectKey} {api' : Api S} {run : List (Tick S)} (h : Taken k api)
    (hrun : Run ticks api run api') : Taken k api' :=
  hrun.invariant (I := Taken k) h fun _ _ ha hlegal => taken_sync ha hlegal

lemma sync_deletes {k : ObjectKey} (hon : tk.view.on = true) (hdone : tk.Faultless)
    (hlegal : tk.Legal api) (h : Taken k api) (hleaves : ¬ tk.view.Wants k) :
    (tk.syncProvisioningRequests api).api.templates.lookup k = none := by
  have hnone : ∀ d, tk.view.Demands d → d.object ≠ k := fun d hd hk => hleaves ⟨hon, d, hd, hk⟩
  have hnotin : k.path ∉ (tk.published api).desired := by
    rw [path_mem_desired hlegal.1]
    rintro ⟨d, hd, hk⟩
    exact hnone d hd hk
  rw [sync_templates_done hon hdone hlegal, (published_lookup _ _ hnone).1,
    Option.filter_eq_none_iff]
  intro t ht
  simp [h t ht, hnotin]

/-- A template of somebody else under the name of a gang's template is lost. A tick whose calls
succeed replaces it by the gang's own, label included. Whatever the calls of the ticks after it
answer, no other than ours stands there; and the first tick whose calls succeed and that does not
want it any more deletes it. -/
theorem foreign_template_is_taken_over {d : Demand S} (hon : tk.view.on = true)
    (hdone : tk.Faultless) (hlegal : tk.Legal api) (hd : tk.view.Demands d) :
    (tk.syncProvisioningRequests api).api.templates.lookup d.object = some d.template ∧
      d.template.labels = ownLabels d.gang ∧
      ∀ run api', Run ticks (tk.syncProvisioningRequests api).api run api' →
        (∀ t, api'.templates.lookup d.object = some t → managed t.labels = true) ∧
        ∀ tk' : Tick S, tk'.view.on = true → tk'.Faultless → tk'.Legal api' →
          ¬ tk'.view.Wants d.object →
          (tk'.syncProvisioningRequests api').api.templates.lookup d.object = none := by
  have hown := ((sync_settled hon hdone hlegal).serves d hd).1
  have htaken : Taken d.object (tk.syncProvisioningRequests api).api := by
    intro t ht
    cases hown.symm.trans ht
    exact managed_ownLabels d.gang
  refine ⟨hown, rfl, fun run api' hrun => ⟨taken_run htaken hrun, ?_⟩⟩
  exact fun tk' hon' hdone' hlegal' hleaves =>
    sync_deletes hon' hdone' hlegal' (taken_run htaken hrun) hleaves

end Settled

section Concrete

def waitingMember : ListedPod Unit where
  pod := { barePod "m" "team" "runner" 500 with
    annotations := Finmap.singleton podGroupAnnotation "job" }
  name := "m"
  conditions := [⟨"PodScheduled", .false⟩]
  scheduling := ()

def stuckGang : View Unit where
  coord := { newCoordinator (EngineCore.newEngine 60) with
    gangs := Finmap.singleton "team/job" { zeroInfo with minMember := 2 }
    pods := [waitingMember.pod] }
  listed := [waitingMember]
  shown := rfl
  autoscaleDemand := true
  client := true
  dynClient := true

def gangTick : Tick Unit :=
  ⟨stuckGang, fun _ => .done, ["team/job"], [objectOf "team/job"], [objectOf "team/job"]⟩

def foreignRequest : Api Unit :=
  ⟨∅, Finmap.singleton (objectOf "team/job") ⟨∅, "check-capacity", []⟩⟩

lemma gangTick_legal : gangTick.Legal foreignRequest :=
  ⟨by decide +kernel, by decide +kernel, by decide +kernel⟩

theorem foreign_request_survives :
    ∃ podSets, (gangTick.syncProvisioningRequests foreignRequest).api.requests.lookup
      (objectOf "team/job") = some ⟨∅, "check-capacity", podSets⟩ := by
  have hrun : Run ticks foreignRequest [gangTick]
      (gangTick.syncProvisioningRequests foreignRequest).api :=
    .snoc .nil gangTick_legal
  obtain ⟨podSets, hlookup, _⟩ := (ticks_spare_foreign_and_wanted hrun (objectOf "team/job")).1 _
    Finmap.lookup_singleton_eq (by decide)
  exact ⟨podSets, hlookup⟩

theorem stuck_gang_settles :
    Settled stuckGang (gangTick.syncProvisioningRequests foreignRequest).api :=
  (faultless_tick_settles rfl (fun _ => rfl) gangTick_legal).1

def foreignTemplate : Api Unit :=
  ⟨Finmap.singleton (objectOf "team/job") ⟨∅, (), "main", "nginx", ∅⟩, ∅⟩

def groupGone : Tick Unit :=
  { gangTick with
    view := { stuckGang with coord := { stuckGang.coord with gangs := ∅ }, shown := rfl }
    gangOrder := [] }

def refusedTick : Tick Unit := { gangTick with reply := fun _ => .refused }

theorem foreign_template_is_lost :
    let taken := (gangTick.syncProvisioningRequests foreignTemplate).api
    let later := (refusedTick.syncProvisioningRequests taken).api
    (taken.templates.lookup (objectOf "team/job")).map PodTemplate.labels = some (ownLabels "job") ∧
      (groupGone.syncProvisioningRequests later).api.templates.lookup
          (objectOf "team/job") = none := by
  intro taken later
  have hlegal : gangTick.Legal foreignTemplate :=
    ⟨by decide +kernel, by decide +kernel, by decide +kernel⟩
  have hlegal' : groupGone.Legal later := ⟨by decide +kernel, by decide +kernel, by decide +kernel⟩
  have hrun : Run ticks taken [refusedTick] later :=
    .snoc .nil ⟨by decide +kernel, by decide +kernel, by decide +kernel⟩
  obtain ⟨d, hd⟩ : ∃ d, stuckGang.demand "team/job" { zeroInfo with minMember := 2 } = some d :=
    Option.isSome_iff_exists.mp (by decide +kernel)
  have hgang : (stuckGang.demand "team/job" { zeroInfo with minMember := 2 }).map Demand.gang =
      some "job" := by decide +kernel
  obtain ⟨_, _, _, hobject, _⟩ := View.demand_eq_some hd
  obtain ⟨htemplate, hlabels, hafter⟩ := foreign_template_is_taken_over rfl (fun _ => rfl) hlegal
    (d := d) ⟨_, _, Finmap.lookup_singleton_eq, hd⟩
  rw [hobject] at htemplate hafter
  rw [hd, Option.map_some, Option.some.injEq] at hgang
  refine ⟨?_, (hafter _ _ hrun).2 groupGone rfl (fun _ => rfl) hlegal' ?_⟩
  · rw [htemplate, Option.map_some, hlabels, hgang]
  · rintro ⟨-, d', ⟨key, info, hkey, -⟩, -⟩
    cases hkey

end Concrete

end AdScheduler.ProvisioningRequests
