import AdScheduler.Cel
import AdScheduler.JsonPointer
import AdScheduler.KeyedMap

/-! The admission of pods, after `pkg/admission/map.go`, `pool_guard.go`, `sa_guard.go` and
`deploy/admission.yaml`. A mutating policy pins the pods that name this scheduler to the pool, a
guard keeps other pods off it, and a second guard asks for a named service account. The policies
read a pod as it is stored, where a field can be absent; an expression that reads an absent field
fails, and a policy that fails denies the pod. -/
namespace AdScheduler.PodAdmission
open KeyedMap Cel

structure Toleration where
  key : Option String
  operator : Option String
  value : Option String
  effect : Option String
  deriving DecidableEq

/-- The fields of a pod that the policies read or write. -/
structure StoredPod where
  ns : String
  ownerKinds : Option (List String)
  schedulerName : Option String
  serviceAccountName : Option String
  nodeSelector : Option (Map String String)
  tolerations : Option (List Toleration)

structure PoolConfig where
  schedulerName : String
  poolLabel : String
  poolValue : String
  taintKey : String

section Expressions

/-- `field == 'lit'` -/
def isLiteral (field : Option String) (lit : String) : Option Bool :=
  field.map fun s => decide (s = lit)

/-- `field != 'lit'` -/
def isNotLiteral (field : Option String) (lit : String) : Option Bool :=
  field.map fun s => decide (s ≠ lit)

/-- `has(field)` -/
def present {A : Type*} (field : Option A) : Option Bool := some field.isSome

end Expressions

section Policies
variable (cfg : PoolConfig)

def mapTrigger (pod : StoredPod) : Option Bool :=
  both (present pod.schedulerName) (isLiteral pod.schedulerName cfg.schedulerName)

def replaceAll (c : Char) (by_ : List Char) (s : List Char) : List Char :=
  s.flatMap fun x => if x = c then by_ else [x]

def jsonPatchEscape (s : String) : String :=
  String.ofList (replaceAll '/' ['~', '1'] (replaceAll '~' ['~', '0'] s.toList))

inductive PatchValue
  | text (s : String)
  | selector (m : Map String String)
  | toleration (t : Toleration)
  | tolerations (l : List Toleration)

structure JSONPatch where
  path : String
  value : PatchValue

def dedicated : Toleration := ⟨some cfg.taintKey, some "Exists", none, some "NoSchedule"⟩

/-- The check for a toleration that is there already. It reads the fields without asking for their
presence. -/
def isDedicated (t : Toleration) : Option Bool :=
  both (both (isLiteral t.key cfg.taintKey) (isLiteral t.operator "Exists"))
    (isLiteral t.effect "NoSchedule")

def selectorPatch (pod : StoredPod) : JSONPatch :=
  match pod.nodeSelector with
  | some _ => ⟨"/spec/nodeSelector/" ++ jsonPatchEscape cfg.poolLabel, .text cfg.poolValue⟩
  | none => ⟨"/spec/nodeSelector", .selector (Finmap.singleton cfg.poolLabel cfg.poolValue)⟩

/-- The expression of the mutating policy: its patches, or a failure. -/
def mapMutation (pod : StoredPod) : Option (List JSONPatch) :=
  match pod.tolerations with
  | none => some [selectorPatch cfg pod, ⟨"/spec/tolerations", .tolerations [dedicated cfg]⟩]
  | some ts => (anyItem (isDedicated cfg) ts).map fun found =>
      selectorPatch cfg pod ::
        if found then [] else [⟨"/spec/tolerations/-", .toleration (dedicated cfg)⟩]

/-- The mutating policy. The patches are applied by the API server. -/
def inject (applyPatch : StoredPod → JSONPatch → Option StoredPod) (pod : StoredPod) :
    Option StoredPod :=
  match mapTrigger cfg pod with
  | none => none
  | some false => some pod
  | some true => (mapMutation cfg pod).bind fun patches => patches.foldlM applyPatch pod

/-- The pod selects the pool or tolerates its taint by name. -/
def wantsPool (pod : StoredPod) : Option Bool :=
  either
    (both (both (present pod.nodeSelector)
        (pod.nodeSelector.map fun m => decide (cfg.poolLabel ∈ m)))
      (isLiteral (pod.nodeSelector.bind fun m => m.lookup cfg.poolLabel) cfg.poolValue))
    (both (present pod.tolerations) (pod.tolerations.bind
      (anyItem fun t => both (present t.key) (isLiteral t.key cfg.taintKey))))

def poolGuardValidation (pod : StoredPod) : Option Bool :=
  either ((wantsPool cfg pod).map Bool.not)
    (both (present pod.schedulerName) (isLiteral pod.schedulerName cfg.schedulerName))

def poolGuardExemptDaemonSet (pod : StoredPod) : Option Bool :=
  (both (present pod.ownerKinds) (pod.ownerKinds.bind
    (anyItem fun kind => isLiteral (some kind) "DaemonSet"))).map Bool.not

def systemNamespaces : List String := ["kube-system", "kube-node-lease", "kube-public"]

/-- The validating policy that keeps the pool to this scheduler. -/
def poolGuard (pod : StoredPod) : Bool :=
  if pod.ns ∈ systemNamespaces then true
  else
    match poolGuardExemptDaemonSet pod with
    | none => false
    | some false => true
    | some true => decide (poolGuardValidation cfg pod = some true)

/-- The validating policy that asks for a named service account. -/
def saGuard (pod : StoredPod) : Bool :=
  match mapTrigger cfg pod with
  | none => false
  | some false => true
  | some true => decide (both (isNotLiteral pod.serviceAccountName "default")
      (isNotLiteral pod.serviceAccountName "") = some true)

/-- A pod that is created: the mutation first, then both guards. -/
def review (applyPatch : StoredPod → JSONPatch → Option StoredPod) (pod : StoredPod) :
    Option StoredPod :=
  (inject cfg applyPatch pod).bind fun q =>
    if poolGuard cfg q && saGuard cfg q then some q else none

end Policies

section Kubernetes

def Leads (path : String) (tokens : List String) : Prop :=
  (JsonPointer.tokens path.toList).map (List.map String.ofList) = some tokens

/-- How the API server applies an `add`: it replaces a member of an object and appends to a list,
if the parent is there. -/
structure AddsMembers (applyPatch : StoredPod → JSONPatch → Option StoredPod) : Prop where
  selector : ∀ pod path m, Leads path ["spec", "nodeSelector"] →
    applyPatch pod ⟨path, .selector m⟩ = some { pod with nodeSelector := some m }
  label : ∀ pod path key v m, Leads path ["spec", "nodeSelector", key] →
    pod.nodeSelector = some m →
    applyPatch pod ⟨path, .text v⟩ = some { pod with nodeSelector := some (m.insert key v) }
  tolerations : ∀ pod path l, Leads path ["spec", "tolerations"] →
    applyPatch pod ⟨path, .tolerations l⟩ = some { pod with tolerations := some l }
  toleration : ∀ pod path t l, Leads path ["spec", "tolerations", "-"] →
    pod.tolerations = some l →
    applyPatch pod ⟨path, .toleration t⟩ = some { pod with tolerations := some (l ++ [t]) }

structure Taint where
  key : String
  value : String
  effect : String
  deriving DecidableEq

structure Node where
  labels : Map String String
  taints : List Taint

/-- What the schedulers of Kubernetes do with the labels and the taints of a node. A toleration
without a key, or with an empty one, may cover every taint. -/
structure Filters (tolerates : Toleration → Taint → Bool) (feasible : StoredPod → Node → Prop) :
    Prop where
  covers : ∀ t taint, t.key = some taint.key → t.operator = some "Exists" →
    t.effect = some taint.effect → tolerates t taint = true
  keyed : ∀ t taint, tolerates t taint = true → ∀ key ∈ t.key, key = "" ∨ key = taint.key
  feasible_iff : ∀ pod node, feasible pod node ↔
    (∀ k v, (pod.nodeSelector.getD ∅).lookup k = some v → node.labels.lookup k = some v) ∧
      ∀ taint ∈ node.taints, taint.effect = "NoSchedule" ∨ taint.effect = "NoExecute" →
        ∃ t ∈ pod.tolerations.getD [], tolerates t taint = true

end Kubernetes

section Patches
variable {cfg : PoolConfig} {applyPatch : StoredPod → JSONPatch → Option StoredPod}
  {pod : StoredPod}

lemma mapTrigger_eq (cfg : PoolConfig) (pod : StoredPod) :
    mapTrigger cfg pod = some (decide (pod.schedulerName = some cfg.schedulerName)) := by
  rw [mapTrigger]
  cases pod.schedulerName with
  | none => rfl
  | some name => simp [present, isLiteral, true_both]

lemma jsonPatchEscape_toList (s : String) :
    (jsonPatchEscape s).toList = JsonPointer.escape s.toList := by
  rw [jsonPatchEscape, String.toList_ofList]
  induction s.toList with
  | nil => rfl
  | cons c rest ih =>
    simp only [replaceAll, JsonPointer.escape, List.flatMap_cons, List.flatMap_append] at ih ⊢
    rw [ih]
    congr 1
    by_cases htilde : c = '~'
    · simp [htilde, JsonPointer.escapeChar]
    · simp [htilde, JsonPointer.escapeChar]

lemma leads_label (label : String) :
    Leads ("/spec/nodeSelector/" ++ jsonPatchEscape label) ["spec", "nodeSelector", label] := by
  have hpointer : ("/spec/nodeSelector/" ++ jsonPatchEscape label).toList =
      JsonPointer.pointer ["spec".toList, "nodeSelector".toList, label.toList] := by
    rw [String.toList_append, jsonPatchEscape_toList]
    simp [JsonPointer.pointer, List.intercalate, JsonPointer.escape, JsonPointer.escapeChar]
  rw [Leads, hpointer, JsonPointer.tokens_pointer]
  simp

lemma leads_plain : Leads "/spec/nodeSelector" ["spec", "nodeSelector"] ∧
    Leads "/spec/tolerations" ["spec", "tolerations"] ∧
    Leads "/spec/tolerations/-" ["spec", "tolerations", "-"] := by
  unfold Leads
  decide +kernel

def pinned (cfg : PoolConfig) (selector : Option (Map String String)) : Map String String :=
  (selector.getD ∅).insert cfg.poolLabel cfg.poolValue

lemma AddsMembers.selectorPatch (hadds : AddsMembers applyPatch) (cfg : PoolConfig)
    (pod : StoredPod) : applyPatch pod (selectorPatch cfg pod)
      = some { pod with nodeSelector := some (pinned cfg pod.nodeSelector) } := by
  rw [PodAdmission.selectorPatch]
  cases hselector : pod.nodeSelector with
  | none => exact hadds.selector _ _ _ leads_plain.1
  | some m => exact hadds.label _ _ _ _ _ (leads_label _) hselector

def tolerant (cfg : PoolConfig) : Option (List Toleration) → Option (List Toleration)
  | none => some [dedicated cfg]
  | some ts => (anyItem (isDedicated cfg) ts).map fun found =>
      if found then ts else ts ++ [dedicated cfg]

lemma inject_of_target (hadds : AddsMembers applyPatch)
    (h : pod.schedulerName = some cfg.schedulerName) :
    inject cfg applyPatch pod = (tolerant cfg pod.tolerations).map fun ts =>
      { pod with nodeSelector := some (pinned cfg pod.nodeSelector), tolerations := some ts } := by
  rw [inject, mapTrigger_eq, decide_eq_true h]
  dsimp only
  obtain ⟨ns, kinds, scheduler, account, selector, tolerations⟩ := pod
  cases tolerations with
  | none =>
    simp [mapMutation, tolerant, hadds.selectorPatch, hadds.tolerations _ _ _ leads_plain.2.1]
  | some ts =>
    simp only [mapMutation, tolerant]
    cases anyItem (isDedicated cfg) ts with
    | none => rfl
    | some found =>
      cases found with
      | true => simp [hadds.selectorPatch]
      | false =>
        simp [hadds.selectorPatch, hadds.toleration _ _ _ ts leads_plain.2.2]

lemma inject_of_foreign (h : pod.schedulerName ≠ some cfg.schedulerName) :
    inject cfg applyPatch pod = some pod := by
  rw [inject, mapTrigger_eq, decide_eq_false h]

end Patches

section Guards
variable {cfg : PoolConfig} {pod q : StoredPod}

lemma exemptDaemonSet_eq (pod : StoredPod) :
    poolGuardExemptDaemonSet pod = some (decide ("DaemonSet" ∉ pod.ownerKinds.getD [])) := by
  rw [poolGuardExemptDaemonSet]
  cases pod.ownerKinds with
  | none => rfl
  | some kinds =>
    have hkinds : anyItem (fun kind => isLiteral (some kind) "DaemonSet") kinds
        = some (decide ("DaemonSet" ∈ kinds)) := by
      by_cases hmem : "DaemonSet" ∈ kinds
      · rw [decide_eq_true hmem, anyItem_eq_true]
        exact ⟨_, hmem, by simp [isLiteral]⟩
      · rw [decide_eq_false hmem, anyItem_eq_false]
        intro kind hkind
        have hne : kind ≠ "DaemonSet" := fun heq => hmem (heq ▸ hkind)
        simp [isLiteral, hne]
    simp [present, true_both, hkinds]

/-- What makes the guard look at a pod; its evaluation never fails. -/
def NamesPool (cfg : PoolConfig) (pod : StoredPod) : Prop :=
  (pod.nodeSelector.getD ∅).lookup cfg.poolLabel = some cfg.poolValue ∨
    ∃ t ∈ pod.tolerations.getD [], t.key = some cfg.taintKey

lemma wantsPool_selector (selector : Option (Map String String)) :
    both (both (present selector) (selector.map fun m => decide (cfg.poolLabel ∈ m)))
      (isLiteral (selector.bind fun m => m.lookup cfg.poolLabel) cfg.poolValue)
      = some (decide ((selector.getD ∅).lookup cfg.poolLabel = some cfg.poolValue)) := by
  cases selector with
  | none => simp [present, both]
  | some m =>
    rw [present, Option.isSome_some, true_both, Option.map_some, Option.bind_some, Option.getD_some]
    cases hlookup : m.lookup cfg.poolLabel with
    | none =>
      have hno : cfg.poolLabel ∉ m := Finmap.lookup_eq_none.mp hlookup
      simp [hno, both, isLiteral]
    | some v =>
      have hin : cfg.poolLabel ∈ m := Finmap.mem_of_lookup_eq_some hlookup
      simp [hin, true_both, isLiteral]

lemma wantsPool_tolerations (tolerations : Option (List Toleration)) :
    both (present tolerations) (tolerations.bind
      (anyItem fun t => both (present t.key) (isLiteral t.key cfg.taintKey)))
      = some (decide (∃ t ∈ tolerations.getD [], t.key = some cfg.taintKey)) := by
  cases tolerations with
  | none => simp [present, both]
  | some ts =>
    have hcheck : ∀ t : Toleration, both (present t.key) (isLiteral t.key cfg.taintKey)
        = some (decide (t.key = some cfg.taintKey)) := by
      intro t
      cases t.key with
      | none => rfl
      | some key => simp [present, isLiteral, true_both]
    rw [present, Option.isSome_some, true_both, Option.bind_some, Option.getD_some]
    by_cases hex : ∃ t ∈ ts, t.key = some cfg.taintKey
    · rw [decide_eq_true hex, anyItem_eq_true]
      simpa [hcheck] using hex
    · rw [decide_eq_false hex, anyItem_eq_false]
      push Not at hex
      simpa [hcheck] using hex

lemma wantsPool_eq_false : wantsPool cfg pod = some false ↔ ¬ NamesPool cfg pod := by
  rw [wantsPool, wantsPool_selector, wantsPool_tolerations, either_eq_false, NamesPool, not_or]
  simp

lemma poolGuard_of_foreign (h : pod.schedulerName ≠ some cfg.schedulerName)
    (hns : pod.ns ∉ systemNamespaces) (howner : "DaemonSet" ∉ pod.ownerKinds.getD []) :
    poolGuard cfg pod = true ↔ ¬ NamesPool cfg pod := by
  have htrigger := mapTrigger_eq cfg pod
  rw [decide_eq_false h, mapTrigger] at htrigger
  rw [poolGuard, if_neg hns, exemptDaemonSet_eq, decide_eq_true howner, ← wantsPool_eq_false]
  simp [poolGuardValidation, either_eq_true, htrigger]

lemma saGuard_of_target (h : pod.schedulerName = some cfg.schedulerName) :
    saGuard cfg pod = true ↔
      ∃ sa, pod.serviceAccountName = some sa ∧ sa ≠ "default" ∧ sa ≠ "" := by
  rw [saGuard, mapTrigger_eq, decide_eq_true h]
  cases hsa : pod.serviceAccountName <;> simp [both_eq_true, isNotLiteral]

lemma saGuard_of_foreign (h : pod.schedulerName ≠ some cfg.schedulerName) :
    saGuard cfg pod = true := by
  rw [saGuard, mapTrigger_eq, decide_eq_false h]

end Guards

section Dedicated
variable {cfg : PoolConfig} {applyPatch : StoredPod → JSONPatch → Option StoredPod}
  {tolerates : Toleration → Taint → Bool} {feasible : StoredPod → Node → Prop} {pod q : StoredPod}

def Exact (cfg : PoolConfig) (t : Toleration) : Prop :=
  t.key = some cfg.taintKey ∧ t.operator = some "Exists" ∧ t.effect = some "NoSchedule"

def Compatible (cfg : PoolConfig) (t : Toleration) : Prop :=
  (∀ key ∈ t.key, key = cfg.taintKey) ∧ (∀ op ∈ t.operator, op = "Exists") ∧
    ∀ effect ∈ t.effect, effect = "NoSchedule"

lemma isLiteral_eq_true {field : Option String} {lit : String} :
    isLiteral field lit = some true ↔ field = some lit := by
  cases field <;> simp [isLiteral]

lemma isLiteral_ne_false {field : Option String} {lit : String} :
    isLiteral field lit ≠ some false ↔ ∀ s ∈ field, s = lit := by
  cases field <;> simp [isLiteral]

lemma isDedicated_eq_true (t : Toleration) : isDedicated cfg t = some true ↔ Exact cfg t := by
  rw [isDedicated, both_eq_true, both_eq_true, isLiteral_eq_true, isLiteral_eq_true,
    isLiteral_eq_true, Exact, and_assoc]

lemma isDedicated_ne_false (t : Toleration) :
    isDedicated cfg t ≠ some false ↔ Compatible cfg t := by
  rw [isDedicated, Ne, both_eq_false, both_eq_false, not_or, not_or, ← Ne, ← Ne, ← Ne,
    isLiteral_ne_false, isLiteral_ne_false, isLiteral_ne_false, Compatible, and_assoc]

lemma isDedicated_eq_none (t : Toleration) :
    isDedicated cfg t = none ↔ ¬ Exact cfg t ∧ Compatible cfg t := by
  rw [← isDedicated_eq_true, ← isDedicated_ne_false]
  rcases isDedicated cfg t with _ | _ | _ <;> simp

/-- A pod that asks for this scheduler is denied by the mutating policy if and only if none of its
tolerations is the one looked for, and one of them leaves a field out and has nothing that speaks
against it: among them the toleration of everything, and the one for the taint without an
operator. -/
theorem mutation_denies_iff (hadds : AddsMembers applyPatch)
    (h : pod.schedulerName = some cfg.schedulerName) :
    inject cfg applyPatch pod = none ↔ (∀ t ∈ pod.tolerations.getD [], ¬ Exact cfg t) ∧
      ∃ t ∈ pod.tolerations.getD [], Compatible cfg t := by
  rw [inject_of_target hadds h, Option.map_eq_none_iff]
  cases pod.tolerations with
  | none => simp [tolerant]
  | some ts =>
    rw [tolerant, Option.map_eq_none_iff, anyItem_eq_none, Option.getD_some]
    simp only [Ne, isDedicated_eq_true, isDedicated_eq_none]
    constructor
    · rintro ⟨hno, t, ht, -, hcompatible⟩
      exact ⟨hno, t, ht, hcompatible⟩
    · rintro ⟨hno, t, ht, hcompatible⟩
      exact ⟨hno, t, ht, hno t ht, hcompatible⟩

lemma tolerant_spec {before : Option (List Toleration)} {after : List Toleration}
    (h : tolerant cfg before = some after) :
    before.getD [] <+: after ∧ ∃ t ∈ after, Exact cfg t := by
  have hexact : Exact cfg (dedicated cfg) := ⟨rfl, rfl, rfl⟩
  cases before with
  | none =>
    cases h
    exact ⟨List.nil_prefix, _, List.mem_singleton_self _, hexact⟩
  | some ts =>
    obtain ⟨found, hfound, rfl⟩ := Option.map_eq_some_iff.mp h
    cases found with
    | true =>
      obtain ⟨t, ht, hcheck⟩ := (anyItem_eq_true _ _).mp hfound
      exact ⟨List.prefix_refl ts, t, ht, (isDedicated_eq_true t).mp hcheck⟩
    | false => exact ⟨List.prefix_append _ _, _, by simp, hexact⟩

lemma tolerant_of_exact {ts : List Toleration} (h : ∃ t ∈ ts, Exact cfg t) :
    tolerant cfg (some ts) = some ts := by
  have hfound : anyItem (isDedicated cfg) ts = some true := by
    rw [anyItem_eq_true]
    obtain ⟨t, ht, hexact⟩ := h
    exact ⟨t, ht, (isDedicated_eq_true t).mpr hexact⟩
  simp [tolerant, hfound]

/-- A pod that asks for this scheduler and is admitted fits on pool nodes only, and the dedicated
taint does not keep it off them; what it selected and tolerated before it still does; it has a named
service account; and admitted again it stays as it is. -/
theorem admitted_pods_are_pinned (hadds : AddsMembers applyPatch)
    (hfilters : Filters tolerates feasible) (hown : pod.schedulerName = some cfg.schedulerName)
    (h : review cfg applyPatch pod = some q) :
    (∀ node, feasible q node → node.labels.lookup cfg.poolLabel = some cfg.poolValue) ∧
      (∀ v, ∃ t ∈ q.tolerations.getD [], tolerates t ⟨cfg.taintKey, v, "NoSchedule"⟩ = true) ∧
      (∀ k, k ≠ cfg.poolLabel →
        (q.nodeSelector.getD ∅).lookup k = (pod.nodeSelector.getD ∅).lookup k) ∧
      pod.tolerations.getD [] <+: q.tolerations.getD [] ∧
      (∃ sa, q.serviceAccountName = some sa ∧ sa ≠ "default" ∧ sa ≠ "") ∧
      review cfg applyPatch q = some q := by
  obtain ⟨q', hinject, hguards⟩ := Option.bind_eq_some_iff.mp h
  split_ifs at hguards with hpass
  cases hguards
  rw [inject_of_target hadds hown] at hinject
  obtain ⟨after, htolerant, rfl⟩ := Option.map_eq_some_iff.mp hinject
  obtain ⟨hkept, hexact⟩ := tolerant_spec htolerant
  have hpinned : (pinned cfg pod.nodeSelector).lookup cfg.poolLabel = some cfg.poolValue :=
    Finmap.lookup_insert _
  refine ⟨fun node hfeasible => ((hfilters.feasible_iff _ _).mp hfeasible).1 _ _ hpinned,
    fun v => ?_, fun k hk => ?_, hkept, ?_, ?_⟩
  · obtain ⟨t, ht, hkey, hop, heffect⟩ := hexact
    exact ⟨t, ht, hfilters.covers t _ hkey hop heffect⟩
  · exact Finmap.lookup_insert_of_ne _ hk
  · rw [Bool.and_eq_true] at hpass
    exact (saGuard_of_target hown).mp hpass.2
  · let q : StoredPod := { pod with
      nodeSelector := some (pinned cfg pod.nodeSelector), tolerations := some after }
    have hq : q.schedulerName = some cfg.schedulerName := hown
    have hselector : pinned cfg q.nodeSelector = pinned cfg pod.nodeSelector :=
      Finmap.insert_insert _
    have htolerations : tolerant cfg q.tolerations = some after := tolerant_of_exact hexact
    have hfixed : inject cfg applyPatch q = some q := by
      rw [inject_of_target hadds hq, htolerations, Option.map_some, hselector]
    rw [review, hfixed, Option.bind_some, if_pos hpass]

/-- A pod of another scheduler, outside the system namespaces and the DaemonSets, gets past the
policies and fits on a tainted pool node if and only if it selects labels of the node other than
that of the pool, tolerates nothing by the key of the taint, and has a toleration without a key
that covers the taint. -/
theorem foreign_pods_reach_pool_iff (hfilters : Filters tolerates feasible)
    (hforeign : pod.schedulerName ≠ some cfg.schedulerName)
    (hns : pod.ns ∉ systemNamespaces) (howner : "DaemonSet" ∉ pod.ownerKinds.getD [])
    {node : Node} (hpool : node.labels.lookup cfg.poolLabel = some cfg.poolValue) {v : String}
    (htaint : node.taints = [⟨cfg.taintKey, v, "NoSchedule"⟩]) :
    (∃ q, review cfg applyPatch pod = some q ∧ feasible q node) ↔
      (∀ k w, (pod.nodeSelector.getD ∅).lookup k = some w →
        k ≠ cfg.poolLabel ∧ node.labels.lookup k = some w) ∧
      (∀ t ∈ pod.tolerations.getD [], t.key ≠ some cfg.taintKey) ∧
      ∃ t ∈ pod.tolerations.getD [], t.key.getD "" = "" ∧
        tolerates t ⟨cfg.taintKey, v, "NoSchedule"⟩ = true := by
  have hreview : ∀ q, review cfg applyPatch pod = some q ↔ q = pod ∧ ¬ NamesPool cfg pod := by
    intro q
    rw [review, inject_of_foreign hforeign, Option.bind_some, saGuard_of_foreign hforeign,
      Bool.and_true, ← poolGuard_of_foreign hforeign hns howner]
    by_cases hguard : poolGuard cfg pod = true <;> simp [hguard, eq_comm]
  simp only [hreview, NamesPool, not_or, not_exists, not_and, hfilters.feasible_iff]
  constructor
  · rintro ⟨q, ⟨rfl, hsel, htol⟩, hlabels, htaints⟩
    refine ⟨fun k w hk => ⟨?_, hlabels k w hk⟩, htol, ?_⟩
    · -- the node has the label of the pool, so the pod would name the pool
      rintro rfl
      have hvalue := hlabels _ w hk
      rw [hpool] at hvalue
      exact hsel (hk.trans hvalue.symm)
    · obtain ⟨t, ht, htolerates⟩ :=
        htaints ⟨cfg.taintKey, v, "NoSchedule"⟩ (by simp [htaint]) (Or.inl rfl)
      refine ⟨t, ht, ?_, htolerates⟩
      have hkeyed := hfilters.keyed t _ htolerates
      cases hopt : t.key with
      | none => rfl
      | some key =>
        refine (hkeyed key hopt).resolve_right fun hkey => htol t ht ?_
        rw [hopt, hkey]
  · rintro ⟨hsel, htol, t, ht, -, htolerates⟩
    refine ⟨pod, ⟨rfl, fun hlabel => (hsel _ _ hlabel).1 rfl, htol⟩,
      fun k w hk => (hsel k w hk).2, fun taint hmem _ => ?_⟩
    rw [htaint, List.mem_singleton] at hmem
    exact ⟨t, ht, hmem ▸ htolerates⟩

def addMember (pod : StoredPod) (patch : JSONPatch) : Option StoredPod :=
  match (JsonPointer.tokens patch.path.toList).map (List.map String.ofList), patch.value with
  | some ["spec", "nodeSelector"], .selector m => some { pod with nodeSelector := some m }
  | some ["spec", "nodeSelector", key], .text v =>
    pod.nodeSelector.map fun m => { pod with nodeSelector := some (m.insert key v) }
  | some ["spec", "tolerations"], .tolerations l => some { pod with tolerations := some l }
  | some ["spec", "tolerations", "-"], .toleration t =>
    pod.tolerations.map fun l => { pod with tolerations := some (l ++ [t]) }
  | _, _ => none

lemma addMember_adds : AddsMembers addMember where
  selector pod path m hpath := by
    rw [Leads] at hpath
    simp [addMember, hpath]
  label pod path key v m hpath hm := by
    rw [Leads] at hpath
    simp [addMember, hpath, hm]
  tolerations pod path l hpath := by
    rw [Leads] at hpath
    simp [addMember, hpath]
  toleration pod path t l hpath hl := by
    rw [Leads] at hpath
    simp [addMember, hpath, hl]

def existsFor (t : Toleration) (taint : Taint) : Bool :=
  decide (t.operator = some "Exists" ∧ (∀ key ∈ t.key, key = "" ∨ key = taint.key) ∧
    ∀ effect ∈ t.effect, effect = "" ∨ effect = taint.effect)

def fits (pod : StoredPod) (node : Node) : Prop :=
  (∀ k v, (pod.nodeSelector.getD ∅).lookup k = some v → node.labels.lookup k = some v) ∧
    ∀ taint ∈ node.taints, taint.effect = "NoSchedule" ∨ taint.effect = "NoExecute" →
      ∃ t ∈ pod.tolerations.getD [], existsFor t taint = true

lemma fits_filters : Filters existsFor fits where
  covers t taint hkey hop heffect := by simp [existsFor, hkey, hop, heffect]
  keyed t taint h := (of_decide_eq_true h).2.1
  feasible_iff _ _ := Iff.rfl

def shipped : PoolConfig :=
  ⟨"ad-scheduler", "scheduler.arenadata.io/name", "ad-scheduler",
    "scheduler.arenadata.io/dedicated"⟩

def storedPod (scheduler : String) (tolerations : List Toleration) : StoredPod :=
  ⟨"team", none, some scheduler, some "runner", none, some tolerations⟩

def everything : Toleration := ⟨none, some "Exists", none, none⟩

theorem tolerant_pod_denied :
    inject shipped addMember (storedPod "ad-scheduler" [everything]) = none :=
  (mutation_denies_iff addMember_adds rfl).mpr ⟨by simp [storedPod, everything, Exact],
    everything, List.mem_singleton_self _, by simp [Compatible, everything]⟩

theorem batch_pod_pinned :
    ∃ q, review shipped addMember (storedPod "ad-scheduler" []) = some q ∧
      ∀ node, fits q node →
        node.labels.lookup "scheduler.arenadata.io/name" = some "ad-scheduler" := by
  have hsome : (review shipped addMember (storedPod "ad-scheduler" [])).isSome = true := by
    decide +kernel
  obtain ⟨q, hq⟩ := Option.isSome_iff_exists.mp hsome
  exact ⟨q, hq, (admitted_pods_are_pinned addMember_adds fits_filters rfl hq).1⟩

theorem default_pod_on_pool :
    let node : Node := ⟨Finmap.singleton "scheduler.arenadata.io/name" "ad-scheduler",
      [⟨"scheduler.arenadata.io/dedicated", "ad-scheduler", "NoSchedule"⟩]⟩
    ∃ q, review shipped addMember (storedPod "default-scheduler" [everything]) = some q ∧
      fits q node := by
  intro node
  have hpool : node.labels.lookup shipped.poolLabel = some shipped.poolValue := by decide
  refine (foreign_pods_reach_pool_iff fits_filters (by decide) (by decide) (by decide) hpool
    rfl).mpr ⟨fun k w hk => ?_, by decide, everything, by decide, by decide, by decide⟩
  cases hk

end Dedicated

end AdScheduler.PodAdmission
