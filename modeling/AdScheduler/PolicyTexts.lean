import AdScheduler.CelText
import AdScheduler.PodAdmission

/-! The texts of the pod policies and the check of the settings that go into them, after
`pkg/admission/map.go`, `pool_guard.go`, `sa_guard.go`, `pkg/config/model.go` and `validate.go`.
The policies are rendered from the settings of the process by pasting them between quotation marks;
what the rendered texts mean is what the policies of pods are taken to be. -/
namespace AdScheduler.PolicyTexts
open KeyedMap CelText PodAdmission
open Cel (both anyItem)

section Renderers

/-- `fmt.Sprintf` with `%s` only: the text before each verb with its argument, and the rest. -/
def sprintf (parts : List (String × String)) (last : String) : String :=
  parts.foldr (fun p rest => p.1 ++ p.2 ++ rest) last

def mapTrigger (schedulerName : String) : String :=
  sprintf [("has(object.spec.schedulerName) && object.spec.schedulerName == '", schedulerName)] "'"

def generateMAPMutation (poolLabel poolValue taintKey : String) : String :=
  let esc := jsonPatchEscape poolLabel
  sprintf
    [("(\n  has(object.spec.nodeSelector)\n    ? [JSONPatch\x7bop: \"add\", " ++
        "path: \"/spec/nodeSelector/", esc),
      ("\", value: \"", poolValue),
      ("\"\x7d]\n    : [JSONPatch\x7bop: \"add\", path: \"/spec/nodeSelector\", value: \x7b\"",
        poolLabel),
      ("\": \"", poolValue),
      ("\"\x7d\x7d]\n) + (\n  has(object.spec.tolerations)\n    ? (" ++
        "object.spec.tolerations.exists(t, t.key == \"", taintKey),
      ("\" && t.operator == \"Exists\" && t.effect == \"NoSchedule\")\n        ? []\n        " ++
        ": [JSONPatch\x7bop: \"add\", path: \"/spec/tolerations/-\", value: \x7b\"key\": \"",
        taintKey),
      ("\", \"operator\": \"Exists\", \"effect\": \"NoSchedule\"\x7d\x7d])\n    " ++
        ": [JSONPatch\x7bop: \"add\", path: \"/spec/tolerations\", value: [\x7b\"key\": \"",
        taintKey)]
    "\", \"operator\": \"Exists\", \"effect\": \"NoSchedule\"\x7d]\x7d]\n)"

structure MAPArtifacts where
  trigger : String
  mutation : String

def generateMAP (schedulerName poolLabel poolValue taintKey : String) : MAPArtifacts where
  trigger := mapTrigger schedulerName
  mutation := generateMAPMutation poolLabel poolValue taintKey

def poolGuardWantsPool (poolLabel poolValue taintKey : String) : String :=
  sprintf
    [("(has(object.spec.nodeSelector) && '", poolLabel),
      ("' in object.spec.nodeSelector && object.spec.nodeSelector['", poolLabel),
      ("'] == '", poolValue),
      ("') || (has(object.spec.tolerations) && " ++
        "object.spec.tolerations.exists(t, has(t.key) && t.key == '", taintKey)]
    "'))"

def poolGuardValidation (schedulerName : String) : String :=
  sprintf [("!variables.wantsPool || (has(object.spec.schedulerName) && " ++
    "object.spec.schedulerName == '", schedulerName)] "')"

def poolGuardExemptDaemonSet : String :=
  "!(has(object.metadata.ownerReferences) && " ++
    "object.metadata.ownerReferences.exists(o, o.kind == 'DaemonSet'))"

def poolGuardMessage (schedulerName : String) : String :=
  sprintf [("a pod that targets the ad-scheduler dedicated pool (its nodeSelector or dedicated " ++
    "toleration) must set spec.schedulerName: ", schedulerName)] ""

structure PoolGuard where
  wantsPool : String
  validation : String
  exemptDaemonSet : String
  message : String

def generatePoolGuard (schedulerName poolLabel poolValue taintKey : String) : PoolGuard where
  wantsPool := poolGuardWantsPool poolLabel poolValue taintKey
  validation := poolGuardValidation schedulerName
  exemptDaemonSet := poolGuardExemptDaemonSet
  message := poolGuardMessage schedulerName

structure SAGuard where
  trigger : String
  validation : String
  message : String

def generateSAGuard (schedulerName : String) : SAGuard where
  trigger := mapTrigger schedulerName
  validation :=
    "object.spec.serviceAccountName != 'default' && object.spec.serviceAccountName != ''"
  message := sprintf [("a pod scheduled by ", schedulerName)]
    " must use a named ServiceAccount — the default SA maps to no queue (decision q21); " ++
      "set spec.serviceAccountName"

end Renderers

section Settings

/-- The values of a setting that is a string in the source. -/
inductive NodePoolMode
  | exclusive
  | shared
  | other (s : String)
  deriving DecidableEq

inductive TreeInvalidityPolicy
  | subtreeLocal
  | wholeTree
  | other (s : String)
  deriving DecidableEq

structure NodePoolConfig where
  labelSelector : String
  mode : NodePoolMode
  taintKey : String

/-- The settings that are checked; the timeout is in nanoseconds. -/
structure ProcessConfig where
  schedulerName : String
  nodePool : NodePoolConfig
  gangScheduleTimeout : ℤ
  treeInvalidityPolicy : TreeInvalidityPolicy

/-- `unicode.IsSpace` -/
def isSpace (c : Char) : Bool :=
  c.toNat ∈ [0x09, 0x0a, 0x0b, 0x0c, 0x0d, 0x20, 0x85, 0xa0, 0x1680, 0x2028, 0x2029, 0x202f,
    0x205f, 0x3000] ||
    (decide (0x2000 ≤ c.toNat) && decide (c.toNat ≤ 0x200a))

def trimSpace (s : List Char) : List Char := (s.dropWhile isSpace).rdropWhile isSpace

/-- The label and the value of a selector that is one pair. -/
def NodePoolConfig.poolLabelValue (n : NodePoolConfig) : Option (String × String) :=
  match n.labelSelector.toList.dropWhile (· ≠ '=') with
  | [] => none
  | _ :: v =>
    let label := trimSpace (n.labelSelector.toList.takeWhile (· ≠ '='))
    let value := trimSpace v
    if label = [] ∨ value = [] then none else some (String.ofList label, String.ofList value)

/-- A character that could end or escape a string literal. -/
def isForbidden (c : Char) : Bool :=
  decide (c = apostrophe) || decide (c = quotationMark) || decide (c = backslash) ||
    decide (c.toNat = 0x60) || decide (c.toNat < 0x20) || decide (c.toNat = 0x7f)

inductive ConfigError
  | forbidden (name : String) (c : Char)
  | noSchedulerName
  | badMode (got : NodePoolMode)
  | noLabelSelector
  | noTaintKey
  | badInvalidityPolicy (got : TreeInvalidityPolicy)
  | badGangTimeout (got : ℤ)
  deriving DecidableEq

def checkCELSafe (v : String) : Except Char Unit :=
  match v.toList.find? isForbidden with
  | some c => .error c
  | none => .ok ()

/-- The settings that go into the texts, by their names. The source keeps them in a map. -/
def ProcessConfig.interpolated (c : ProcessConfig) : List (String × String) :=
  [("scheduler-name", c.schedulerName), ("node-pool-label-selector", c.nodePool.labelSelector),
    ("node-pool-taint-key", c.nodePool.taintKey)]

/-- The first of the settings, in the order in which they are visited, that has a forbidden
character. -/
def checkInterpolated : List (String × String) → Except ConfigError Unit
  | [] => .ok ()
  | (name, v) :: rest =>
    match checkCELSafe v with
    | .error c => .error (.forbidden name c)
    | .ok () => checkInterpolated rest

/-- `visit` is the order in which the map of the settings is ranged over. -/
def ProcessConfig.validate (visit : List (String × String)) (c : ProcessConfig) :
    Except ConfigError Unit := do
  checkInterpolated visit
  if trimSpace c.schedulerName.toList = [] then throw .noSchedulerName
  match c.nodePool.mode with
  | .exclusive | .shared => pure ()
  | .other s => throw (.badMode (.other s))
  if trimSpace c.nodePool.labelSelector.toList = [] then throw .noLabelSelector
  if c.nodePool.mode = .exclusive ∧ trimSpace c.nodePool.taintKey.toList = [] then throw .noTaintKey
  match c.treeInvalidityPolicy with
  | .subtreeLocal | .wholeTree => pure ()
  | .other s => throw (.badInvalidityPolicy (.other s))
  if c.gangScheduleTimeout ≤ 0 then throw (.badGangTimeout c.gangScheduleTimeout)

def defaults : ProcessConfig where
  schedulerName := "ad-scheduler"
  nodePool :=
    { labelSelector := "scheduler.arenadata.io/name=ad-scheduler"
      mode := .exclusive
      taintKey := "scheduler.arenadata.io/dedicated" }
  gangScheduleTimeout := 300 * 1000000000
  treeInvalidityPolicy := .subtreeLocal

end Settings

section Checks
variable {c : ProcessConfig} {visit : List (String × String)}

lemma plain_of_checkCELSafe {v : String} (h : checkCELSafe v = .ok ()) : Plain v.toList := by
  unfold checkCELSafe at h
  split at h
  · cases h
  · rename_i hnone
    intro x hx
    have hx' := List.find?_eq_none.mp hnone x hx
    simp only [isForbidden, Bool.or_eq_true, decide_eq_true_eq, not_or] at hx'
    obtain ⟨⟨⟨⟨⟨hapostrophe, hquotation⟩, hbackslash⟩, -⟩, hcontrol⟩, -⟩ := hx'
    have hnewline : x ≠ '\n' := by
      rintro rfl
      exact hcontrol (by decide)
    have hreturn : x ≠ '\r' := by
      rintro rfl
      exact hcontrol (by decide)
    simp [isQuote, isSpecial, hapostrophe, hquotation, hbackslash, hnewline, hreturn]

lemma checkInterpolated_ok (h : checkInterpolated visit = .ok ()) :
    ∀ p ∈ visit, Plain p.2.toList := by
  induction visit with
  | nil => simp
  | cons p rest ih =>
    obtain ⟨name, v⟩ := p
    unfold checkInterpolated at h
    split at h
    · cases h
    · rename_i hsafe
      intro p hp
      rcases List.mem_cons.mp hp with rfl | hrest
      · exact plain_of_checkCELSafe hsafe
      · exact ih h p hrest

lemma plain_of_validate (hvisit : visit.Perm c.interpolated) (h : c.validate visit = .ok ()) :
    Plain c.schedulerName.toList ∧ Plain c.nodePool.labelSelector.toList ∧
      Plain c.nodePool.taintKey.toList := by
  have hchecked : checkInterpolated visit = .ok () := by
    unfold ProcessConfig.validate at h
    cases hcheck : checkInterpolated visit with
    | error e =>
      rw [hcheck] at h
      cases h
    | ok u => rfl
  have hplain : ∀ p ∈ c.interpolated, Plain p.2.toList := fun p hp =>
    checkInterpolated_ok hchecked p (hvisit.mem_iff.mpr hp)
  simpa [ProcessConfig.interpolated] using hplain

lemma mem_of_mem_trimSpace {x : Char} {s : List Char} (h : x ∈ trimSpace s) : x ∈ s :=
  (List.dropWhile_suffix _).subset ((List.rdropWhile_prefix _ _).subset h)

lemma plain_poolLabelValue {n : NodePoolConfig} {label value : String}
    (h : n.poolLabelValue = some (label, value)) (hplain : Plain n.labelSelector.toList) :
    Plain label.toList ∧ Plain value.toList := by
  unfold NodePoolConfig.poolLabelValue at h
  split at h
  · cases h
  · rename_i v hv
    dsimp only at h
    split_ifs at h
    cases h
    have hrest : v ⊆ n.labelSelector.toList := fun x hx =>
      (List.dropWhile_suffix _).subset (hv ▸ List.mem_cons_of_mem _ hx)
    rw [String.toList_ofList, String.toList_ofList]
    exact ⟨fun x hx => hplain x ((List.takeWhile_prefix _).subset (mem_of_mem_trimSpace hx)),
      fun x hx => hplain x (hrest (mem_of_mem_trimSpace hx))⟩

lemma plain_jsonPatchEscape {label : String} (h : Plain label.toList) :
    Plain (jsonPatchEscape label).toList := by
  rw [jsonPatchEscape_toList]
  intro x hx
  obtain ⟨y, hy, hxy⟩ := List.mem_flatMap.mp hx
  unfold JsonPointer.escapeChar at hxy
  have hsafe : ∀ z : Char, z = '~' ∨ z = '0' ∨ z = '1' →
      isQuote z = false ∧ isSpecial z = false := by
    rintro z (rfl | rfl | rfl) <;> exact ⟨rfl, rfl⟩
  split_ifs at hxy
  · exact hsafe x (by aesop)
  · exact hsafe x (by aesop)
  · rw [List.mem_singleton.mp hxy]
    exact h y hy

end Checks

section Objects

def tolerationVal (t : Toleration) : Val :=
  .map (fields [("key", t.key.map .ofString), ("operator", t.operator.map .ofString),
    ("value", t.value.map .ofString), ("effect", t.effect.map .ofString)])

def selectorFields (m : Map String String) : List (List Char × Val) :=
  (entries (sortedKeys m) m).map fun kv => (kv.1.toList, .ofString kv.2)

def ownerVal (kind : String) : Val := .map (fields [("kind", some (.ofString kind))])

def specFields (pod : StoredPod) : List (List Char × Val) :=
  fields [("nodeSelector", pod.nodeSelector.map fun m => .map (selectorFields m)),
    ("schedulerName", pod.schedulerName.map .ofString),
    ("serviceAccountName", pod.serviceAccountName.map .ofString),
    ("tolerations", pod.tolerations.map fun l => .list (l.map tolerationVal))]

def metadataFields (pod : StoredPod) : List (List Char × Val) :=
  fields [("namespace", some (.ofString pod.ns)),
    ("ownerReferences", pod.ownerKinds.map fun l => .list (l.map ownerVal))]

/-- The names that a policy of pods can use. A variable whose evaluation fails has no value. -/
def podEnv (pod : StoredPod) (wants : Option Bool) : List (List Char × Val) :=
  fields [("object", some (.map (fields [("metadata", some (.map (metadataFields pod))),
      ("spec", some (.map (specFields pod)))]))),
    ("variables", some (.map (fields [("wantsPool", wants.map .bool)])))]

def patchValueVal : PatchValue → Val
  | .text s => .ofString s
  | .selector m => .map (selectorFields m)
  | .toleration t => tolerationVal t
  | .tolerations l => .list (l.map tolerationVal)

def patchVal (patch : JSONPatch) : Val :=
  .object "JSONPatch".toList [("op".toList, .ofString "add"), ("path".toList, .ofString patch.path),
    ("value".toList, patchValueVal patch.value)]

end Objects

section Syntax

lemma toList_sprintf (parts : List (String × String)) (last : String) :
    (sprintf parts last).toList =
      render (parts.map fun p => (p.1.toList, p.2.toList)) last.toList := by
  induction parts with
  | nil => simp [sprintf, render]
  | cons p parts ih =>
    simp only [sprintf, List.foldr_cons, String.toList_append] at ih ⊢
    simp [ih, render]

lemma read_sprintf {parts : List (String × String)} {last : String} {e : Expr}
    (hplain : ∀ p ∈ parts, Plain p.2.toList)
    (h : ((tokensOf .between (parts.map fun p => (p.1.toList, p.2.toList)) last.toList).bind
      fun ts => parse (10 * (ts.length + 1)) .expr ts) = some (e, [])) :
    read (sprintf parts last).toList = some e := by
  rw [toList_sprintf]
  refine read_render (fun p hp => ?_) h
  obtain ⟨q, hq, rfl⟩ := List.mem_map.mp hp
  exact hplain q hq

def field (e : Expr) (f : String) : Expr := .select e f.toList

def spec : Expr := field (.name "object".toList) "spec"

/-- `e.f == 'lit'` -/
def fieldIs (e : Expr) (f lit : String) : Expr := .binary .eq (field e f) (.text lit.toList)

def namesScheduler (schedulerName : String) : Expr :=
  .binary .and (.has spec "schedulerName".toList) (fieldIs spec "schedulerName" schedulerName)

def toleration : Expr := .name "t".toList

def wantsPoolExpr (cfg : PoolConfig) : Expr :=
  .binary .or
    (.binary .and
      (.binary .and (.has spec "nodeSelector".toList)
        (.binary .isIn (.text cfg.poolLabel.toList) (field spec "nodeSelector")))
      (.binary .eq (.index (field spec "nodeSelector") (.text cfg.poolLabel.toList))
        (.text cfg.poolValue.toList)))
    (.binary .and (.has spec "tolerations".toList)
      (.any (field spec "tolerations") "t".toList
        (.binary .and (.has toleration "key".toList) (fieldIs toleration "key" cfg.taintKey))))

def validationExpr (schedulerName : String) : Expr :=
  .binary .or (.not (field (.name "variables".toList) "wantsPool")) (namesScheduler schedulerName)

def metadata : Expr := field (.name "object".toList) "metadata"

def exemptExpr : Expr :=
  .not (.binary .and (.has metadata "ownerReferences".toList)
    (.any (field metadata "ownerReferences") "o".toList
      (fieldIs (.name "o".toList) "kind" "DaemonSet")))

def accountExpr : Expr :=
  .binary .and (.binary .ne (field spec "serviceAccountName") (.text "default".toList))
    (.binary .ne (field spec "serviceAccountName") (.text "".toList))

def addPatch (path : List Char) (value : Expr) : Expr :=
  .cons (.object "JSONPatch".toList (.field "op".toList (.text "add".toList)
    (.field "path".toList (.text path) (.field "value".toList value .noFields)))) .nil

def dedicatedExpr (taintKey : String) : Expr :=
  .field "key".toList (.text taintKey.toList) (.field "operator".toList (.text "Exists".toList)
    (.field "effect".toList (.text "NoSchedule".toList) .noFields))

def isDedicatedExpr (taintKey : String) : Expr :=
  .binary .and
    (.binary .and (fieldIs toleration "key" taintKey) (fieldIs toleration "operator" "Exists"))
    (fieldIs toleration "effect" "NoSchedule")

def mutationExpr (cfg : PoolConfig) : Expr :=
  .binary .plus
    (.cond (.has spec "nodeSelector".toList)
      (addPatch ("/spec/nodeSelector/".toList ++ (jsonPatchEscape cfg.poolLabel).toList)
        (.text cfg.poolValue.toList))
      (addPatch "/spec/nodeSelector".toList
        (.field cfg.poolLabel.toList (.text cfg.poolValue.toList) .noFields)))
    (.cond (.has spec "tolerations".toList)
      (.cond (.any (field spec "tolerations") "t".toList (isDedicatedExpr cfg.taintKey)) .nil
        (addPatch "/spec/tolerations/-".toList (dedicatedExpr cfg.taintKey)))
      (addPatch "/spec/tolerations".toList (.cons (dedicatedExpr cfg.taintKey) .nil)))

end Syntax

section Reading
variable (cfg : PoolConfig)

lemma read_mapTrigger {name : String} (h : Plain name.toList) :
    read (mapTrigger name).toList = some (namesScheduler name) :=
  read_sprintf (by simpa using h) (by dsimp only [List.map]; rfl)

set_option maxRecDepth 20000 in
lemma read_wantsPool (hlabel : Plain cfg.poolLabel.toList) (hvalue : Plain cfg.poolValue.toList)
    (hkey : Plain cfg.taintKey.toList) :
    read (poolGuardWantsPool cfg.poolLabel cfg.poolValue cfg.taintKey).toList
      = some (wantsPoolExpr cfg) :=
  read_sprintf (by simp [hlabel, hvalue, hkey]) (by dsimp only [List.map]; rfl)

lemma read_validation {name : String} (h : Plain name.toList) :
    read (poolGuardValidation name).toList = some (validationExpr name) :=
  read_sprintf (by simpa using h) (by dsimp only [List.map]; rfl)

lemma read_exempt : read poolGuardExemptDaemonSet.toList = some exemptExpr := by decide +kernel

lemma read_account (name : String) :
    read (generateSAGuard name).validation.toList = some accountExpr := by
  have hname : read (generateSAGuard "").validation.toList = some accountExpr := by decide +kernel
  exact hname

set_option maxRecDepth 20000 in
lemma read_mutation (hlabel : Plain cfg.poolLabel.toList) (hvalue : Plain cfg.poolValue.toList)
    (hkey : Plain cfg.taintKey.toList) :
    read (generateMAPMutation cfg.poolLabel cfg.poolValue cfg.taintKey).toList
      = some (mutationExpr cfg) :=
  read_sprintf (by simp [hlabel, hvalue, hkey, plain_jsonPatchEscape hlabel])
    (by dsimp only [List.map]; rfl)

end Reading

section Meaning
variable (cfg : PoolConfig) (pod : StoredPod) (wants : Option Bool)

lemma lookup_entries (m : Map String String) (k : String) (order : List String)
    (hall : k ∈ m → k ∈ order) :
    ((entries order m).map fun kv => (kv.1.toList, Val.ofString kv.2)).lookup k.toList
      = (m.lookup k).map .ofString := by
  induction order with
  | nil =>
    have hno : k ∉ m := fun hk => List.not_mem_nil (hall hk)
    simp [entries, Finmap.lookup_eq_none.mpr hno]
  | cons j rest ih =>
    by_cases hkj : k = j
    · cases hlookup : m.lookup j with
      | none =>
        have hno : k ∉ m := Finmap.lookup_eq_none.mp (hkj ▸ hlookup)
        have hrest := ih fun hk => absurd hk hno
        simp only [entries] at hrest
        simp [entries, hlookup, hrest]
      | some v =>
        rw [hkj, hlookup]
        simp [entries, hlookup]
    · have hne : (k.toList == j.toList) = false :=
        beq_eq_false_iff_ne.mpr fun heq => hkj (String.toList_injective heq)
      have hrest := ih fun hk => List.mem_of_ne_of_mem hkj (hall hk)
      simp only [entries] at hrest
      cases hlookup : m.lookup j with
      | none => simp [entries, hlookup, hrest]
      | some v => simp [entries, hlookup, hne, List.lookup_cons, hrest]

lemma lookup_selectorFields (m : Map String String) (k : String) :
    (selectorFields m).lookup k.toList = (m.lookup k).map .ofString :=
  lookup_entries m k _ ((sortedKeys_visits m).2 k).mpr

lemma eval_spec : spec.eval (podEnv pod wants) = some (.map (specFields pod)) := by
  simp [spec, field, podEnv, Val.asMap, -String.reduceToList]

lemma eval_metadata : metadata.eval (podEnv pod wants) = some (.map (metadataFields pod)) := by
  simp [metadata, field, podEnv, Val.asMap, -String.reduceToList]

lemma lookup_specFields :
    (specFields pod).lookup "nodeSelector".toList
        = pod.nodeSelector.map (fun m => .map (selectorFields m)) ∧
      (specFields pod).lookup "schedulerName".toList = pod.schedulerName.map .ofString ∧
      (specFields pod).lookup "serviceAccountName".toList = pod.serviceAccountName.map .ofString ∧
      (specFields pod).lookup "tolerations".toList
        = pod.tolerations.map (fun l => .list (l.map tolerationVal)) := by
  simp [specFields, -String.reduceToList]

lemma means_namesScheduler :
    Means (podEnv pod wants) (namesScheduler cfg.schedulerName)
      (PodAdmission.mapTrigger cfg pod) := by
  have hspec := eval_spec pod wants
  have hname := (lookup_specFields pod).2.1
  exact (Means.has hspec hname).and (Means.eq ((eval_select hspec _).trans hname) _)

lemma means_account :
    Means (podEnv pod wants) accountExpr
      (both (isNotLiteral pod.serviceAccountName "default")
        (isNotLiteral pod.serviceAccountName "")) := by
  have hname := (eval_select (eval_spec pod wants) _).trans (lookup_specFields pod).2.2.1
  exact (Means.ne hname _).and (Means.ne hname _)

lemma means_exempt :
    Means (podEnv pod wants) exemptExpr (PodAdmission.poolGuardExemptDaemonSet pod) := by
  have hmetadata := eval_metadata pod wants
  have howners : (metadataFields pod).lookup "ownerReferences".toList
      = pod.ownerKinds.map fun l => .list (l.map ownerVal) := by
    simp [metadataFields, -String.reduceToList]
  have hkind : ∀ kind, (field (.name "o".toList) "kind").eval
      (("o".toList, ownerVal kind) :: podEnv pod wants) = (some kind).map .ofString := by
    simp [field, ownerVal, Val.asMap, -String.reduceToList]
  exact ((Means.has hmetadata howners).and
    (Means.any ((eval_select hmetadata _).trans howners) fun kind => Means.eq (hkind kind) _)).not

lemma eval_toleration (env : List (List Char × Val)) (t : Toleration) :
    toleration.eval (("t".toList, tolerationVal t) :: env) = some (tolerationVal t) := by
  simp [toleration]

lemma lookup_tolerationVal (t : Toleration) :
    ∃ fs, tolerationVal t = .map fs ∧ fs.lookup "key".toList = t.key.map .ofString ∧
      fs.lookup "operator".toList = t.operator.map .ofString ∧
      fs.lookup "effect".toList = t.effect.map .ofString := by
  refine ⟨_, rfl, ?_⟩
  simp [-String.reduceToList]

lemma means_tolerates :
    Means (podEnv pod wants) (.binary .and (.has spec "tolerations".toList)
      (.any (field spec "tolerations") "t".toList
        (.binary .and (.has toleration "key".toList) (fieldIs toleration "key" cfg.taintKey))))
      (both (present pod.tolerations) (pod.tolerations.bind
        (anyItem fun t => both (present t.key) (isLiteral t.key cfg.taintKey)))) := by
  have hspec := eval_spec pod wants
  obtain ⟨-, -, -, htolerations⟩ := lookup_specFields pod
  refine (Means.has hspec htolerations).and
    (Means.any ((eval_select hspec _).trans htolerations) fun t => ?_)
  obtain ⟨fs, hfs, hkey, -, -⟩ := lookup_tolerationVal t
  have ht := eval_toleration (podEnv pod wants) t
  rw [hfs] at ht ⊢
  exact (Means.has ht hkey).and (Means.eq ((eval_select ht _).trans hkey) _)

lemma means_selects :
    Means (podEnv pod wants) (.binary .and
      (.binary .and (.has spec "nodeSelector".toList)
        (.binary .isIn (.text cfg.poolLabel.toList) (field spec "nodeSelector")))
      (.binary .eq (.index (field spec "nodeSelector") (.text cfg.poolLabel.toList))
        (.text cfg.poolValue.toList)))
      (both (both (present pod.nodeSelector)
          (pod.nodeSelector.map fun m => decide (cfg.poolLabel ∈ m)))
        (isLiteral (pod.nodeSelector.bind fun m => m.lookup cfg.poolLabel) cfg.poolValue)) := by
  have hspec := eval_spec pod wants
  obtain ⟨hselector, -, -, -⟩ := lookup_specFields pod
  have hmap : (field spec "nodeSelector").eval (podEnv pod wants)
      = (pod.nodeSelector.map selectorFields).map .map := by
    rw [field, eval_select hspec, hselector, Option.map_map]
    rfl
  have hin := Means.isIn hmap cfg.poolLabel.toList
  have hindex : (Expr.index (field spec "nodeSelector") (.text cfg.poolLabel.toList)).eval
      (podEnv pod wants)
        = (pod.nodeSelector.bind fun m => m.lookup cfg.poolLabel).map .ofString := by
    rw [eval_index hmap]
    cases pod.nodeSelector <;> simp [lookup_selectorFields]
  simp only [Option.map_map, Function.comp_def, lookup_selectorFields, Option.isSome_map] at hin
  have hmem : ∀ m : Map String String,
      (m.lookup cfg.poolLabel).isSome = decide (cfg.poolLabel ∈ m) := by
    intro m
    rw [Bool.eq_iff_iff, decide_eq_true_eq, Finmap.lookup_isSome]
  simp only [hmem] at hin
  exact ((Means.has hspec hselector).and hin).and (Means.eq hindex _)

lemma means_wantsPool :
    Means (podEnv pod wants) (wantsPoolExpr cfg) (wantsPool cfg pod) :=
  (means_selects cfg pod wants).or (means_tolerates cfg pod wants)

lemma means_validation :
    Means (podEnv pod (wantsPool cfg pod)) (validationExpr cfg.schedulerName)
      (PodAdmission.poolGuardValidation cfg pod) := by
  have hwants : Means (podEnv pod (wantsPool cfg pod))
      (field (.name "variables".toList) "wantsPool")
      (wantsPool cfg pod) := by
    have hvars : (Expr.name "variables".toList).eval (podEnv pod (wantsPool cfg pod))
        = some (.map (fields [("wantsPool", (wantsPool cfg pod).map .bool)])) := by
      simp [podEnv, -String.reduceToList]
    rw [Means, field, eval_select hvars]
    simp [-String.reduceToList]
  exact hwants.not.or (means_namesScheduler cfg pod _)

lemma means_isDedicated (env : List (List Char × Val)) (t : Toleration) :
    Means (("t".toList, tolerationVal t) :: env) (isDedicatedExpr cfg.taintKey)
      (isDedicated cfg t) := by
  obtain ⟨fs, hfs, hkey, hop, heffect⟩ := lookup_tolerationVal t
  have ht := eval_toleration env t
  rw [hfs] at ht ⊢
  exact ((Means.eq ((eval_select ht _).trans hkey) _).and
    (Means.eq ((eval_select ht _).trans hop) _)).and (Means.eq ((eval_select ht _).trans heffect) _)

lemma eval_addPatch {env : List (List Char × Val)} {path : String} {value : Expr} {v : PatchValue}
    (h : value.eval env = some (patchValueVal v)) :
    (addPatch path.toList value).eval env = some (.list [patchVal ⟨path, v⟩]) := by
  simp [addPatch, h, Val.asMap, Val.asList, patchVal, Val.ofString]

lemma eval_dedicated (env : List (List Char × Val)) :
    (dedicatedExpr cfg.taintKey).eval env = some (tolerationVal (dedicated cfg)) := by
  simp [dedicatedExpr, Val.asMap, tolerationVal, dedicated, fields, Val.ofString]

lemma selectorFields_singleton (k v : String) :
    selectorFields (Finmap.singleton k v) = [(k.toList, .ofString v)] := by
  have hkeys : sortedKeys (Finmap.singleton k v) = [k] := by
    rw [← List.perm_singleton, ← Multiset.coe_eq_coe, sortedKeys_perm, Finmap.keys_singleton]
    rfl
  simp [selectorFields, hkeys, entries]

lemma eval_selectorPatch :
    (Expr.cond (.has spec "nodeSelector".toList)
      (addPatch ("/spec/nodeSelector/".toList ++ (jsonPatchEscape cfg.poolLabel).toList)
        (.text cfg.poolValue.toList))
      (addPatch "/spec/nodeSelector".toList
        (.field cfg.poolLabel.toList (.text cfg.poolValue.toList) .noFields))).eval
          (podEnv pod wants)
      = some (.list [patchVal (selectorPatch cfg pod)]) := by
  have hhas := Means.has (eval_spec pod wants) (lookup_specFields pod).1
  rw [eval_cond hhas, Option.bind_some, selectorPatch, ← String.toList_append]
  cases pod.nodeSelector with
  | none =>
    refine eval_addPatch ?_
    simp [Val.asMap, patchValueVal, selectorFields_singleton, Val.ofString]
  | some m => exact eval_addPatch rfl

/-- The patches of the second half of the mutation. -/
def tolerationPatches : Option (List Toleration) → Option (List JSONPatch)
  | none => some [⟨"/spec/tolerations", .tolerations [dedicated cfg]⟩]
  | some ts => (anyItem (isDedicated cfg) ts).map fun found =>
      if found then [] else [⟨"/spec/tolerations/-", .toleration (dedicated cfg)⟩]

lemma mapMutation_eq : mapMutation cfg pod
    = (tolerationPatches cfg pod.tolerations).map (selectorPatch cfg pod :: ·) := by
  rw [mapMutation]
  cases pod.tolerations with
  | none => rfl
  | some ts => simp [tolerationPatches, Function.comp_def]

lemma eval_tolerationPatches :
    (Expr.cond (.has spec "tolerations".toList)
      (.cond (.any (field spec "tolerations") "t".toList (isDedicatedExpr cfg.taintKey)) .nil
        (addPatch "/spec/tolerations/-".toList (dedicatedExpr cfg.taintKey)))
      (addPatch "/spec/tolerations".toList (.cons (dedicatedExpr cfg.taintKey) .nil))).eval
        (podEnv pod wants)
      = (tolerationPatches cfg pod.tolerations).map fun patches =>
        .list (patches.map patchVal) := by
  have hspec := eval_spec pod wants
  obtain ⟨-, -, -, htolerations⟩ := lookup_specFields pod
  have hany : Means (podEnv pod wants)
      (.any (field spec "tolerations") "t".toList (isDedicatedExpr cfg.taintKey))
      (pod.tolerations.bind (anyItem (isDedicated cfg))) :=
    Means.any ((eval_select hspec _).trans htolerations) fun t => means_isDedicated cfg _ t
  have hdedicated := eval_dedicated cfg (podEnv pod wants)
  have hadd : (addPatch "/spec/tolerations/-".toList (dedicatedExpr cfg.taintKey)).eval
    (podEnv pod wants)
      = some (.list [patchVal ⟨"/spec/tolerations/-", .toleration (dedicated cfg)⟩]) :=
    eval_addPatch hdedicated
  have hall : (addPatch "/spec/tolerations".toList (.cons (dedicatedExpr cfg.taintKey) .nil)).eval
      (podEnv pod wants)
      = some (.list [patchVal ⟨"/spec/tolerations", .tolerations [dedicated cfg]⟩]) := by
    refine eval_addPatch ?_
    simp [hdedicated, Val.asList, patchValueVal]
  rw [eval_cond (Means.has hspec htolerations), eval_cond hany, hadd, hall]
  generalize podEnv pod wants = env
  cases pod.tolerations with
  | none => rfl
  | some ts =>
    rw [tolerationPatches, Option.bind_some, Option.bind_some]
    cases anyItem (isDedicated cfg) ts with
    | none => rfl
    | some found => cases found <;> rfl

lemma eval_mutation :
    (mutationExpr cfg).eval (podEnv pod wants)
      = (mapMutation cfg pod).map fun patches => .list (patches.map patchVal) := by
  rw [mutationExpr, Expr.eval, eval_selectorPatch, eval_tolerationPatches, mapMutation_eq]
  cases tolerationPatches cfg pod.tolerations <;> rfl

end Meaning

section Policies
variable {c : ProcessConfig} {visit : List (String × String)} {label value : String}

lemma meaning_of_read {env : List (List Char × Val)} {s : List Char} {e : Expr}
    (h : read s = some e) : meaning env s = e.eval env := by
  rw [meaning, h, Option.bind_some]

/-- Settings that pass the check, in whatever order they are visited, give texts that mean the
policies: on every stored pod the rendered conditions, the rendered patches and the rendered guards
have the values, and the failures, of the policies, whatever characters the names have otherwise. -/
theorem valid_settings_render_policies (hvisit : visit.Perm c.interpolated)
    (hvalid : c.validate visit = .ok ()) (hpool : c.nodePool.poolLabelValue = some (label, value))
    (pod : StoredPod) :
    let cfg : PoolConfig := ⟨c.schedulerName, label, value, c.nodePool.taintKey⟩
    let policy := generateMAP c.schedulerName label value c.nodePool.taintKey
    let guard := generatePoolGuard c.schedulerName label value c.nodePool.taintKey
    let account := generateSAGuard c.schedulerName
    let env := podEnv pod none
    meaning env policy.trigger.toList = (PodAdmission.mapTrigger cfg pod).map .bool ∧
      meaning env policy.mutation.toList
        = (mapMutation cfg pod).map (fun patches => .list (patches.map patchVal)) ∧
      meaning env guard.wantsPool.toList = (wantsPool cfg pod).map .bool ∧
      meaning (podEnv pod (wantsPool cfg pod)) guard.validation.toList
        = (PodAdmission.poolGuardValidation cfg pod).map .bool ∧
      meaning env guard.exemptDaemonSet.toList
        = (PodAdmission.poolGuardExemptDaemonSet pod).map .bool ∧
      meaning env account.trigger.toList = (PodAdmission.mapTrigger cfg pod).map .bool ∧
      meaning env account.validation.toList
        = (both (isNotLiteral pod.serviceAccountName "default")
            (isNotLiteral pod.serviceAccountName "")).map .bool := by
  intro cfg policy guard account env
  obtain ⟨hname, hselector, hkey⟩ := plain_of_validate hvisit hvalid
  obtain ⟨hlabel, hvalue⟩ := plain_poolLabelValue hpool hselector
  have htrigger : meaning env (mapTrigger c.schedulerName).toList
      = (PodAdmission.mapTrigger cfg pod).map .bool :=
    (meaning_of_read (read_mapTrigger hname)).trans (means_namesScheduler cfg pod none)
  refine ⟨htrigger, ?_, ?_, ?_, ?_, htrigger, ?_⟩
  · exact (meaning_of_read (read_mutation cfg hlabel hvalue hkey)).trans
      (eval_mutation cfg pod none)
  · exact (meaning_of_read (read_wantsPool cfg hlabel hvalue hkey)).trans
      (means_wantsPool cfg pod none)
  · exact (meaning_of_read (read_validation hname)).trans (means_validation cfg pod)
  · exact (meaning_of_read read_exempt).trans (means_exempt pod none)
  · exact (meaning_of_read (read_account c.schedulerName)).trans (means_account pod none)

theorem default_settings_render_policies :
    defaults.validate defaults.interpolated = .ok () ∧
      meaning (podEnv ⟨"team", none, some "ad-scheduler", none, none, none⟩ none)
        (generateMAP "ad-scheduler" "scheduler.arenadata.io/name" "ad-scheduler"
          "scheduler.arenadata.io/dedicated").trigger.toList = some (.bool true) := by
  have hvalid : defaults.validate defaults.interpolated = .ok () := by decide +kernel
  have hpool : defaults.nodePool.poolLabelValue
      = some ("scheduler.arenadata.io/name", "ad-scheduler") := by decide +kernel
  exact ⟨hvalid, (valid_settings_render_policies (.refl _) hvalid hpool
    ⟨"team", none, some "ad-scheduler", none, none, none⟩).1⟩

/-- Without the check a name can end its literal: such a trigger holds for every pod. -/
theorem unchecked_name_breaks_out {a b : String} (ha : Plain a.toList) (hb : Plain b.toList)
    (pod : StoredPod) :
    meaning (podEnv pod none) (mapTrigger (a ++ ("' || '" ++ b ++ ("' == '" ++ b)))).toList
      = some (.bool true) := by
  have htext : (mapTrigger (a ++ ("' || '" ++ b ++ ("' == '" ++ b)))) = sprintf
      [("has(object.spec.schedulerName) && object.spec.schedulerName == '", a), ("' || '", b),
        ("' == '", b)] "'" := by
    simp [mapTrigger, sprintf, String.append_assoc]
  have hread : read (mapTrigger (a ++ ("' || '" ++ b ++ ("' == '" ++ b)))).toList
      = some (.binary .or (namesScheduler a) (.binary .eq (.text b.toList) (.text b.toList))) := by
    rw [htext]
    exact read_sprintf (by simp [ha, hb]) (by dsimp only [List.map]; rfl)
  have hsame : Means (podEnv pod none) (.binary .eq (.text b.toList) (.text b.toList))
      (some true) := by
    simp [Means, Val.asText]
  have hname := means_namesScheduler ⟨a, "", "", ""⟩ pod none
  rw [meaning_of_read hread, hname.or hsame, Cel.either_eq_true.mpr (.inr rfl)]
  rfl

end Policies

end AdScheduler.PolicyTexts
