import AdScheduler.TenantFences
import AdScheduler.GangAgreement
import AdScheduler.Plugins

/-! Who may charge whose queues: the submit access lists, after `pkg/queue/acl.go`, and what
the gangs and the pods of a namespace change in the queues of other namespaces. -/
namespace AdScheduler.SubmitRights
open KeyedMap Resources QueueTree TreeShape Manager Conservation EngineCore Requests Placement
open CoordinatorCore Plugins DottedPath Fences GangAgreement Runs

variable {V : Type*} [CommRing V] [LinearOrder V]

/-- The nearest access list on the way up that says anything; without one, nobody is let
in. -/
def effectiveSubmitACL (ix : Index V) (q : Queue V) : ACL :=
  ((pathUp ix q.path).find? fun n => !n.submitACL.isEmpty).elim ⟨false, ∅⟩ Queue.submitACL

def canSubmit (t : QueueManager V) (path ns : String) : Bool :=
  (t.index.lookup path).elim false fun q => (effectiveSubmitACL t.index q).allows ns

def queuePath (explicit : String) : String :=
  if Gang.hasRootPrefix explicit then explicit else rootName ++ "." ++ explicit

section Namespaces
variable {ix : Index V}

lemma namespaceOf_root : namespaceOf rootName = "" := by decide +kernel

lemma namespaceOf_pathUp (hs : Shape ix) {p : String} {n : Queue V} (hn : n ∈ pathUp ix p) :
    namespaceOf n.path = "" ∨ namespaceOf n.path = namespaceOf p := by
  have hlook := lookup_of_mem_pathUp hs hn
  by_cases hparent : n.parent = none
  · rw [hs.root_only hlook hparent]
    exact .inl namespaceOf_root
  · obtain ⟨top, htop, hlevel⟩ := exists_topLevel hs hlook hparent
    have hlooktop := lookup_of_mem_pathUp hs htop
    have hsegs : segments top.path = [rootName.toList, top.name.toList] := by
      rw [segments_child hs hlooktop ((isTopLevel_iff hs hlooktop).mp hlevel),
        segments_name (by decide)]
      rfl
    have hpre := segments_of_mem_pathUp hs htop
    have hpre' := hpre.trans (segments_of_mem_pathUp hs hn)
    rw [hsegs] at hpre hpre'
    exact .inr ((namespaceOf_segments hpre rfl).trans (namespaceOf_segments hpre' rfl).symm)

lemma resolve_namespace {t : QueueManager V} {id : Identity} {leaf : String}
    (h : resolve t id = .ok leaf) : namespaceOf leaf = id.ns := by
  unfold resolve at h
  split_ifs at h
  exact scanLeaves_result (P := fun p => namespaceOf p = id.ns) (fun _ _ hns => hns)
    (fun hne => absurd rfl hne) h

end Namespaces

/-- A queue of another namespace that does not let the namespace submit. -/
structure Foreign (t : QueueManager V) (ns n : String) : Prop where
  tenant : namespaceOf n ≠ ""
  other : namespaceOf n ≠ ns
  denied : canSubmit t n ns = false

/-- The leaf is one that the namespace may charge, and no queue that denies it is charged
from `t` to `t'`. -/
structure Isolated (t t' : QueueManager V) (ns leaf : String) : Prop where
  leaf_ok : namespaceOf leaf = ns ∨ canSubmit t leaf ns = true
  headroom : ∀ n ∈ t.index, Foreign t ns n → ∀ d, get (t'.used n) d = get (t.used n) d

/-- The queue a pod group names is none, one of the namespace, or one that lets the
namespace submit, as do all queues above it up to the root. -/
def Authorised (t : QueueManager V) (ns queue : String) : Prop :=
  queue = "" ∨ namespaceOf (queuePath queue) = ns ∨
    canSubmit t (queuePath queue) ns = true ∧
      ∀ n ∈ t.up (queuePath queue), namespaceOf n ≠ "" → canSubmit t n ns = true

instance (t : QueueManager V) (ns queue : String) : Decidable (Authorised t ns queue) := by
  unfold Authorised; infer_instance

lemma not_charges_foreign {t : QueueManager V} {ns leaf n : String}
    (hleaf : namespaceOf leaf = ns) (hn : Foreign t ns n) : ¬ Charges t.index leaf n := by
  rintro ⟨-, hup⟩
  obtain ⟨q, hq, rfl⟩ := List.mem_map.mp hup
  rcases namespaceOf_pathUp t.wf.toShape hq with h | h
  · exact hn.tenant h
  · exact hn.other (h.trans hleaf)

/-- A gang member's PreEnqueue call that admits its gang, with the trees before and after. -/
structure AdmitsOn (c : Coordinator V) (pod : Pod V) (now : ℤ) (info : GangInfo V)
    (t t' : QueueManager V) (leaf : String) : Prop where
  tree : c.engine.tree = some t
  registered : ∃ key name, pod.gangKey = some (key, name) ∧ c.gangInfo pod.ns name = some info ∧
    c.engine.gangLeaf key = none ∧ (Gang.preEnqueue c pod now).1.engine.gangLeaf key = some leaf
  tree' : (Gang.preEnqueue c pod now).1.engine.tree = some t'

structure Admission (c : Coordinator V) (pod : Pod V) (info : GangInfo V) (t t' : QueueManager V)
    (leaf key : String) : Prop where
  leaf_ok : Gang.resolveLeaf c pod info.queue = .ok leaf
  admits : Admits t leaf key info.minResources
  booked : t' = admitted t leaf key info.minResources

lemma AdmitsOn.admission {c : Coordinator V} {pod : Pod V} {now : ℤ} {info : GangInfo V}
    {t t' : QueueManager V} {leaf : String} (hrec : GangsRecorded c.engine)
    (h : AdmitsOn c pod now info t t' leaf) : ∃ key, Admission c pod info t t' leaf key := by
  obtain ⟨htree, ⟨key, name, hkey, hinfo, hbefore, hafter⟩, htree'⟩ := h
  have heffect := Gang.preEnqueue_effect c pod now
  generalize (Gang.preEnqueue c pod now).1 = c' at heffect hafter htree'
  cases heffect with
  | none =>
    rw [hbefore] at hafter
    cases hafter
  | @admission key' name' leaf' info' member registered live positive leaf_ok new =>
    obtain ⟨rfl, rfl⟩ : key' = key ∧ name' = name := by
      rw [hkey] at member
      cases member
      exact ⟨rfl, rfl⟩
    obtain rfl : info' = info := by
      rw [hinfo] at registered
      exact (Option.some.inj registered).symm
    have hgone : c.engine.gangBook.lookup key' = none := by
      simpa [Engine.gangLeaf] using hbefore
    have hstep := admitGangWW_step c.engine leaf' key' info'.minResources
      ⟨Gang.gangPriority pod, info'.age, key'⟩ now
    refine ⟨key', ?_⟩
    rcases hstep with ⟨_, hbook⟩ | ⟨t₀, ht₀, _, hadm, ht₀', hbook⟩ | ⟨t₀, ht₀, _, hheld, _, _⟩
    · simp [Engine.gangLeaf, hbook, hgone] at hafter
    · obtain rfl : leaf' = leaf := by simpa [Engine.gangLeaf, hbook] using hafter
      obtain rfl : t₀ = t := Option.some.inj (ht₀.symm.trans htree)
      exact ⟨leaf_ok, hadm, Option.some.inj (htree'.symm.trans ht₀')⟩
    · exact absurd (hrec t₀ ht₀ key' hheld) (Finmap.lookup_eq_none.mp hgone)

lemma resolveLeaf_ok {c : Coordinator V} {t : QueueManager V} (ht : c.engine.tree = some t)
    {pod : Pod V} {queue leaf : String} (h : Gang.resolveLeaf c pod queue = .ok leaf) :
    queue = "" ∧ namespaceOf leaf = pod.ns ∨ queue ≠ "" ∧ leaf = queuePath queue := by
  unfold Gang.resolveLeaf at h
  rw [ht] at h
  dsimp only at h
  by_cases hq : queue ≠ ""
  · rw [if_pos hq] at h
    change (if queuePath queue ∈ t.index then Except.ok (queuePath queue)
      else Except.error (GangStatus.queueNotFound queue)) = Except.ok leaf at h
    split_ifs at h
    cases h
    exact .inr ⟨hq, rfl⟩
  · rw [if_neg hq] at h
    cases hr : resolve t pod.placementKey with
    | error err => simp [hr] at h
    | ok l =>
      rw [hr] at h
      cases h
      exact .inl ⟨not_not.mp hq, resolve_namespace hr⟩

section Gangs
variable {c : Coordinator V} {pod : Pod V} {info : GangInfo V} {t t' : QueueManager V}
  {leaf key : String}

lemma Admission.used (h : Admission c pod info t t' leaf key) (n d : String) :
    get (t'.used n) d =
      get (t.used n) d + if Charges t.index leaf n then get info.minResources d else 0 := by
  rw [h.booked]
  exact admitted_used h.admits.leaf_ok n d

lemma Admission.isolated_of_own (h : Admission c pod info t t' leaf key)
    (hleaf : namespaceOf leaf = pod.ns) : Isolated t t' pod.ns leaf := by
  refine ⟨.inl hleaf, fun n _ hn d => ?_⟩
  rw [h.used, if_neg (not_charges_foreign hleaf hn), add_zero]

lemma Admission.isolated_of_allowed (h : Admission c pod info t t' leaf key)
    (hleaf : canSubmit t leaf pod.ns = true)
    (hup : ∀ n ∈ t.up leaf, namespaceOf n ≠ "" → canSubmit t n pod.ns = true) :
    Isolated t t' pod.ns leaf := by
  refine ⟨.inr hleaf, fun n _ hn d => ?_⟩
  have hfree : ¬ Charges t.index leaf n := by
    rintro ⟨-, hmem⟩
    have hallowed := hup n hmem hn.tenant
    rw [hn.denied] at hallowed
    cases hallowed
  rw [h.used, if_neg hfree, add_zero]

lemma Admission.allowed_above (h : Admission c pod info t t' leaf key)
    (hi : Isolated t t' pod.ns leaf) (hother : namespaceOf leaf ≠ pod.ns) {n : String}
    (hn : n ∈ t.up leaf) (htenant : namespaceOf n ≠ "") : canSubmit t n pod.ns = true := by
  obtain ⟨q, hq, rfl⟩ := List.mem_map.mp hn
  have hlook := lookup_of_mem_pathUp t.wf.toShape hq
  have hns : namespaceOf q.path = namespaceOf leaf :=
    (namespaceOf_pathUp t.wf.toShape hq).resolve_left htenant
  by_contra hdenied
  have hforeign : Foreign t pod.ns q.path :=
    ⟨htenant, hns ▸ hother, by simpa using hdenied⟩
  have hsame := hi.headroom q.path (Finmap.mem_of_lookup_eq_some hlook) hforeign
  have hpos := h.admits.positive
  rw [strictlyGtZero, decide_eq_true_eq] at hpos
  obtain ⟨-, d, -, hd⟩ := hpos
  have hused := h.used q.path d
  rw [if_pos ⟨h.admits.leaf_ok, hn⟩, hsame d] at hused
  exact hd.ne' (by simpa using hused)

lemma Admission.isolated_iff (ht : c.engine.tree = some t)
    (h : Admission c pod info t t' leaf key) :
    Isolated t t' pod.ns leaf ↔ Authorised t pod.ns info.queue := by
  rcases resolveLeaf_ok ht h.leaf_ok with ⟨hq, hns⟩ | ⟨hq, rfl⟩
  · exact ⟨fun _ => .inl hq, fun _ => h.isolated_of_own hns⟩
  · constructor
    · intro hi
      by_cases hown : namespaceOf (queuePath info.queue) = pod.ns
      · exact .inr (.inl hown)
      · exact .inr (.inr ⟨hi.leaf_ok.resolve_left hown,
          fun n hn htenant => h.allowed_above hi hown hn htenant⟩)
    · rintro (hnone | hown | ⟨hleaf, hup⟩)
      · exact absurd hnone hq
      · exact h.isolated_of_own hown
      · exact h.isolated_of_allowed hleaf hup

end Gangs

lemma reserve_used_foreign {cap : Capacity V} {c : Coordinator V} {pod : Pod V}
    {s : PreFilterState V} {t t' : QueueManager V} (ht : c.engine.tree = some t)
    (hs : cap.preFilter c pod = .ok s)
    (ht' : (Capacity.reserve c (some s) pod).1.engine.tree = some t') {n : String}
    (hn : Foreign t pod.ns n) (d : String) : get (t'.used n) d = get (t.used n) d := by
  obtain ⟨t₀, hpass⟩ := Capacity.preFilter_ok hs
  obtain rfl : t₀ = t := Option.some.inj (hpass.tree.symm.trans ht)
  have hfree := not_charges_foreign (resolve_namespace hpass.leaf) hn
  have hmove := mutate_used (moves_reserve s.req) t₀ s.leaf n d
  rw [if_neg hfree, add_zero] at hmove
  unfold Capacity.reserve at ht'
  dsimp only at ht'
  split_ifs at ht' with hgang
  · rw [← Option.some.inj (ht.symm.trans ht')]
  · unfold Engine.reserve at ht'
    dsimp only at ht'
    split_ifs at ht' with hin
    · rw [← Option.some.inj (ht.symm.trans ht')]
    · rw [ht] at ht'
      dsimp only at ht'
      rw [← hmove]
      rcases mutate_cases t₀ s.leaf (Usage.reserve s.req) with ⟨_, h⟩ | ⟨_, err, h⟩
      all_goals
        simp only [QueueManager.reserve, h, Option.some.injEq] at ht' ⊢
        rw [ht']

/-- A gang charges only queues that its namespace owns or may submit to exactly if the
queue its pod group names is such a one; a pod always does. -/
theorem quota_isolation_iff {timeout : ℤ} {calls : List (Call V)} {c : Coordinator V}
    (hrun : Run machine (newEngine timeout) calls c.engine)
    {t : QueueManager V} (ht : c.engine.tree = some t) :
    (∀ pod now info t' leaf, AdmitsOn c pod now info t t' leaf →
      (Isolated t t' pod.ns leaf ↔ Authorised t pod.ns info.queue)) ∧
    ∀ (cap : Capacity V) pod s t', cap.preFilter c pod = .ok s →
      (Capacity.reserve c (some s) pod).1.engine.tree = some t' →
      ∀ n, Foreign t pod.ns n → ∀ d, get (t'.used n) d = get (t.used n) d := by
  refine ⟨fun pod now info t' leaf h => ?_, fun cap pod s t' hs ht' n hn d => ?_⟩
  · obtain ⟨key, hadm⟩ := h.admission (gangsRecorded_run hrun)
    exact hadm.isolated_iff ht
  · exact reserve_used_foreign ht hs ht' hn d

def twoTenants : Spec ℤ :=
  bareSpec rootName ∅ [bareSpec "other" ∅ [bareSpec "batch" (Finmap.singleton "cpu" 10) []],
    bareSpec "team" ∅
      [{ bareSpec "jobs" (Finmap.singleton "cpu" 10) [] with serviceAccounts := ["runner"] }]]

lemma twoTenants_ok : (newManager twoTenants).isOk = true := by decide +kernel

def twoTenantsEngine : Engine ℤ := (newEngine 100).rebuild (treeOf twoTenants twoTenants_ok) [] []

lemma twoTenants_run :
    Run machine (newEngine 100) [.rebuild (treeOf twoTenants twoTenants_ok) [] []]
      twoTenantsEngine :=
  .snoc .nil ⟨⟨twoTenants, newManager_treeOf _ _⟩, visits_empty, visits_empty⟩

def oneInfo (queue : String) : GangInfo ℤ := ⟨1, Finmap.singleton "cpu" 2, queue, 0, 0, false, 0⟩

def groupNaming (queue : String) : Coordinator ℤ :=
  { newCoordinator twoTenantsEngine with gangs := Finmap.singleton "team/gang" (oneInfo queue) }

def soleMember : Pod ℤ :=
  { barePod "member" "team" "runner" 2 with
    annotations := Finmap.singleton podGroupAnnotation "gang" }

lemma soleMember_admitted {queue leaf : String}
    (h : (Gang.preEnqueue (groupNaming queue) soleMember 0).1.engine.gangLeaf "team/gang" =
      some leaf) {t t' : QueueManager ℤ} (ht : (groupNaming queue).engine.tree = some t)
    (ht' : (Gang.preEnqueue (groupNaming queue) soleMember 0).1.engine.tree = some t') :
    AdmitsOn (groupNaming queue) soleMember 0 (oneInfo queue) t t' leaf :=
  ⟨ht, ⟨"team/gang", "gang", by decide +kernel, rfl,
    show twoTenantsEngine.gangLeaf "team/gang" = none by decide +kernel, h⟩, ht'⟩

/-- A pod group of one namespace names a queue of another one that has no access list,
and charges it. -/
theorem named_queue_charges_other_tenant :
    ∃ t t', AdmitsOn (groupNaming "other.batch") soleMember 0 (oneInfo "other.batch") t t'
        "root.other.batch" ∧
      Foreign t "team" "root.other.batch" ∧ get (t.used "root.other.batch") "cpu" = 0 ∧
      get (t'.used "root.other.batch") "cpu" = 2 ∧
      ¬ Isolated t t' soleMember.ns "root.other.batch" := by
  obtain ⟨t, ht⟩ := Option.isSome_iff_exists.mp
    (show (groupNaming "other.batch").engine.tree.isSome = true by decide +kernel)
  obtain ⟨t', ht'⟩ := Option.isSome_iff_exists.mp
    (show (Gang.preEnqueue (groupNaming "other.batch") soleMember 0).1.engine.tree.isSome = true
      by decide +kernel)
  have hdenied : ((groupNaming "other.batch").engine.tree.map fun x =>
      (canSubmit x "root.other.batch" "team", get (x.used "root.other.batch") "cpu")) =
        some (false, 0) := by decide +kernel
  have hcharged : ((Gang.preEnqueue (groupNaming "other.batch") soleMember 0).1.engine.tree.map
      fun x => get (x.used "root.other.batch") "cpu") = some 2 := by decide +kernel
  rw [ht, Option.map_some, Option.some.injEq, Prod.mk.injEq] at hdenied
  rw [ht', Option.map_some, Option.some.injEq] at hcharged
  have hforeign : Foreign t "team" "root.other.batch" :=
    ⟨by decide +kernel, by decide +kernel, hdenied.1⟩
  refine ⟨t, t', soleMember_admitted (by decide +kernel) ht ht', hforeign, hdenied.2, hcharged, ?_⟩
  intro hi
  rcases hi.leaf_ok with hns | hsubmit
  · exact hforeign.other hns
  · exact Bool.false_ne_true (hdenied.1.symm.trans hsubmit)

theorem unnamed_queue_charges_own_tenant :
    ∃ t t', AdmitsOn (groupNaming "") soleMember 0 (oneInfo "") t t' "root.team.jobs" ∧
      Isolated t t' soleMember.ns "root.team.jobs" := by
  obtain ⟨t, ht⟩ := Option.isSome_iff_exists.mp
    (show (groupNaming "").engine.tree.isSome = true by decide +kernel)
  obtain ⟨t', ht'⟩ := Option.isSome_iff_exists.mp
    (show (Gang.preEnqueue (groupNaming "") soleMember 0).1.engine.tree.isSome = true
      by decide +kernel)
  have hadm : AdmitsOn (groupNaming "") soleMember 0 (oneInfo "") t t' "root.team.jobs" :=
    soleMember_admitted (by decide +kernel) ht ht'
  exact ⟨t, t', hadm,
    ((quota_isolation_iff (c := groupNaming "") twoTenants_run ht).1 _ _ _ _ _ hadm).mpr (.inl rfl)⟩

end AdScheduler.SubmitRights
