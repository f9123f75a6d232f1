import AdScheduler.PlacementRules
import AdScheduler.Plugins

/-! The caps of a leaf on applications and on groups of service accounts, which `PreFilter` of
`pkg/plugins/capacity/capacity.go` checks one after the other. -/
namespace AdScheduler.LeafLimits
open KeyedMap Resources QueueTree Manager EngineCore Requests Placement CoordinatorCore Plugins
open SpecTree PlacementRules

variable {V : Type*} [CommRing V] [LinearOrder V]

def Limit.covers (lim : Limit V) (pod : Pod V) : Bool :=
  saInSet pod.placementKey.serviceAccount lim.serviceAccounts

lemma fitIn_add_iff (a b max : Resource V) :
    fitIn (add a b) max = true ↔
      ∀ d, get a d + get b d ≠ 0 → get a d + get b d ≤ get max d := by
  have hkeys : ∀ d, d ∈ (add a b).keys ↔ get a d + get b d ≠ 0 := fun d => by
    rw [← get_add]
    exact mem_prune_iff
  simp only [fitIn, decide_eq_true_eq, hkeys, get_add, not_lt]

section Loop
variable (c : Coordinator V) (leaf : String) (pod : Pod V) (req : Resource V)

def overMaxResources (lim : Limit V) : Bool :=
  !isEmpty lim.maxResources &&
    !fitIn (add (c.leafLimitUsage leaf lim.serviceAccounts pod.uid).2 req) lim.maxResources

def overMaxApplications (lim : Limit V) : Bool :=
  atMaxApplications (c.leafLimitUsage leaf lim.serviceAccounts pod.uid).1 pod lim.maxApplications

lemma checkLimits_cons (lim : Limit V) (rest : List (Limit V)) :
    checkLimits c leaf pod req (lim :: rest) =
      if Limit.covers lim pod = false then checkLimits c leaf pod req rest
      else if overMaxApplications c leaf pod lim then
        .error (.limitMaxApplications leaf lim.serviceAccounts lim.maxApplications)
      else if overMaxResources c leaf pod req lim then
        .error (.limitMaxResources leaf lim.serviceAccounts)
      else checkLimits c leaf pod req rest := rfl

lemma checkLimits_append (before after : List (Limit V)) :
    checkLimits c leaf pod req (before ++ after) =
      match checkLimits c leaf pod req before with
      | .error status => .error status
      | .ok () => checkLimits c leaf pod req after := by
  induction before with
  | nil => rfl
  | cons lim rest ih =>
    rw [List.cons_append, checkLimits_cons, checkLimits_cons, ih]
    split_ifs <;> rfl

lemma checkLimits_ok_iff (lims : List (Limit V)) :
    checkLimits c leaf pod req lims = .ok () ↔ ∀ lim ∈ lims, Limit.covers lim pod = true →
      overMaxApplications c leaf pod lim = false ∧ overMaxResources c leaf pod req lim = false := by
  induction lims with
  | nil => simp [checkLimits]
  | cons lim rest ih =>
    rw [List.forall_mem_cons, ← ih, checkLimits_cons]
    cases Limit.covers lim pod <;> cases overMaxApplications c leaf pod lim <;>
      cases overMaxResources c leaf pod req lim <;> simp

end Loop

/-- PreFilter gets as far as the resources of this limit: everything it checks before that
has passed. -/
structure ReachesLimit (cap : Capacity V) (c : Coordinator V) (pod : Pod V) (t : QueueManager V)
    (leaf : String) (req : Resource V) (q : Queue V) (before : List (Limit V)) (lim : Limit V)
    (after : List (Limit V)) : Prop where
  tree : c.engine.tree = some t
  route : resolve t pod.placementKey = .ok leaf
  request : cap.request pod = .ok req
  solo : pod.gang = false
  queue : t.index.lookup leaf = some q
  limits : q.limits = before ++ lim :: after
  apps : atMaxApplications (c.appIDsOnLeaf leaf pod.uid) pod q.maxApplications = false
  passed : checkLimits c leaf pod req before = .ok ()
  covers : Limit.covers lim pod = true
  limitApps : overMaxApplications c leaf pod lim = false

/-- PreFilter rejects the pod over the resources of a limit, and the loop over the limits ends
with that limit. -/
def RejectedOver (cap : Capacity V) (c : Coordinator V) (pod : Pod V) (leaf : String)
    (req : Resource V) (before : List (Limit V)) (lim : Limit V) : Prop :=
  cap.preFilter c pod = .error (.limitMaxResources leaf lim.serviceAccounts) ∧
    checkLimits c leaf pod req (before ++ [lim]) =
      .error (.limitMaxResources leaf lim.serviceAccounts)

def Exceeds (max used req : Resource V) : Prop :=
  ∃ d, 0 < get max d ∧ get max d < get used d + get req d

/-- Where the limit names no positive amount, nothing is asked beyond it. -/
def NamesAll (max used req : Resource V) : Prop :=
  ∀ d, get max d ≤ 0 → get used d + get req d ≠ 0 → get used d + get req d ≤ get max d

lemma overMaxResources_iff (c : Coordinator V) (leaf : String) (pod : Pod V) (req : Resource V)
    (lim : Limit V) {used : Resource V}
    (hused : (c.leafLimitUsage leaf lim.serviceAccounts pod.uid).2 = used) :
    overMaxResources c leaf pod req lim = true ↔ isEmpty lim.maxResources = false ∧
      (Exceeds lim.maxResources used req ∨ ¬ NamesAll lim.maxResources used req) := by
  have hfit : fitIn (add used req) lim.maxResources = false ↔
      Exceeds lim.maxResources used req ∨ ¬ NamesAll lim.maxResources used req := by
    rw [← Bool.not_eq_true, fitIn_add_iff]
    simp only [NamesAll, Exceeds]
    push Not
    constructor
    · rintro ⟨d, hne, hlt⟩
      by_cases hd : 0 < get lim.maxResources d
      · exact .inl ⟨d, hd, hlt⟩
      · exact .inr ⟨d, not_lt.mp hd, hne, hlt⟩
    · rintro (⟨d, hpos, hlt⟩ | ⟨d, -, hne, hlt⟩)
      · exact ⟨d, (hpos.trans hlt).ne', hlt⟩
      · exact ⟨d, hne, hlt⟩
  rw [← hfit]
  simp [overMaxResources, hused]

section Reached
variable {cap : Capacity V} {c : Coordinator V} {pod : Pod V} {t : QueueManager V} {leaf : String}
  {req : Resource V} {q : Queue V} {before : List (Limit V)} {lim : Limit V}
    {after : List (Limit V)}

lemma rejectedOver_iff (h : ReachesLimit cap c pod t leaf req q before lim after) :
    RejectedOver cap c pod leaf req before lim ↔ overMaxResources c leaf pod req lim = true := by
  have hat : ∀ rest, checkLimits c leaf pod req (before ++ lim :: rest) =
      if overMaxResources c leaf pod req lim then
        .error (.limitMaxResources leaf lim.serviceAccounts)
      else checkLimits c leaf pod req rest := by
    intro rest
    rw [checkLimits_append, h.passed]
    simp [checkLimits_cons, h.covers, h.limitApps]
  constructor
  · rintro ⟨-, hloop⟩
    rw [hat] at hloop
    by_contra hno
    simp [hno, checkLimits] at hloop
  · intro hover
    refine ⟨?_, by rw [hat, if_pos hover]⟩
    have hcheck : checkApplications c t leaf pod req =
        .error (.limitMaxResources leaf lim.serviceAccounts) := by
      simp only [checkApplications, h.queue, h.apps, h.limits, hat, hover]
      simp
    simp [Capacity.preFilter, h.tree, h.route, h.request, h.solo, hcheck]

/-- A limit binds the axes it names, and no others, exactly where it names nothing, or names
every axis asked for, or is exceeded on one that it names. -/
theorem limit_binds_named_iff (h : ReachesLimit cap c pod t leaf req q before lim after) :
    let used := (c.leafLimitUsage leaf lim.serviceAccounts pod.uid).2
    (RejectedOver cap c pod leaf req before lim ↔ Exceeds lim.maxResources used req) ↔
      isEmpty lim.maxResources = true ∨ NamesAll lim.maxResources used req ∨
        Exceeds lim.maxResources used req := by
  intro used
  rw [rejectedOver_iff h, overMaxResources_iff c leaf pod req lim rfl]
  by_cases hempty : isEmpty lim.maxResources = true
  · have hnone : ¬ Exceeds lim.maxResources used req := by
      rintro ⟨d, hpos, -⟩
      exact hpos.ne' ((Resources.isEmpty_iff _).mp hempty d)
    simp [hempty, hnone]
  · rw [Bool.not_eq_true] at hempty
    simp only [hempty, true_and, Bool.false_eq_true, false_or]
    tauto

end Reached

section Contention
variable (cap : Capacity V) (c : Coordinator V) (t : QueueManager V) (leaf : String)

/-- What the caps of a leaf count: our pods routed to it that are neither finished nor being
deleted, bound or not. -/
def population : List (Pod V) :=
  c.pods.filter fun p =>
    decide (p.schedulerName = c.cache.schedulerName ∧ p.deletionTimestamp = none) && !p.terminal &&
      Coordinator.routesTo t leaf p.placementKey

def isBound (p : Pod V) : Bool := decide (p.nodeName ≠ "")

/-- The pods of the leaf that wait for a node on their own. -/
def pendingOn : List (Pod V) := (population c t leaf).filter fun p => !isBound p && !p.gang

def boundAnd (p : Pod V) : Coordinator V := { c with pods := p :: c.pods.filter isBound }

/-- The caps on applications and on groups let the pod pass. -/
def passesCaps (p : Pod V) : Bool :=
  match cap.request p with
  | .error _ => false
  | .ok req => (checkApplications c t leaf p req).isOk

/-- If a pending pod would pass beside the bound pods alone, some pending pod passes. -/
def NotDeadlocked : Prop :=
  (∃ p ∈ pendingOn c t leaf, passesCaps cap (boundAnd c p) t leaf p = true) →
    ∃ p ∈ pendingOn c t leaf, passesCaps cap c t leaf p = true

def others (pods : List (Pod V)) (p : Pod V) : List (Pod V) :=
  pods.filter fun o => decide (o.uid ≠ p.uid)

end Contention

/-- The pod joins an application among the others, or together they have no more applications
than the cap. -/
def JoinsOrFits (maxApps : ℤ) (pods : List (Pod V)) (p : Pod V) : Prop :=
  maxApps ≤ 0 ∨ (∃ o ∈ pods, o.appID = p.appID) ∨
    (((p :: pods).map Pod.appID).toFinset.card : ℤ) ≤ maxApps

/-- What the pods ask for together, with some devices, is within the limit. -/
def TotalWithin (max : Resource V) (pods : List (Pod V)) (devices : Resource V) : Prop :=
  isEmpty max = true ∨ ∀ d,
    let total := (pods.map fun p => get (effectiveRequest p) d).sum + get devices d
    total ≠ 0 → total ≤ get max d

/-- The queue has a place for the pod beside these others. -/
def HasPlace (cap : Capacity V) (q : Queue V) (pods : List (Pod V)) (p : Pod V) : Prop :=
  ∃ devices, podDeviceRequests p cap.draClaims cap.draTemplates cap.draFailClosed = .ok devices ∧
    JoinsOrFits q.maxApplications pods p ∧
    ∀ lim ∈ q.limits, Limit.covers lim p = true →
      JoinsOrFits lim.maxApplications (pods.filter (Limit.covers lim)) p ∧
      TotalWithin lim.maxResources (p :: pods.filter (Limit.covers lim)) devices

omit [CommRing V] [LinearOrder V] in
lemma atMaxApplications_eq_false_iff (pods : List (Pod V)) (p : Pod V) (maxApps : ℤ) :
    atMaxApplications (pods.map Pod.appID).toFinset p maxApps = false ↔
      JoinsOrFits maxApps pods p := by
  have hmem : p.appID ∈ (pods.map Pod.appID).toFinset ↔ ∃ o ∈ pods, o.appID = p.appID := by simp
  simp only [atMaxApplications, decide_eq_false_iff_not, JoinsOrFits, List.map_cons,
    List.toFinset_cons, ← hmem]
  by_cases hin : p.appID ∈ (pods.map Pod.appID).toFinset
  · simp [hin]
  · rw [Finset.card_insert_of_notMem hin]
    simp only [hin, not_false_eq_true, true_and, false_or]
    omega

section Contention
variable {cap : Capacity V} {c : Coordinator V} {t : QueueManager V} {leaf : String} {q : Queue V}

lemma runningPods_routed (c : Coordinator V) (t : QueueManager V) (leaf : String) (p : Pod V) :
    (c.runningPods p.uid).filter (fun o => Coordinator.routesTo t leaf o.placementKey) =
      others (population c t leaf) p := by
  simp only [Coordinator.runningPods, others, population, List.filter_filter]
  refine List.filter_congr fun o _ => ?_
  rw [Bool.eq_iff_iff]
  simp
  tauto

omit [CommRing V] [LinearOrder V] in
lemma covers_eq (lim : Limit V) (p : Pod V) :
    (lim.serviceAccounts.contains "*" ||
      lim.serviceAccounts.contains p.placementKey.serviceAccount) = Limit.covers lim p := by
  rw [Bool.eq_iff_iff]
  simp only [Limit.covers, saInSet, Bool.or_eq_true, List.contains_iff_mem, List.any_eq_true,
    decide_eq_true_eq]
  constructor
  · rintro (h | h)
    · exact ⟨_, h, .inl rfl⟩
    · exact ⟨_, h, .inr rfl⟩
  · rintro ⟨s, hs, rfl | rfl⟩
    · exact .inl hs
    · exact .inr hs

lemma appIDsOnLeaf_eq (ht : c.engine.tree = some t) (p : Pod V) :
    c.appIDsOnLeaf leaf p.uid = ((others (population c t leaf) p).map Pod.appID).toFinset := by
  simp only [Coordinator.appIDsOnLeaf, ht, runningPods_routed]

lemma leafLimitUsage_eq (ht : c.engine.tree = some t) (lim : Limit V) (p : Pod V) :
    let group := (others (population c t leaf) p).filter (Limit.covers lim)
    c.leafLimitUsage leaf lim.serviceAccounts p.uid =
      ((group.map Pod.appID).toFinset,
        group.foldl (fun used o => add used (effectiveRequest o)) ∅) := by
  simp only [Coordinator.leafLimitUsage, ht, covers_eq, ← List.filter_filter, runningPods_routed]

lemma overMaxApplications_eq_false_iff (ht : c.engine.tree = some t) (lim : Limit V) (p : Pod V) :
    overMaxApplications c leaf p lim = false ↔
      JoinsOrFits lim.maxApplications
        ((others (population c t leaf) p).filter (Limit.covers lim)) p := by
  rw [overMaxApplications, leafLimitUsage_eq ht, atMaxApplications_eq_false_iff]

lemma overMaxResources_eq_false_iff (ht : c.engine.tree = some t) (lim : Limit V) {p : Pod V}
    {req devices : Resource V}
    (hreq : ∀ d, get req d = get (effectiveRequest p) d + get devices d) :
    overMaxResources c leaf p req lim = false ↔ TotalWithin lim.maxResources
      (p :: (others (population c t leaf) p).filter (Limit.covers lim)) devices := by
  have hsum : ∀ x y z : V, x + (y + z) = y + x + z := fun x y z => by ring
  simp only [overMaxResources, leafLimitUsage_eq ht, TotalWithin, Bool.and_eq_false_iff,
    Bool.not_eq_false', fitIn_add_iff, get_foldl_add, get_empty, zero_add, hreq, List.map_cons,
    List.sum_cons, hsum]

lemma passesCaps_iff (ht : c.engine.tree = some t) (hq : t.index.lookup leaf = some q)
    (p : Pod V) :
    passesCaps cap c t leaf p = true ↔ HasPlace cap q (others (population c t leaf) p) p := by
  unfold passesCaps
  cases hreq : cap.request p with
  | error err =>
    have hnone : ∀ devices,
        podDeviceRequests p cap.draClaims cap.draTemplates cap.draFailClosed ≠ .ok devices := by
      intro devices hdevices
      simp [Capacity.request, hdevices] at hreq
    simp [HasPlace, hnone]
  | ok req =>
    obtain ⟨devices, hdevices, hget⟩ := cap.get_request hreq
    have hok : ∀ r : Except (CapacityStatus V) Unit, r.isOk = true ↔ r = .ok () := by
      rintro (err | ⟨⟩) <;> simp [Except.isOk, Except.toBool]
    simp only [hok, checkApplications, hq, HasPlace, hdevices, Except.ok.injEq, exists_eq_left']
    rw [← atMaxApplications_eq_false_iff, ← appIDsOnLeaf_eq ht]
    cases happs : atMaxApplications (c.appIDsOnLeaf leaf p.uid) p q.maxApplications with
    | true => simp
    | false =>
      simp only [Bool.false_eq_true, if_false, true_and, checkLimits_ok_iff,
        overMaxApplications_eq_false_iff ht, overMaxResources_eq_false_iff ht _ hget]

lemma others_boundAnd {p : Pod V} :
    others (population (boundAnd c p) t leaf) p =
      others ((population c t leaf).filter isBound) p := by
  simp only [others, population, boundAnd, List.filter_filter]
  rw [List.filter_cons_of_neg (by simp), List.filter_filter]
  refine List.filter_congr fun o _ => ?_
  rw [Bool.eq_iff_iff]
  simp only [Bool.and_eq_true]
  tauto

end Contention

section Crowding

omit [CommRing V] [LinearOrder V] in
lemma perm_others {pods : List (Pod V)} (h : (pods.map Pod.uid).Nodup) {p : Pod V} (hp : p ∈ pods) :
    (p :: others pods p).Perm pods := by
  induction pods with
  | nil => cases hp
  | cons a pods ih =>
    rw [List.map_cons, List.nodup_cons] at h
    rcases List.mem_cons.mp hp with rfl | hp
    · have hrest : others (p :: pods) p = pods := by
        rw [others, List.filter_cons_of_neg (by simp), List.filter_eq_self]
        intro o ho
        have hne : o.uid ≠ p.uid := fun heq => h.1 (heq ▸ List.mem_map_of_mem ho)
        simpa using hne
      rw [hrest]
    · have hne : a.uid ≠ p.uid := fun heq => h.1 (heq ▸ List.mem_map_of_mem hp)
      have hrest : others (a :: pods) p = a :: others pods p :=
        List.filter_cons_of_pos (by simpa using hne)
      rw [hrest]
      exact (List.Perm.swap a p _).trans ((ih h.2 hp).cons a)

def group (lim : Limit V) (pods : List (Pod V)) : List (Pod V) := pods.filter (Limit.covers lim)

def apps (pods : List (Pod V)) : Finset String := (pods.map Pod.appID).toFinset

/-- The caps of a queue: its own, as one on all service accounts, and those of its groups. -/
def caps (q : Queue V) : List (Limit V) := ⟨["*"], q.maxApplications, ∅⟩ :: q.limits

/-- The group has more applications than its cap. -/
def Oversubscribed (lim : Limit V) (pods : List (Pod V)) : Prop :=
  0 < lim.maxApplications ∧ lim.maxApplications < ((apps (group lim pods)).card : ℤ)

/-- The pod is the only one of its application. -/
def Alone (pods : List (Pod V)) (p : Pod V) : Prop :=
  ∀ o ∈ pods, o.appID = p.appID → o.uid = p.uid

/-- The group runs the pod's application or fewer applications than its cap. -/
def OpenTo (lim : Limit V) (running : List (Pod V)) (p : Pod V) : Prop :=
  0 < lim.maxApplications → p.appID ∈ apps (group lim running) ∨
    ((apps (group lim running)).card : ℤ) < lim.maxApplications

/-- Every pending pod is crowded out: it is alone with its application in a group with more
applications than its cap, or in a group that asks for more than its resources. Yet the pods
that run leave room for one of them. -/
structure Crowded (cap : Capacity V) (q : Queue V) (pods running pending : List (Pod V)) :
    Prop where
  out : ∀ p ∈ pending, ∀ devices,
    podDeviceRequests p cap.draClaims cap.draTemplates cap.draFailClosed = .ok devices →
      ∃ lim ∈ caps q, Limit.covers lim p = true ∧
        (Oversubscribed lim pods ∧ Alone (group lim pods) p ∨
          ¬ TotalWithin lim.maxResources (group lim pods) devices)
  room : ∃ p ∈ pending, ∃ devices,
    podDeviceRequests p cap.draClaims cap.draTemplates cap.draFailClosed = .ok devices ∧
      ∀ lim ∈ caps q, Limit.covers lim p = true →
        OpenTo lim running p ∧ TotalWithin lim.maxResources (p :: group lim running) devices

section Groups
variable {pods : List (Pod V)} {p : Pod V} {lim : Limit V}

omit [CommRing V] [LinearOrder V] in
lemma perm_group (h : (pods.map Pod.uid).Nodup) (hp : p ∈ pods)
    (hcovers : Limit.covers lim p = true) :
    (p :: group lim (others pods p)).Perm (group lim pods) := by
  have hperm := (perm_others h hp).filter (Limit.covers lim)
  rwa [List.filter_cons_of_pos hcovers] at hperm

omit [CommRing V] [LinearOrder V] in
lemma joinsOrFits_iff (h : (pods.map Pod.uid).Nodup) (hp : p ∈ pods)
    (hcovers : Limit.covers lim p = true) :
    JoinsOrFits lim.maxApplications (group lim (others pods p)) p ↔
      ¬ (Oversubscribed lim pods ∧ Alone (group lim pods) p) := by
  have hperm := perm_group h hp hcovers
  have hcount : ((p :: group lim (others pods p)).map Pod.appID).toFinset = apps (group lim pods) :=
    List.toFinset_eq_of_perm _ _ (hperm.map Pod.appID)
  have halone : (∃ o ∈ group lim (others pods p), o.appID = p.appID) ↔
      ¬ Alone (group lim pods) p := by
    simp only [Alone, group, others, List.mem_filter, decide_eq_true_eq, not_forall]
    constructor
    · rintro ⟨o, ⟨⟨ho, hne⟩, hgroup⟩, happ⟩
      exact ⟨o, ⟨ho, hgroup⟩, happ, hne⟩
    · rintro ⟨o, ⟨ho, hgroup⟩, happ, hne⟩
      exact ⟨o, ⟨⟨ho, hne⟩, hgroup⟩, happ⟩
  rw [JoinsOrFits, hcount, halone, Oversubscribed, ← not_lt, ← not_lt]
  tauto

lemma totalWithin_perm {max devices : Resource V} {l l' : List (Pod V)} (h : l.Perm l') :
    TotalWithin max l devices ↔ TotalWithin max l' devices := by
  simp only [TotalWithin, (h.map fun p => get (effectiveRequest p) _).sum_eq]

omit [CommRing V] [LinearOrder V] in
lemma joinsOrFits_open (pods : List (Pod V)) (p : Pod V) (lim : Limit V) :
    JoinsOrFits lim.maxApplications (group lim pods) p ↔ OpenTo lim pods p := by
  have hmem : p.appID ∈ apps (group lim pods) ↔ ∃ o ∈ group lim pods, o.appID = p.appID := by
    simp [apps]
  rw [JoinsOrFits, OpenTo, ← hmem, ← not_lt, ← imp_iff_not_or]
  refine imp_congr_right fun _ => ?_
  by_cases hin : p.appID ∈ apps (group lim pods)
  · simp [hin]
  · have hcard : ((p :: group lim pods).map Pod.appID).toFinset.card =
        (apps (group lim pods)).card + 1 := by
      rw [List.map_cons, List.toFinset_cons]
      exact Finset.card_insert_of_notMem hin
    simp only [hin, false_or, hcard]
    omega

end Groups

lemma hasPlace_iff (cap : Capacity V) (q : Queue V) (pods : List (Pod V)) (p : Pod V) :
    HasPlace cap q pods p ↔ ∃ devices,
      podDeviceRequests p cap.draClaims cap.draTemplates cap.draFailClosed = .ok devices ∧
      ∀ lim ∈ caps q, Limit.covers lim p = true →
        JoinsOrFits lim.maxApplications (group lim pods) p ∧
        TotalWithin lim.maxResources (p :: group lim pods) devices := by
  have hall : ∀ o : Pod V, Limit.covers ⟨["*"], q.maxApplications, ∅⟩ o = true := fun o => by
    simp [Limit.covers, saInSet]
  have hgroup : group ⟨["*"], q.maxApplications, ∅⟩ pods = pods :=
    List.filter_eq_self.mpr fun o _ => hall o
  have hfree : ∀ devices : Resource V, TotalWithin ∅ (p :: pods) devices := fun _ => .inl rfl
  simp only [HasPlace, caps, List.forall_mem_cons, hall, hgroup, hfree, true_implies, and_true]
  rfl

section Populations
variable {cap : Capacity V} {c : Coordinator V} {t : QueueManager V} {leaf : String} {q : Queue V}
  {p : Pod V}

lemma nodup_population (h : (c.pods.map Pod.uid).Nodup) :
    ((population c t leaf).map Pod.uid).Nodup :=
  h.sublist (List.filter_sublist.map Pod.uid)

lemma passesCaps_full (ht : c.engine.tree = some t) (hq : t.index.lookup leaf = some q)
    (h : (c.pods.map Pod.uid).Nodup) (hp : p ∈ population c t leaf) :
    passesCaps cap c t leaf p = true ↔ ∃ devices,
      podDeviceRequests p cap.draClaims cap.draTemplates cap.draFailClosed = .ok devices ∧
      ∀ lim ∈ caps q, Limit.covers lim p = true →
        ¬ (Oversubscribed lim (population c t leaf) ∧ Alone (group lim (population c t leaf)) p) ∧
        TotalWithin lim.maxResources (group lim (population c t leaf)) devices := by
  have hnodup : ((population c t leaf).map Pod.uid).Nodup := nodup_population h
  rw [passesCaps_iff ht hq, hasPlace_iff]
  refine exists_congr fun devices => and_congr_right fun _ => forall₃_congr fun lim _ hcovers => ?_
  rw [joinsOrFits_iff hnodup hp hcovers, totalWithin_perm (perm_group hnodup hp hcovers)]

lemma passesCaps_boundAnd (ht : c.engine.tree = some t) (hq : t.index.lookup leaf = some q)
    (h : (c.pods.map Pod.uid).Nodup) (hp : p ∈ pendingOn c t leaf) :
    passesCaps cap (boundAnd c p) t leaf p = true ↔ ∃ devices,
      podDeviceRequests p cap.draClaims cap.draTemplates cap.draFailClosed = .ok devices ∧
      ∀ lim ∈ caps q, Limit.covers lim p = true →
        OpenTo lim ((population c t leaf).filter isBound) p ∧
        TotalWithin lim.maxResources (p :: group lim ((population c t leaf).filter isBound))
          devices := by
  obtain ⟨hpop, hpending⟩ := List.mem_filter.mp hp
  have hunbound : isBound p = false := by simpa using (Bool.and_eq_true_iff.mp hpending).1
  have hself : others ((population c t leaf).filter isBound) p =
      (population c t leaf).filter isBound := by
    refine List.filter_eq_self.mpr fun o ho => decide_eq_true fun huid => ?_
    obtain ⟨hin, hbound⟩ := List.mem_filter.mp ho
    rw [List.inj_on_of_nodup_map (nodup_population h) hin hpop huid, hunbound] at hbound
    cases hbound
  have htree : (boundAnd c p).engine.tree = some t := ht
  rw [passesCaps_iff htree hq, others_boundAnd, hself, hasPlace_iff]
  simp only [joinsOrFits_open]

lemma notDeadlocked_iff_not_crowded (ht : c.engine.tree = some t)
    (hq : t.index.lookup leaf = some q) (h : (c.pods.map Pod.uid).Nodup) :
    NotDeadlocked cap c t leaf ↔ ¬ Crowded cap q (population c t leaf)
      ((population c t leaf).filter isBound) (pendingOn c t leaf) := by
  have hpop : ∀ p ∈ pendingOn c t leaf, p ∈ population c t leaf :=
    fun p hp => (List.mem_filter.mp hp).1
  constructor
  · rintro hfree ⟨hout, p, hp, hroom⟩
    obtain ⟨p', hp', hpass⟩ := hfree ⟨p, hp, (passesCaps_boundAnd ht hq h hp).mpr hroom⟩
    obtain ⟨devices, hdevices, hall⟩ := (passesCaps_full ht hq h (hpop p' hp')).mp hpass
    obtain ⟨lim, hlim, hcovers, hfull⟩ := hout p' hp' devices hdevices
    exact hfull.elim (hall lim hlim hcovers).1 (not_not_intro (hall lim hlim hcovers).2)
  · rintro hnot ⟨p, hp, hpass⟩
    by_contra hstuck
    refine hnot ⟨fun p' hp' devices hdevices => ?_,
      p, hp, (passesCaps_boundAnd ht hq h hp).mp hpass⟩
    by_contra hfits
    refine hstuck ⟨p', hp', (passesCaps_full ht hq h (hpop p' hp')).mpr ⟨devices, hdevices, ?_⟩⟩
    intro lim hlim hcovers
    by_contra hfull
    rw [not_and_or, not_not] at hfull
    exact hfits ⟨lim, hlim, hcovers, hfull⟩

/-- With a cap on the queue's applications alone, the pods are crowded out where all pending
pods are of applications of their own, with too many applications altogether and fewer than the
cap running. -/
lemma crowded_iff_of_no_limits {pods running pending : List (Pod V)} (hlimits : q.limits = [])
    (hread : ∀ p ∈ pending, ∃ devices,
      podDeviceRequests p cap.draClaims cap.draTemplates cap.draFailClosed = .ok devices)
    (hpending : ∀ p ∈ pending, ∀ o ∈ running, o ∈ pods ∧ o.uid ≠ p.uid) :
    Crowded cap q pods running pending ↔
      pending ≠ [] ∧ (∀ p ∈ pending, Alone pods p) ∧ 0 < q.maxApplications ∧
        q.maxApplications < ((apps pods).card : ℤ) ∧
        ((apps running).card : ℤ) < q.maxApplications := by
  have hall : ∀ o : Pod V, Limit.covers ⟨["*"], q.maxApplications, ∅⟩ o = true := fun o => by
    simp [Limit.covers, saInSet]
  have hgroup : ∀ l : List (Pod V), group ⟨["*"], q.maxApplications, ∅⟩ l = l :=
    fun l => List.filter_eq_self.mpr fun o _ => hall o
  have hwithin : ∀ (l : List (Pod V)) (devices : Resource V), TotalWithin ∅ l devices :=
    fun _ _ => .inl rfl
  have hcaps : caps q = [⟨["*"], q.maxApplications, ∅⟩] := by rw [caps, hlimits]
  constructor
  · rintro ⟨hout, p, hp, devices, hdevices, hroom⟩
    have hcrowded : ∀ p' ∈ pending, (0 < q.maxApplications ∧
        q.maxApplications < ((apps pods).card : ℤ)) ∧ Alone pods p' := by
      intro p' hp'
      obtain ⟨devices', hdevices'⟩ := hread p' hp'
      simpa [hcaps, hall, hgroup, hwithin, Oversubscribed] using hout p' hp' devices' hdevices'
    have hopen : OpenTo ⟨["*"], q.maxApplications, ∅⟩ running p := (hroom _ (by simp [hcaps])
      (hall p)).1
    obtain ⟨⟨hpos, hmany⟩, halone⟩ := hcrowded p hp
    refine ⟨List.ne_nil_of_mem hp, fun p' hp' => (hcrowded p' hp').2, hpos, hmany, ?_⟩
    rcases hopen hpos with hruns | hfew
    · rw [hgroup, apps, List.mem_toFinset] at hruns
      obtain ⟨o, ho, happ⟩ := List.mem_map.mp hruns
      exact absurd (halone o (hpending p hp o ho).1 happ) (hpending p hp o ho).2
    · rwa [hgroup] at hfew
  · rintro ⟨hne, halone, hpos, hmany, hfew⟩
    obtain ⟨p, hp⟩ := List.exists_mem_of_ne_nil _ hne
    obtain ⟨devices, hdevices⟩ := hread p hp
    refine ⟨fun p' hp' _ _ => ⟨_, by simp [hcaps], hall p', .inl ⟨⟨hpos, ?_⟩, ?_⟩⟩,
      p, hp, devices, hdevices, ?_⟩
    · rwa [hgroup]
    · rw [hgroup]
      exact halone p' hp'
    · simp [hcaps, hall, hgroup, hwithin, OpenTo, hfew]

end Populations

/-- The pods of a leaf keep each other out exactly where they crowd it. If the queue caps its
applications alone, that is where each pending pod is alone with its application, and there are
more applications than the cap, of which the bound pods do not fill it. -/
theorem notDeadlocked_iff (cap : Capacity V) (c : Coordinator V) (t : QueueManager V)
    (leaf : String) (q : Queue V) (ht : c.engine.tree = some t) (hq : t.index.lookup leaf = some q)
    (huids : (c.pods.map Pod.uid).Nodup) :
    let pods := population c t leaf
    let running := pods.filter isBound
    let pending := pendingOn c t leaf
    (NotDeadlocked cap c t leaf ↔ ¬ Crowded cap q pods running pending) ∧
    (q.limits = [] →
      (∀ p ∈ pending, ∃ devices,
        podDeviceRequests p cap.draClaims cap.draTemplates cap.draFailClosed = .ok devices) →
      (NotDeadlocked cap c t leaf ↔
        ¬ (pending ≠ [] ∧ (∀ p ∈ pending, Alone pods p) ∧ 0 < q.maxApplications ∧
          q.maxApplications < ((apps pods).card : ℤ) ∧
          ((apps running).card : ℤ) < q.maxApplications))) := by
  intro pods running pending
  refine ⟨notDeadlocked_iff_not_crowded ht hq huids, fun hlimits hread => ?_⟩
  rw [notDeadlocked_iff_not_crowded ht hq huids, crowded_iff_of_no_limits hlimits hread]
  intro p hp o ho
  obtain ⟨hin, hbound⟩ := List.mem_filter.mp ho
  obtain ⟨hpop, hpending⟩ := List.mem_filter.mp hp
  refine ⟨hin, fun huid => ?_⟩
  rw [List.inj_on_of_nodup_map (nodup_population huids) hin hpop huid] at hbound
  simp [hbound] at hpending

end Crowding

def cappedTenant (maxApplications : ℤ) (limits : List (Limit ℤ)) : Spec ℤ :=
  bareSpec rootName ∅ [bareSpec "team" ∅ [{ bareSpec "jobs" ∅ [] with
    serviceAccounts := ["runner"], maxApplications := maxApplications, limits := limits }]]

lemma lookup_cappedTenant (maxApplications : ℤ) (limits : List (Limit ℤ))
    (h : (newManager (cappedTenant maxApplications limits)).isOk = true) :
    ∃ q, (treeOf _ h).index.lookup "root.team.jobs" = some q ∧ q.maxApplications = maxApplications ∧
      q.limits = limits := by
  have hbelow : (rootSite (cappedTenant maxApplications limits)).Below
      (((rootSite (cappedTenant maxApplications limits)).child _).child _) :=
    .tail (.tail (Site.below_self _) (List.mem_map_of_mem List.mem_cons_self))
      (List.mem_map_of_mem List.mem_cons_self)
  exact ⟨_, ((newManager_ok (newManager_treeOf _ h)).2 _ _).mpr ⟨_, hbelow, rfl, rfl⟩, rfl, rfl⟩

def cpuLimit : Limit ℤ := ⟨["runner"], 0, Finmap.singleton "cpu" 10⟩

def cpuLimited : Coordinator ℤ :=
  newCoordinator (engineOn 60 (treeOf (cappedTenant 0 [cpuLimit]) (by decide +kernel)))

def noDevices : Capacity ℤ := ⟨none, none, false, false⟩

def podAsking (cpu memory : ℤ) : Pod ℤ :=
  { barePod "p" "team" "runner" cpu with
    containers := [⟨(Finmap.singleton "cpu" ⟨0, cpu⟩).insert "memory" ⟨memory, 0⟩, none⟩] }

lemma reaches_cpuLimit (cpu memory : ℤ) : ∃ t q, ReachesLimit noDevices cpuLimited
    (podAsking cpu memory) t "root.team.jobs" (effectiveRequest (podAsking cpu memory)) q []
    cpuLimit [] := by
  obtain ⟨q, hq, happs, hlimits⟩ := lookup_cappedTenant 0 [cpuLimit] (by decide +kernel)
  have hroute : resolve (treeOf (cappedTenant 0 [cpuLimit]) (by decide +kernel))
    ⟨"team", "runner"⟩ =
      .ok "root.team.jobs" := by decide +kernel
  exact ⟨_, q, rfl, hroute, rfl, rfl, hq, hlimits, by simp [happs, atMaxApplications],
    rfl, rfl, rfl⟩

/-- A pod that asks for memory is rejected over a limit that names the processor only. -/
theorem unnamed_axis_rejected :
    let pod := podAsking 1 1
    let req := effectiveRequest pod
    let used := (cpuLimited.leafLimitUsage "root.team.jobs" cpuLimit.serviceAccounts pod.uid).2
    (∃ t q, ReachesLimit noDevices cpuLimited pod t "root.team.jobs" req q [] cpuLimit []) ∧
      RejectedOver noDevices cpuLimited pod "root.team.jobs" req [] cpuLimit ∧
      ¬ Exceeds cpuLimit.maxResources used req := by
  intro pod req used
  obtain ⟨t, q, h⟩ := reaches_cpuLimit 1 1
  refine ⟨⟨t, q, h⟩, (rejectedOver_iff h).mpr (by decide +kernel), ?_⟩
  rintro ⟨d, hpos, hlt⟩
  have hd : d ∈ cpuLimit.maxResources.keys := mem_keys_of_get_ne_zero hpos.ne'
  have hwithin : ∀ d ∈ cpuLimit.maxResources.keys,
      get used d + get req d ≤ get cpuLimit.maxResources d := by decide +kernel
  exact absurd (hwithin d hd) (not_le.mpr hlt)

theorem named_axis_binds :
    let pod := podAsking 11 0
    let used := (cpuLimited.leafLimitUsage "root.team.jobs" cpuLimit.serviceAccounts pod.uid).2
    RejectedOver noDevices cpuLimited pod "root.team.jobs" (effectiveRequest pod) [] cpuLimit ↔
      Exceeds cpuLimit.maxResources used (effectiveRequest pod) := by
  intro pod used
  obtain ⟨t, q, h⟩ := reaches_cpuLimit 11 0
  exact (limit_binds_named_iff h).mpr (.inr (.inr ⟨"cpu", by decide +kernel, by decide +kernel⟩))

def appPod (uid app : String) : Pod ℤ :=
  { barePod uid "team" "runner" 1 with annotations := Finmap.singleton appIDAnnotation app }

def oneApp : QueueManager ℤ := treeOf (cappedTenant 1 []) (by decide +kernel)

def waiting (pods : List (Pod ℤ)) : Coordinator ℤ :=
  { newCoordinator (engineOn 60 oneApp) with pods := pods }

/-- Two applications wait for a leaf that has room for one and runs none. Either would pass
alone, and each keeps the other out. -/
theorem two_apps_deadlocked :
    let c := waiting [appPod "a" "etl", appPod "b" "report"]
    (∃ p ∈ pendingOn c oneApp "root.team.jobs",
      passesCaps noDevices (boundAnd c p) oneApp "root.team.jobs" p = true) ∧
    ∀ p ∈ pendingOn c oneApp "root.team.jobs",
      passesCaps noDevices c oneApp "root.team.jobs" p = false := by
  decide +kernel

theorem one_app_not_deadlocked : NotDeadlocked noDevices
    (waiting [appPod "a" "etl", appPod "b" "etl"]) oneApp "root.team.jobs" := by
  obtain ⟨q, hq, -, hlimits⟩ := lookup_cappedTenant 1 [] (by decide +kernel)
  have hcounted : ∀ uid ∈ ["a", "b"], appPod uid "etl" ∈
      population (waiting [appPod "a" "etl", appPod "b" "etl"]) oneApp "root.team.jobs" := by
    intro uid huid
    simp only [List.mem_cons, List.not_mem_nil, or_false] at huid
    rcases huid with rfl | rfl <;> exact List.mem_filter.mpr ⟨by simp [waiting], by decide +kernel⟩
  have hiff := notDeadlocked_iff noDevices (waiting [appPod "a" "etl", appPod "b" "etl"]) oneApp
    "root.team.jobs" q rfl hq (by decide +kernel)
  have hread : ∀ p ∈ pendingOn (waiting [appPod "a" "etl", appPod "b" "etl"]) oneApp
      "root.team.jobs", podDeviceRequests p none none false = .ok ∅ := by
    intro p hp
    have hin : p ∈ [appPod "a" "etl", appPod "b" "etl"] :=
      List.mem_of_mem_filter (List.mem_of_mem_filter hp)
    rcases List.mem_pair.mp hin with rfl | rfl <;> rfl
  refine (hiff.2 hlimits fun p hp => ⟨∅, hread p hp⟩).mpr ?_
  rintro ⟨-, halone, -⟩
  have hpending : appPod "a" "etl" ∈ pendingOn (waiting [appPod "a" "etl", appPod "b" "etl"])
      oneApp "root.team.jobs" := List.mem_filter.mpr ⟨hcounted "a" (by simp), by decide +kernel⟩
  exact absurd (halone _ hpending (appPod "b" "etl") (hcounted "b" (by simp)) rfl) (by decide)

end AdScheduler.LeafLimits
