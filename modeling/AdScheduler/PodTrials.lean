import AdScheduler.GangSections
import AdScheduler.Headroom

/-! What becomes of a pod that the scheduler tries, after PreFilter of
`pkg/plugins/capacity/capacity.go` and PreEnqueue of `pkg/plugins/gang/gang.go`. A call reads the
tree or the registry, and asks for room later, in the tree or at the leaf that it has read; a
refused pod goes to sleep later still. -/
namespace AdScheduler.PodTrials
open KeyedMap Resources QueueTree TreeShape Manager Conservation EngineCore Requests NodeCache
open Placement TreeAssembly CoordinatorCore Plugins Headroom GangSections

section Filter
variable {V : Type*} [CommRing V] [LinearOrder V]

/-- What PreFilter knows after its read of the tree: its answer, or the tree that it keeps, with
the leaf of the pod there. -/
inductive Reading (V : Type*) [CommRing V] [LinearOrder V]
  | done (answer : Except (CapacityStatus V) (PreFilterState V))
  | goesOn (t : QueueManager V) (leaf : String) (req : Resource V)

def readTree (cap : Capacity V) (c : Coordinator V) (pod : Pod V) : Reading V :=
  match c.engine.tree with
  | none => .done (.error .treeNotBuilt)
  | some t =>
    match resolve t pod.placementKey with
    | .error err => .done (.error (.placement err))
    | .ok leaf =>
      match cap.request pod with
      | .error err => .done (.error (.dra err))
      | .ok req => if pod.gang then .done (.ok ⟨leaf, req, true⟩) else .goesOn t leaf req

/-- The last section of PreFilter, in the tree that it has read. -/
def askRoom (t : QueueManager V) (leaf : String) (req : Resource V) :
    Except (CapacityStatus V) (PreFilterState V) :=
  match t.canFit leaf req with
  | .error err => .error (.queue err)
  | .ok false => .error (.overMax leaf req)
  | .ok true => .ok ⟨leaf, req, false⟩

/-- The sections in a row, with the caps on applications between them, are a PreFilter call. -/
theorem preFilter_sections (cap : Capacity V) (c : Coordinator V) (pod : Pod V) :
    cap.preFilter c pod =
      match readTree cap c pod with
      | .done answer => answer
      | .goesOn t leaf req => (checkApplications c t leaf pod req).bind fun _ =>
          askRoom t leaf req := by
  unfold Capacity.preFilter readTree
  cases c.engine.tree with
  | none => rfl
  | some t =>
    dsimp only
    cases resolve t pod.placementKey with
    | error err => rfl
    | ok leaf =>
      dsimp only
      cases cap.request pod with
      | error err => rfl
      | ok req =>
        dsimp only
        split_ifs
        · rfl
        · dsimp only
          cases checkApplications c t leaf pod req <;> rfl

end Filter

/-- How a refused pod finds its leaf: by its identity, or by the path its pod group names. -/
inductive Route
  | identity (id : Identity)
  | path (p : String)

def Route.leaf (t : QueueManager ℤ) : Route → Option String
  | .identity id => (resolve t id).toOption
  | .path p => if p ∈ t.index then some p else none

/-- What a refused pod waits for: room on its leaf for its request, or for all of its gang. -/
structure Wish where
  route : Route
  req : Resource ℤ
  gang : Bool

/-- A gang asks for a leaf, and for maxima that it can ever fit. -/
def Wish.fitsAt (w : Wish) (t : QueueManager ℤ) (leaf : String) : Bool :=
  t.fits leaf w.req && (!w.gang || t.isLeafPath leaf && t.fitsMax leaf w.req)

/-- The live tree has a leaf for the pod, and room for its wish there. -/
def roomFor (e : Engine ℤ) (w : Wish) : Bool :=
  e.tree.any fun t => (w.route.leaf t).any fun leaf => w.fitsAt t leaf

/-- How far the scheduler has come with a pod. PreFilter has read the tree and has still to ask for
room in it; the tree is kept once a rebuild has replaced it. PreEnqueue is on its way. The pod was
refused. It sleeps. -/
inductive Progress
  | filtering (leaf : String) (req : Resource ℤ) (replaced : Option (QueueManager ℤ))
  | enqueuing (key : String) (stage : Stage ℤ)
  | refused (wish : Wish)
  | asleep (wish : Wish)

/-- A pod that the scheduler tries, or has tried. It is overtaken once it was woken, or was not
pending, since its trial began and before it is asleep. -/
structure Trial where
  pod : Pod ℤ
  progress : Progress
  overtaken : Bool

/-- The pods that `activatePending` puts back into the active queue. -/
def pendingPods (c : Coordinator ℤ) : List (Pod ℤ) :=
  c.pods.filter fun p => decide (p.schedulerName = c.cache.schedulerName ∧ p.nodeName = "" ∧
    p.deletionTimestamp = none)

def pendingUids (c : Coordinator ℤ) : List String := (pendingPods c).map Pod.uid

/-- What PreFilter refuses because of the tree: there is none, it does not route the pod, or it has
no room for what the pod asks. -/
def filterWish (pod : Pod ℤ) : Except (CapacityStatus ℤ) (PreFilterState ℤ) → Option Wish
  | .error .treeNotBuilt | .error (.placement _) =>
    some ⟨.identity pod.placementKey, effectiveRequest pod, false⟩
  | .error (.overMax _ req) => some ⟨.identity pod.placementKey, req, false⟩
  | _ => none

/-- The route of a gang member, as `resolveLeaf` takes it. -/
def gangRoute (pod : Pod ℤ) (info : GangInfo ℤ) : Route :=
  if info.queue = "" then .identity pod.placementKey
  else .path (if Gang.hasRootPrefix info.queue then info.queue else rootName ++ "." ++ info.queue)

/-- What PreEnqueue refuses because of the tree. A member that is refused while the leaf has room
for its gang waits behind the bid of another gang, or belongs on another leaf. -/
def gangWish (c : Coordinator ℤ) (call : MemberCall ℤ) : Except GangStatus Unit → Option Wish
  | .ok () => none
  | .error _ =>
    match call.stage with
    | .unregistered | .routed _ _ => none
    | .registered info => some ⟨gangRoute call.pod info, info.minResources, true⟩
    | .unbound info leaf =>
      let wish : Wish := ⟨gangRoute call.pod info, info.minResources, true⟩
      if c.engine.tree.any fun t => wish.fitsAt t leaf then none else some wish

namespace Trial

def isPending (c : Coordinator ℤ) (pod : Pod ℤ) : Bool := decide (pod.uid ∈ pendingUids c)

/-- The scheduler forgets a pod that is not pending. -/
def refuse (c : Coordinator ℤ) (pod : Pod ℤ) (overtaken : Bool) (wish : Option Wish) :
    List Trial :=
  if isPending c pod then wish.toList.map fun w => ⟨pod, .refused w, overtaken⟩ else []

def preFilter (cap : Capacity ℤ) (c : Coordinator ℤ) (pod : Pod ℤ) : List Trial :=
  match readTree cap c pod with
  | .done answer => refuse c pod false (filterWish pod answer)
  | .goesOn _ leaf req => [⟨pod, .filtering leaf req none, !isPending c pod⟩]

/-- The caps on applications are read in between, and may turn the pod away. -/
def turnAway (x : Trial) : List Trial :=
  match x.progress with
  | .filtering _ _ _ => []
  | _ => [x]

def askRoom (c : Coordinator ℤ) (x : Trial) : List Trial :=
  match x.progress with
  | .filtering leaf req replaced => refuse c x.pod x.overtaken
      ((replaced.or c.engine.tree).bind fun t => filterWish x.pod (PodTrials.askRoom t leaf req))
  | _ => [x]

def preEnqueue (c : Coordinator ℤ) (pod : Pod ℤ) : List Trial :=
  match pod.gangKey with
  | none => []
  | some (key, name) =>
    match readRegistry c pod key name with
    | .done _ => []
    | .goesOn stage => [⟨pod, .enqueuing key stage, !isPending c pod⟩]

def proceed (c : Coordinator ℤ) (now : ℤ) (x : Trial) : Coordinator ℤ × List Trial :=
  match x.progress with
  | .enqueuing key stage =>
    let call : MemberCall ℤ := ⟨x.pod, key, stage⟩
    ((call.step c now).1, match (call.step c now).2 with
      | .goesOn stage' => [{ x with progress := .enqueuing key stage' }]
      | .done answer => refuse c x.pod x.overtaken (gangWish c call answer))
  | _ => (c, [x])

def sleep (x : Trial) : List Trial :=
  match x.progress with
  | .refused wish => [{ x with progress := .asleep wish }]
  | _ => [x]

/-- What a sleeping pod waits for. -/
def asleepFor (x : Trial) : Option Wish :=
  match x.progress with
  | .asleep wish => some wish
  | _ => none

def isAsleep (x : Trial) : Bool := x.asleepFor.isSome

/-- PreFilter or PreEnqueue is on its way. -/
def isCall (x : Trial) : Bool :=
  match x.progress with
  | .filtering _ _ _ | .enqueuing _ _ => true
  | .refused _ | .asleep _ => false

/-- A woken pod is tried again; the trial of a pod that is not asleep yet goes on. -/
def wake (woken : String → Bool) (x : Trial) : Option Trial :=
  if woken x.pod.uid then if x.isAsleep then none else some { x with overtaken := true }
  else some x

/-- The stores have changed. -/
def review (c : Coordinator ℤ) (x : Trial) : Option Trial :=
  if isPending c x.pod then some x
  else if x.isCall then some { x with overtaken := true } else none

/-- The live tree is replaced. -/
def outlive (old : Option (QueueManager ℤ)) (x : Trial) : Trial :=
  match x.progress with
  | .filtering leaf req replaced => { x with progress := .filtering leaf req (replaced.or old) }
  | _ => x

end Trial

section Room
variable {e e' e'' : Engine ℤ}

/-- The live tree keeps its queues, and none of them gets emptier. -/
def Fuller (e e' : Engine ℤ) : Prop :=
  Option.Rel (fun t t' => t'.index = t.index ∧ ∀ n d, get (t.used n) d ≤ get (t'.used n) d)
    e.tree e'.tree

lemma fuller_of_tree_eq (h : e'.tree = e.tree) : Fuller e e' := by
  rw [Fuller, h]
  cases e.tree with
  | none => exact .none
  | some t => exact .some ⟨rfl, fun _ _ => le_rfl⟩

lemma Fuller.refl (e : Engine ℤ) : Fuller e e := fuller_of_tree_eq rfl

lemma Fuller.of_trees {t t' : QueueManager ℤ} (ht : e.tree = some t) (ht' : e'.tree = some t')
    (hix : t'.index = t.index) (hused : ∀ n d, get (t.used n) d ≤ get (t'.used n) d) :
    Fuller e e' := by
  rw [Fuller, ht, ht']
  exact .some ⟨hix, hused⟩

lemma Fuller.exists_tree (h : Fuller e e') {t : QueueManager ℤ} (ht : e.tree = some t) :
    ∃ t', e'.tree = some t' ∧ t'.index = t.index := by
  rw [Fuller, ht] at h
  generalize htree : e'.tree = tree' at h
  cases h with
  | some hkept => exact ⟨_, rfl, hkept.1⟩

lemma fitsAt_of_fuller {t t' : QueueManager ℤ} (hix : t'.index = t.index)
    (hused : ∀ n d, get (t.used n) d ≤ get (t'.used n) d) {w : Wish} {p : String}
    (h : w.fitsAt t' p = true) : w.fitsAt t p = true := by
  rw [Wish.fitsAt, Bool.and_eq_true] at h ⊢
  refine ⟨?_, ?_⟩
  · have hroom := (fits_iff t' p w.req).mp h.1
    rw [hix] at hroom
    rw [fits_iff]
    intro n hn d hd hmax
    have hfits := hroom n hn d hd hmax
    have hless := hused n.path d
    omega
  · simpa [QueueManager.isLeafPath, QueueManager.fitsMax, hix] using h.2

/-- The live tree leads the route to this leaf. -/
def Stands (e : Engine ℤ) (route : Route) (leaf : String) : Prop :=
  ∃ t, e.tree = some t ∧ route.leaf t = some leaf

lemma Route.leaf_congr {t t' : QueueManager ℤ} (h : t'.index = t.index) (route : Route) :
    route.leaf t' = route.leaf t := by
  cases route with
  | identity id => rw [Route.leaf, Route.leaf, resolve_congr h]
  | path p => rw [Route.leaf, Route.leaf, h]

lemma Fuller.stands (h : Fuller e e') {route : Route} {leaf : String} (hs : Stands e route leaf) :
    Stands e' route leaf := by
  obtain ⟨t, ht, hleaf⟩ := hs
  obtain ⟨t', ht', hix⟩ := h.exists_tree ht
  exact ⟨t', ht', (Route.leaf_congr hix route).trans hleaf⟩

lemma Stands.roomFor {w : Wish} {leaf : String} (h : Stands e w.route leaf)
    (hfull : (e.tree.any fun t => w.fitsAt t leaf) = false) : roomFor e w = false := by
  obtain ⟨t, ht, hleaf⟩ := h
  rw [ht, Option.any_some] at hfull
  simp [PodTrials.roomFor, ht, hleaf, hfull]

lemma Fuller.roomFor (h : Fuller e e') {w : Wish} (hw : roomFor e w = false) :
    roomFor e' w = false := by
  unfold PodTrials.roomFor at hw ⊢
  unfold Fuller at h
  generalize e.tree = tree at h hw
  generalize e'.tree = tree' at h ⊢
  cases h with
  | none => rfl
  | some hkept =>
    obtain ⟨hix, hused⟩ := hkept
    rw [Option.any_some] at hw ⊢
    rw [Route.leaf_congr hix]
    by_contra hroom
    rw [Bool.not_eq_false, Option.any_eq_true] at hroom
    obtain ⟨leaf, hleaf, hfits⟩ := hroom
    simp [hleaf, fitsAt_of_fuller hix hused hfits] at hw

lemma mutate_fuller {fn : Usage ℤ → Usage ℤ} {δ : String → ℤ × ℤ × ℤ} (hfn : Moves fn δ)
    (hδ : ∀ d, 0 ≤ usedHom ℤ (δ d)) (t : QueueManager ℤ) (p n d : String) :
    get (t.used n) d ≤ get ((t.mutate p fn).1.used n) d := by
  rw [mutate_used hfn]
  have := hδ d
  split_ifs <;> omega

lemma reserve_fuller {r : Resource ℤ} (hr : ∀ d, 0 ≤ get r d) (t : QueueManager ℤ)
    (p n d : String) :
    get (t.used n) d ≤ get ((t.mutate p (Usage.reserve r)).1.used n) d :=
  mutate_fuller (moves_reserve r) (fun d => by simpa [usedHom] using hr d) t p n d

lemma allocate_fuller {r : Resource ℤ} (hr : ∀ d, 0 ≤ get r d) (t : QueueManager ℤ)
    (p n d : String) :
    get (t.used n) d ≤ get ((t.mutate p (Usage.allocate r)).1.used n) d :=
  mutate_fuller (moves_allocate r) (fun d => by simpa [usedHom] using hr d) t p n d

lemma commit_fuller (r : Resource ℤ) (t : QueueManager ℤ) (p n d : String) :
    get (t.used n) d ≤ get ((t.mutate p (Usage.commit r)).1.used n) d :=
  mutate_fuller (moves_commit r) (fun d => by simp [usedHom]) t p n d

lemma fuller_reserve (e : Engine ℤ) (uid leaf : String) {r : Resource ℤ} (hr : ∀ d, 0 ≤ get r d) :
    Fuller e (e.reserve uid leaf r) := by
  unfold Engine.reserve
  split_ifs
  · exact .refl e
  cases ht : e.tree with
  | none => exact .refl e
  | some t =>
    have hix := mutate_index t leaf (Usage.reserve r)
    have hused := reserve_fuller hr t leaf
    dsimp only
    rw [QueueManager.reserve]
    generalize t.mutate leaf (Usage.reserve r) = result at hix hused ⊢
    obtain ⟨t₁, _ | _⟩ := result
    all_goals exact .of_trees ht rfl hix hused

lemma fuller_commit (e : Engine ℤ) (uid : String) : Fuller e (e.commit uid) := by
  unfold Engine.commit
  split
  · exact .refl e
  split_ifs
  · exact .refl e
  cases ht : e.tree with
  | none => exact fuller_of_tree_eq ht.symm
  | some t => exact .of_trees ht rfl (mutate_index _ _ _) (commit_fuller _ t _)

lemma fuller_observeBound (e : Engine ℤ) (uid leaf : String) {r : Resource ℤ}
    (hr : ∀ d, 0 ≤ get r d) : Fuller e (e.observeBound uid leaf r) := by
  unfold Engine.observeBound
  cases ht : e.tree with
  | none => exact .refl e
  | some t =>
    dsimp only
    repeat' split
    · exact .of_trees ht rfl (mutate_index _ _ _) (allocate_fuller hr t leaf)
    · exact .refl e
    · exact .of_trees ht rfl (mutate_index _ _ _) (commit_fuller _ t _)
    · exact .refl e

lemma fuller_admitStep {leaf key : String} {minRes : Resource ℤ}
    (h : AdmitStep e e' leaf key minRes) : Fuller e e' := by
  cases h with
  | unchanged tree => exact fuller_of_tree_eq tree
  | booked t tree _ admits tree' =>
    refine .of_trees tree tree' rfl fun n d => ?_
    rw [admitted_used admits.leaf_ok]
    have hpos := get_nonneg_of_strictlyGtZero admits.positive d
    split_ifs <;> omega
  | adopted t tree _ _ tree' => exact fuller_of_tree_eq (tree'.trans tree.symm)

end Room

section Refusals
variable {cap : Capacity ℤ} {c : Coordinator ℤ} {pod : Pod ℤ} {w : Wish}

lemma readTree_refused {answer : Except (CapacityStatus ℤ) (PreFilterState ℤ)}
    (h : readTree cap c pod = .done answer) (hw : filterWish pod answer = some w) :
    roomFor c.engine w = false := by
  unfold readTree at h
  split at h
  · rename_i ht
    simp [roomFor, ht]
  rename_i t ht
  split at h
  · rename_i err hleaf
    cases h
    cases hw
    simp [roomFor, ht, Route.leaf, hleaf, Except.toOption]
  split at h
  · cases h
    cases hw
  split_ifs at h
  cases h
  cases hw

lemma readTree_goesOn {t : QueueManager ℤ} {leaf : String} {req : Resource ℤ}
    (h : readTree cap c pod = .goesOn t leaf req) :
    Stands c.engine (.identity pod.placementKey) leaf := by
  unfold readTree at h
  split at h
  · cases h
  rename_i t' ht
  split at h
  · cases h
  rename_i leaf' hleaf
  split at h
  · cases h
  split_ifs at h
  cases h
  exact ⟨t, ht, by simp [Route.leaf, hleaf, Except.toOption]⟩

lemma askRoom_refused {t : QueueManager ℤ} {leaf : String} {req : Resource ℤ}
    (h : filterWish pod (askRoom t leaf req) = some w) :
    w.route = .identity pod.placementKey ∧ w.fitsAt t leaf = false := by
  unfold askRoom QueueManager.canFit at h
  cases hq : t.index.lookup leaf with
  | none => simp [hq, filterWish] at h
  | some q =>
    cases hfits : t.fits leaf req with
    | true => simp [hq, hfits, filterWish] at h
    | false =>
      simp only [hq, hfits, filterWish, Option.some.injEq] at h
      subst h
      exact ⟨rfl, by simp [Wish.fitsAt, hfits]⟩

lemma resolveLeaf_toOption (c : Coordinator ℤ) (pod : Pod ℤ) (info : GangInfo ℤ) :
    (Gang.resolveLeaf c pod info.queue).toOption =
      c.engine.tree.bind fun t => (gangRoute pod info).leaf t := by
  unfold Gang.resolveLeaf gangRoute
  cases c.engine.tree with
  | none => rfl
  | some t =>
    by_cases hqueue : info.queue = ""
    · simp only [hqueue, ne_eq, not_true_eq_false, if_false, if_true, Option.bind_some, Route.leaf]
      cases resolve t pod.placementKey <;> rfl
    · simp only [hqueue, ne_eq, not_false_eq_true, if_true, if_false, Option.bind_some, Route.leaf,
        apply_ite Except.toOption]
      rfl

lemma resolveLeaf_ok {info : GangInfo ℤ} {leaf : String}
    (h : Gang.resolveLeaf c pod info.queue = .ok leaf) :
    Stands c.engine (gangRoute pod info) leaf := by
  have hleaf := resolveLeaf_toOption c pod info
  rw [h] at hleaf
  exact Option.bind_eq_some_iff.mp hleaf.symm

lemma resolveLeaf_error {info : GangInfo ℤ} {status : GangStatus} {req : Resource ℤ}
    (h : Gang.resolveLeaf c pod info.queue = .error status) :
    roomFor c.engine ⟨gangRoute pod info, req, true⟩ = false := by
  have hleaf := resolveLeaf_toOption c pod info
  rw [h] at hleaf
  cases ht : c.engine.tree with
  | none => simp [roomFor, ht]
  | some t =>
    rw [ht] at hleaf
    have hnone : (gangRoute pod info).leaf t = none := hleaf.symm
    simp [roomFor, ht, hnone]

/-- The leaf that a PreEnqueue call has read, with the entry of the registry. -/
def place? : Stage ℤ → Option (GangInfo ℤ × String)
  | .unregistered | .registered _ => none
  | .routed info leaf | .unbound info leaf => some (info, leaf)

lemma place?_readRegistry {key name : String} {stage : Stage ℤ}
    (h : readRegistry c pod key name = .goesOn stage) : place? stage = none := by
  unfold readRegistry at h
  split at h
  · cases h
    rfl
  · split_ifs at h
    cases h
    rfl

lemma step_goesOn {call : MemberCall ℤ} {now : ℤ} {stage : Stage ℤ} {p : GangInfo ℤ × String}
    (h : (call.step c now).2 = .goesOn stage) (hp : place? stage = some p) :
    place? call.stage = some p ∨ Stands c.engine (gangRoute call.pod p.1) p.2 := by
  unfold MemberCall.step at h
  cases hstage : call.stage with
  | unregistered => simp [hstage] at h
  | registered info =>
    simp only [hstage] at h
    cases hleaf : Gang.resolveLeaf c call.pod info.queue with
    | error status => simp [hleaf] at h
    | ok leaf =>
      simp only [hleaf, Outcome.goesOn.injEq] at h
      subst h
      cases hp
      exact .inr (resolveLeaf_ok hleaf)
  | routed info leaf =>
    simp only [hstage] at h
    cases hbound : c.engine.gangLeaf call.key with
    | some bound => simp [hbound] at h
    | none =>
      simp only [hbound, Outcome.goesOn.injEq] at h
      subst h
      exact .inl hp
  | unbound info leaf => simp [hstage] at h

lemma gangWish_full {call : MemberCall ℤ} {now : ℤ} {answer : Except GangStatus Unit}
    (h : (call.step c now).2 = .done answer) (hw : gangWish c call answer = some w) :
    roomFor c.engine w = false ∨ ∃ p, place? call.stage = some p ∧
      w.route = gangRoute call.pod p.1 ∧
      (c.engine.tree.any fun t => w.fitsAt t p.2) = false := by
  cases answer with
  | ok u => cases hw
  | error status =>
    unfold gangWish at hw
    cases hstage : call.stage with
    | unregistered | routed => simp [hstage] at hw
    | registered info =>
      simp only [hstage, Option.some.injEq] at hw
      subst hw
      simp only [MemberCall.step, hstage] at h
      cases hleaf : Gang.resolveLeaf c call.pod info.queue with
      | error status' => exact .inl (resolveLeaf_error hleaf)
      | ok leaf => simp [hleaf] at h
    | unbound info leaf =>
      simp only [hstage, Option.ite_none_left_eq_some, Option.some.injEq] at hw
      obtain ⟨hfull, rfl⟩ := hw
      exact .inr ⟨(info, leaf), rfl, rfl, Bool.eq_false_iff.mpr hfull⟩

lemma Trial.proceed_coord (c : Coordinator ℤ) (now : ℤ) (x : Trial) :
    (x.proceed c now).1 = c ∨ ∃ call info leaf,
      (x.proceed c now).1 = { c with engine := (admission c.engine call info leaf now).1 } := by
  unfold Trial.proceed
  split
  · rename_i key stage _
    refine (step_coord c ⟨x.pod, key, stage⟩ now).imp_right ?_
    rintro ⟨info, leaf, -, hadmission⟩
    exact ⟨_, info, leaf, hadmission⟩
  · exact .inl rfl

lemma fuller_proceed (c : Coordinator ℤ) (now : ℤ) (x : Trial) :
    Fuller c.engine (x.proceed c now).1.engine := by
  rcases Trial.proceed_coord c now x with hsame | ⟨call, info, leaf, hadmission⟩
  · rw [hsame]
    exact .refl _
  · rw [hadmission]
    exact fuller_admitStep (admitGangWW_step _ _ _ _ _ _)

lemma pendingUids_proceed (c : Coordinator ℤ) (now : ℤ) (x : Trial) :
    pendingUids (x.proceed c now).1 = pendingUids c := by
  rcases Trial.proceed_coord c now x with hsame | ⟨call, info, leaf, hadmission⟩
  · rw [hsame]
  · rw [hadmission]
    rfl

end Refusals

section Trials
variable {x y : Trial}

namespace Trial

/-- What PreFilter or PreEnqueue has read still stands, and a refused pod has no room. -/
def Holds (e : Engine ℤ) (x : Trial) : Prop :=
  match x.progress with
  | .filtering leaf _ replaced =>
    replaced = none ∧ Stands e (.identity x.pod.placementKey) leaf
  | .enqueuing _ stage => ∀ p, place? stage = some p → Stands e (gangRoute x.pod p.1) p.2
  | .refused wish | .asleep wish => roomFor e wish = false

lemma Holds.fuller {e e' : Engine ℤ} (h : x.Holds e) (hfuller : Fuller e e') : x.Holds e' := by
  unfold Holds at h ⊢
  split at h
  · exact ⟨h.1, hfuller.stands h.2⟩
  · exact fun p hp => hfuller.stands (h p hp)
  · exact hfuller.roomFor h
  · exact hfuller.roomFor h

/-- The same trial as far as activations are concerned. -/
def Kin (x y : Trial) : Prop :=
  y.pod = x.pod ∧ y.overtaken = x.overtaken ∧ y.isCall = x.isCall

lemma kin_refl (x : Trial) : Kin x x := ⟨rfl, rfl, rfl⟩

lemma kin_outlive (old : Option (QueueManager ℤ)) (x : Trial) : Kin x (x.outlive old) := by
  unfold outlive
  split
  · rename_i hfilter
    exact ⟨rfl, rfl, by simp [isCall, hfilter]⟩
  · exact kin_refl x

lemma mem_refuse {c : Coordinator ℤ} {pod : Pod ℤ} {overtaken : Bool} {wish : Option Wish}
    (h : y ∈ refuse c pod overtaken wish) :
    pod.uid ∈ pendingUids c ∧ ∃ w, wish = some w ∧ y = ⟨pod, .refused w, overtaken⟩ := by
  unfold refuse at h
  split_ifs at h with hpending
  · obtain ⟨w, hw, rfl⟩ := List.mem_map.mp h
    exact ⟨of_decide_eq_true hpending, w, Option.mem_toList.mp hw, rfl⟩
  · simp at h

lemma progress_of_asleepFor {wish : Wish} (h : x.asleepFor = some wish) :
    x.progress = .asleep wish := by
  unfold asleepFor at h
  split at h
  · rename_i hprogress
    cases h
    exact hprogress
  · cases h

lemma isCall_of_isAsleep (h : x.isAsleep = true) : x.isCall = false := by
  obtain ⟨wish, hwish⟩ := Option.isSome_iff_exists.mp h
  simp [isCall, progress_of_asleepFor hwish]

lemma wake_eq_some {woken : String → Bool} (h : x.wake woken = some y) :
    y = x ∧ woken x.pod.uid = false ∨ y = { x with overtaken := true } ∧ x.isAsleep = false := by
  unfold wake at h
  split_ifs at h with hwoken hasleep
  · cases h
    exact .inr ⟨rfl, Bool.eq_false_iff.mpr hasleep⟩
  · cases h
    exact .inl ⟨rfl, Bool.eq_false_iff.mpr hwoken⟩

lemma review_eq_some {c : Coordinator ℤ} (h : x.review c = some y) :
    y = x ∧ x.pod.uid ∈ pendingUids c ∨ y = { x with overtaken := true } ∧ x.isCall = true := by
  unfold review at h
  split_ifs at h with hpending hcall
  · cases h
    exact .inl ⟨rfl, of_decide_eq_true hpending⟩
  · cases h
    exact .inr ⟨rfl, hcall⟩

end Trial

end Trials

end AdScheduler.PodTrials
