import AdScheduler.GangSections

/-! One leaf per gang: which members PreEnqueue lets through while their gang holds a
reservation, and where that reservation is, on a fixed tree. The sections of the calls of
different members, of the handlers and of the recovery may come in any order. -/
namespace AdScheduler.GangLeaves
open KeyedMap Resources QueueTree Manager EngineCore WoundWait Requests Placement CoordinatorCore
open Plugins GangSections Runs

variable {V : Type*} [CommRing V] [LinearOrder V]

/-- The coordinator, and the PreEnqueue calls that have read the registry. -/
structure State (V : Type*) [CommRing V] [LinearOrder V] where
  coord : Coordinator V
  calls : List (MemberCall V)

inductive Step (V : Type*)
  | preEnqueue (pod : Pod V)
  | proceed (i : ℕ) (now : ℤ)
  | upsert (pg : PodGroup V)
  | unregister (key : String)
  | store (groups : List (PodGroup V))
  | recoverGang (pg : PodGroup V)
  | releaseGang (key : String)
  | gcGangs (live : Finset String) (order : List String)

def setEngine (s : State V) (e : Engine V) : State V :=
  { s with coord := { s.coord with engine := e } }

/-- The next section of a call, a handler or a loop. A deletion of a pod group is the removal
from the registry and then the release; a recovery is one section for each listed group. -/
def next (s : State V) : Step V → State V
  | .preEnqueue pod => { s with calls := enter s.coord s.calls pod }
  | .proceed i now => ⟨(proceed s.coord s.calls i now).1, (proceed s.coord s.calls i now).2⟩
  | .upsert pg => { s with coord := s.coord.onPodGroupUpsert pg }
  | .unregister key => { s with coord := { s.coord with gangs := s.coord.gangs.erase key } }
  | .store groups => { s with coord := { s.coord with podGroups := groups } }
  | .recoverGang pg =>
    match s.coord.engine.tree with
    | none => s
    | some t => setEngine s (recoverGang t s.coord.engine pg)
  | .releaseGang key => setEngine s (s.coord.engine.releaseGang key)
  | .gcGangs live order => setEngine s (s.coord.engine.gcGangs live order).1

lemma onPodGroupDelete_sections (s : State V) (pg : PodGroup V) :
    next (next s (.unregister pg.key)) (.releaseGang pg.key) =
      { s with coord := s.coord.onPodGroupDelete pg } := rfl

def gangCalls : Machine (State V) (Step V) := ⟨fun _ _ => True, next⟩

/-- The queue that the pod group names: as registered, or else as the informer has it. -/
def declaredQueue (c : Coordinator V) (key : String) : String :=
  match c.gangs.lookup key with
  | some info => info.queue
  | none => (c.podGroups.find? fun pg => decide (pg.key = key)).elim "" PodGroup.queue

/-- The leaf that the member of a call resolves to, with the queue that the call has read or
would read now. -/
def memberLeaf (c : Coordinator V) (call : MemberCall V) : Except GangStatus String :=
  Gang.resolveLeaf c call.pod (call.stage.info?.elim (declaredQueue c call.key) GangInfo.queue)

/-- A member that this step lets through, while its gang holds a reservation, resolves to
the leaf of the reservation. -/
def OneLeaf (s : State V) : Step V → Prop
  | .preEnqueue pod => ∀ key name, pod.gangKey = some (key, name) →
      readRegistry s.coord pod key name = .done (.ok ()) →
      ∀ leaf, s.coord.engine.gangLeaf key = some leaf →
        Gang.resolveLeaf s.coord pod (declaredQueue s.coord key) = .ok leaf
  | .proceed i now => ∀ call, s.calls[i]? = some call →
      (call.step s.coord now).2 = .done (.ok ()) →
      ∀ leaf, (call.step s.coord now).1.engine.gangLeaf call.key = some leaf →
        memberLeaf s.coord call = .ok leaf
  | _ => True

/-- The group is registered and declares nothing to reserve. -/
def Unreserved (c : Coordinator V) (key : String) : Prop :=
  (c.gangs.lookup key).elim False fun info =>
    info.failed = false ∧ strictlyGtZero info.minResources = false

instance (c : Coordinator V) (key : String) : Decidable (Unreserved c key) :=
  decidable_of_iff ((c.gangs.lookup key).any (fun info =>
      decide (info.failed = false ∧ strictlyGtZero info.minResources = false)) = true) (by
    unfold Unreserved
    cases c.gangs.lookup key <;> simp)

/-- A member of a gang with a reservation belongs on its leaf, if the group declares nothing to
reserve when the registry is read, or if the group was not registered then and the gang is looked
up in the ledger. -/
def Gated (s : State V) : Step V → Prop
  | .preEnqueue pod => ∀ key name, pod.gangKey = some (key, name) → Unreserved s.coord key →
      ∀ leaf, s.coord.engine.gangLeaf key = some leaf →
        Gang.resolveLeaf s.coord pod (declaredQueue s.coord key) = .ok leaf
  | .proceed i _ => ∀ call, s.calls[i]? = some call → call.stage = .unregistered →
      ∀ leaf, s.coord.engine.gangLeaf call.key = some leaf →
        Gang.resolveLeaf s.coord call.pod (declaredQueue s.coord call.key) = .ok leaf
  | _ => True

lemma readRegistry_ok_iff {c : Coordinator V} {pod : Pod V} {key name : String}
    (h : pod.gangKey = some (key, name)) :
    readRegistry c pod key name = .done (.ok ()) ↔ Unreserved c key := by
  have hkey : c.gangInfo pod.ns name = c.gangs.lookup key := by
    rw [Coordinator.gangInfo, Pod.gangKey_eq h]
  unfold readRegistry Unreserved
  rw [hkey]
  cases c.gangs.lookup key with
  | none => simp
  | some info =>
    dsimp only [Option.elim_some]
    split_ifs with hfailed hnothing <;> simp_all

lemma admitGangWW_gangLeaf {e : Engine V} {leaf key : String} {minRes : Resource V}
    {wwkey : WoundWaitKey} {now : ℤ} (h : (e.admitGangWW leaf key minRes wwkey now).2 = .ok true) :
    (e.admitGangWW leaf key minRes wwkey now).1.gangLeaf key = some leaf := by
  have ho := admitGangWW_outcome e leaf key minRes wwkey now
  generalize e.admitGangWW leaf key minRes wwkey now = r at ho h ⊢
  cases ho with
  | @known gb hit =>
    by_cases hl : gb.leaf = leaf
    · simp [Engine.gangLeaf, hit, hl]
    · simp [hl] at h
  | noTree | heldBack | failed | waits => cases h
  | booked | adopted => simp [Engine.gangLeaf]

section Fixed

/-- The step keeps the queues of the tree, and gangs that stay admitted stay on their
leaf. -/
structure Keeps (e e' : Engine V) : Prop where
  queues : e'.tree.map QueueManager.index = e.tree.map QueueManager.index
  leaf : ∀ key leaf, e.gangLeaf key = some leaf →
    e'.gangLeaf key = some leaf ∨ e'.gangLeaf key = none

lemma Keeps.refl (e : Engine V) : Keeps e e := ⟨rfl, fun _ _ => .inl⟩

lemma admitStep_gangLeaf {e e' : Engine V} {leaf key : String} {minRes : Resource V}
    (h : AdmitStep e e' leaf key minRes) {k l : String} (hk : e.gangLeaf k = some l) :
    e'.gangLeaf k = some l := by
  have hinsert : ∀ gb, e.gangBook.lookup key = none →
      ((e.gangBook.insert key gb).lookup k).map GangBooking.leaf = some l := by
    intro gb hnew
    have hne : k ≠ key := by
      rintro rfl
      simp [Engine.gangLeaf, hnew] at hk
    rw [Finmap.lookup_insert_of_ne _ hne]
    exact hk
  rcases h with ⟨_, hbook⟩ | ⟨_, _, hnew, _, _, hbook⟩ | ⟨_, _, hnew, _, _, hbook⟩
  · rw [Engine.gangLeaf, hbook]
    exact hk
  · rw [Engine.gangLeaf, hbook]
    exact hinsert _ hnew
  · rw [Engine.gangLeaf, hbook]
    exact hinsert _ hnew

lemma keeps_admitStep {e e' : Engine V} {leaf key : String} {minRes : Resource V}
    (h : AdmitStep e e' leaf key minRes) : Keeps e e' :=
  ⟨h.index, fun _ _ hk => .inl (admitStep_gangLeaf h hk)⟩

lemma keeps_recoverGang (t : QueueManager V) (e : Engine V) (pg : PodGroup V) :
    Keeps e (recoverGang t e pg) := by
  rcases recoverGang_cases t e pg with ⟨_, _, he⟩ | ⟨_, he⟩
  · rw [he]
    exact keeps_admitStep (admitGang_step e pg.reservedQueue pg.key _)
  · rw [he]
    exact Keeps.refl e

lemma Keeps.released {e e' : Engine V} (h : Keeps e e') (key : String) : Keeps e { e' with
    tree := e'.tree.map fun t => t.releaseGang key
    gangBook := e'.gangBook.erase key } := by
  refine ⟨?_, fun k l hk => ?_⟩
  · rw [← h.queues]
    simp [Function.comp_def]
  · by_cases hkey : k = key
    · subst hkey
      simp [Engine.gangLeaf]
    · simpa [Engine.gangLeaf, hkey] using h.leaf k l hk

lemma keeps_releaseGang (e : Engine V) (key : String) : Keeps e (e.releaseGang key) := by
  unfold Engine.releaseGang
  split_ifs
  · exact (Keeps.refl e).released key
  · exact Keeps.refl e

lemma keeps_gcGangs (e : Engine V) (live : Finset String) (order : List String) :
    Keeps e (e.gcGangs live order).1 :=
  gcGangs_invariant (I := Keeps e) (Keeps.refl e) (fun _ key h => h.released key) live order

lemma keeps_step (c : Coordinator V) (call : MemberCall V) (now : ℤ) :
    Keeps c.engine (call.step c now).1.engine := by
  rcases step_coord c call now with hsame | ⟨info, leaf, _, hadmission⟩
  · rw [hsame]
    exact Keeps.refl _
  · rw [hadmission]
    exact keeps_admitStep (admitGangWW_step _ _ _ _ _ _)

lemma keeps_next (s : State V) (step : Step V) :
    Keeps s.coord.engine (next s step).coord.engine := by
  cases step with
  | preEnqueue | upsert | unregister | store => exact Keeps.refl _
  | proceed i now =>
    simp only [next, proceed]
    cases hi : s.calls[i]? with
    | none => exact Keeps.refl _
    | some call => exact keeps_step s.coord call now
  | recoverGang pg =>
    cases ht : s.coord.engine.tree with
    | none =>
      simp only [next, ht]
      exact Keeps.refl _
    | some t =>
      simp only [next, ht]
      exact keeps_recoverGang t _ pg
  | releaseGang key => exact keeps_releaseGang _ _
  | gcGangs live order => exact keeps_gcGangs _ _ _

end Fixed

lemma resolveLeaf_congr {c c' : Coordinator V}
    (h : c'.engine.tree.map QueueManager.index = c.engine.tree.map QueueManager.index)
    (pod : Pod V) (queue : String) :
    Gang.resolveLeaf c' pod queue = Gang.resolveLeaf c pod queue := by
  unfold Gang.resolveLeaf
  cases ht : c.engine.tree with
  | none =>
    have hnone : c'.engine.tree = none := by simpa [ht] using h
    rw [hnone]
  | some t =>
    rw [ht] at h
    obtain ⟨t', ht', hix⟩ := Option.map_eq_some_iff.mp h
    simp only [ht', hix, resolve_congr hix]

/-- The leaf of a call is the one that its pod resolves to. -/
def Resolved (c : Coordinator V) (call : MemberCall V) : Prop :=
  match call.stage with
  | .unregistered | .registered _ => True
  | .routed info leaf | .unbound info leaf => Gang.resolveLeaf c call.pod info.queue = .ok leaf

lemma resolved_congr {c c' : Coordinator V}
    (h : c'.engine.tree.map QueueManager.index = c.engine.tree.map QueueManager.index)
    {call : MemberCall V} (hcall : Resolved c call) : Resolved c' call := by
  unfold Resolved at hcall ⊢
  cases hstage : call.stage with
  | unregistered | registered => trivial
  | routed info leaf | unbound info leaf =>
    rw [hstage] at hcall
    dsimp only at hcall ⊢
    rw [resolveLeaf_congr h]
    exact hcall

lemma resolved_readRegistry {c : Coordinator V} {pod : Pod V} {key name : String} {stage : Stage V}
    (h : readRegistry c pod key name = .goesOn stage) : Resolved c ⟨pod, key, stage⟩ := by
  unfold readRegistry at h
  split at h
  · cases h
    trivial
  · split_ifs at h
    cases h
    trivial

lemma resolved_step {c : Coordinator V} {call : MemberCall V} {now : ℤ} {stage : Stage V}
    (hcall : Resolved c call) (h : (call.step c now).2 = .goesOn stage) :
    Resolved c { call with stage := stage } := by
  unfold MemberCall.step at h
  unfold Resolved at hcall
  cases hstage : call.stage with
  | unregistered | unbound =>
    rw [hstage] at h
    cases h
  | registered info =>
    rw [hstage] at h
    dsimp only at h
    cases hleaf : Gang.resolveLeaf c call.pod info.queue with
    | error status => simp [hleaf] at h
    | ok leaf =>
      simp only [hleaf, Outcome.goesOn.injEq] at h
      rw [← h]
      exact hleaf
  | routed info leaf =>
    rw [hstage] at h hcall
    dsimp only at h
    cases hbound : c.engine.gangLeaf call.key with
    | some bound => simp [hbound] at h
    | none =>
      simp only [hbound, Outcome.goesOn.injEq] at h
      rw [← h]
      exact hcall

lemma resolved_next {s : State V} (h : ∀ call ∈ s.calls, Resolved s.coord call) (step : Step V) :
    ∀ call ∈ (next s step).calls, Resolved (next s step).coord call := by
  intro call hcall
  refine resolved_congr (keeps_next s step).queues ?_
  cases step with
  | preEnqueue pod =>
    rcases mem_enter hcall with hold | ⟨name, rfl, _, hread⟩
    · exact h call hold
    · exact resolved_readRegistry hread
  | proceed i now =>
    rcases mem_proceed hcall with hold | ⟨old, hold, hstep, he⟩
    · exact h call hold
    · rw [he]
      exact resolved_step (h old hold) hstep
  | recoverGang pg =>
    have hcalls : (next s (.recoverGang pg)).calls = s.calls := by
      simp only [next]
      split <;> rfl
    rw [hcalls] at hcall
    exact h call hcall
  | upsert | unregister | store | releaseGang | gcGangs => exact h call hcall

lemma oneLeaf_proceed_iff {s : State V} (h : ∀ call ∈ s.calls, Resolved s.coord call) (i : ℕ)
    (now : ℤ) : OneLeaf s (.proceed i now) ↔ Gated s (.proceed i now) := by
  refine forall₂_congr fun call hi => ?_
  have hres := h call (List.mem_of_getElem? hi)
  unfold Resolved at hres
  unfold MemberCall.step memberLeaf
  cases hstage : call.stage with
  | unregistered =>
    dsimp only
    constructor
    · intro hone _ leaf hleaf
      obtain ⟨gb, hgb, -⟩ := Option.map_eq_some_iff.mp hleaf
      have hin : s.coord.engine.isGangAdmitted call.key = true :=
        decide_eq_true (Finmap.mem_of_lookup_eq_some hgb)
      exact hone (by rw [if_pos hin]) leaf hleaf
    · exact fun hgate _ => hgate rfl
  | registered info =>
    refine iff_of_true (fun hdone => ?_) nofun
    dsimp only at hdone
    split at hdone <;> simp at hdone
  | routed info leaf =>
    refine iff_of_true (fun hdone leaf' hleaf' => ?_) nofun
    rw [hstage] at hres
    dsimp only at hdone hleaf' ⊢
    simp only [hleaf', Outcome.done.injEq] at hdone
    split_ifs at hdone with hne
    exact hres.trans (by rw [not_not.mp hne])
  | unbound info leaf =>
    refine iff_of_true (fun hdone leaf' hleaf' => ?_) nofun
    rw [hstage] at hres
    dsimp only at hdone hleaf' ⊢
    have hok : (admission s.coord.engine call info leaf now).2 = .ok true := by
      revert hdone
      cases (admission s.coord.engine call info leaf now).2 with
      | error err => simp
      | ok admitted => cases admitted <;> simp
    have hbound : (admission s.coord.engine call info leaf now).1.gangLeaf call.key = some leaf :=
      admitGangWW_gangLeaf hok
    rw [hbound, Option.some.injEq] at hleaf'
    rw [← hleaf']
    exact hres

lemma oneLeaf_iff {s : State V} (h : ∀ call ∈ s.calls, Resolved s.coord call) (step : Step V) :
    OneLeaf s step ↔ Gated s step := by
  cases step with
  | preEnqueue pod =>
    refine forall₃_congr fun key name hkey => ?_
    rw [readRegistry_ok_iff hkey]
  | proceed i now => exact oneLeaf_proceed_iff h i now
  | upsert | unregister | store | recoverGang | releaseGang | gcGangs => exact Iff.rfl

/-- After any interleaving of the sections, the members that a step lets through are on the leaf
of their gang exactly if those that are not checked against it belong there; and a gang changes
its leaf only by being released. -/
theorem one_leaf_per_gang_iff {c : Coordinator V} {steps : List (Step V)} {s : State V}
    (h : Run gangCalls ⟨c, []⟩ steps s) (step : Step V) :
    (OneLeaf s step ↔ Gated s step) ∧
    ∀ key leaf, s.coord.engine.gangLeaf key = some leaf →
      (next s step).coord.engine.gangLeaf key = some leaf ∨
      (next s step).coord.engine.gangLeaf key = none := by
  have hres : ∀ call ∈ s.calls, Resolved s.coord call :=
    h.invariant (I := fun s : State V => ∀ call ∈ s.calls, Resolved s.coord call)
      (fun call hcall => by cases hcall) fun _ a hi _ => resolved_next hi a
  exact ⟨oneLeaf_iff hres step, (keeps_next s step).leaf⟩

def twoLeafTenant : Spec ℤ :=
  bareSpec rootName ∅ [bareSpec "team" ∅
    [{ bareSpec "a" (Finmap.singleton "cpu" 10) [] with serviceAccounts := ["alice"] },
      { bareSpec "b" (Finmap.singleton "cpu" 10) [] with serviceAccounts := ["bob"] }]]

def heldGroup : PodGroup ℤ where
  ns := "team"
  name := "gang"
  creationTimestamp := 0
  minMember := 2
  minResources := Finmap.singleton "cpu" ⟨0, 2⟩
  queue := ""
  scheduleTimeoutSeconds := none
  membersReadyTimeoutSeconds := none
  phase := .scheduling
  admitted := true
  reservedResources := Finmap.singleton "cpu" ⟨0, 2⟩
  reservedQueue := "root.team.a"

def unregistered : State ℤ :=
  ⟨{ newCoordinator (engineOn 60 (treeOf twoLeafTenant (by decide +kernel))) with
      podGroups := [heldGroup] }, []⟩

def memberOf (serviceAccount : String) : Pod ℤ :=
  { barePod serviceAccount "team" serviceAccount 1 with
    annotations := Finmap.singleton podGroupAnnotation "gang" }

lemma legal_gangCalls (s : State ℤ) (steps : List (Step ℤ)) : gangCalls.Legal s steps := by
  induction steps generalizing s with
  | nil => trivial
  | cons step steps ih => exact ⟨trivial, ih _⟩

lemma not_oneLeaf_proceed {s : State ℤ} (call : MemberCall ℤ) {leaf leaf' : String}
    (hcall : s.calls[0]? = some call) (hstage : call.stage = .unregistered)
    (hheld : s.coord.engine.gangLeaf call.key = some leaf)
    (hown : Gang.resolveLeaf s.coord call.pod (declaredQueue s.coord call.key) = .ok leaf')
    (hne : leaf' ≠ leaf) : ¬ OneLeaf s (.proceed 0 0) := by
  intro hone
  obtain ⟨gb, hgb, -⟩ := Option.map_eq_some_iff.mp hheld
  have hin : s.coord.engine.isGangAdmitted call.key = true :=
    decide_eq_true (Finmap.mem_of_lookup_eq_some hgb)
  have hleaf := hone call hcall (by simp [MemberCall.step, hstage, hin]) leaf
    (by simpa [MemberCall.step, hstage] using hheld)
  simp only [memberLeaf, hstage, Stage.info?, Option.elim_none, hown, Except.ok.injEq] at hleaf
  exact hne hleaf

/-- A member for the other leaf passes while the gang is restored and not yet registered; after
the group has stopped to ask for a reservation; and if the group is registered and admitted
after the call of the member has missed it in the registry. -/
theorem stray_member_passes :
    let bob := memberOf "bob"
    let restored : List (Step ℤ) := [.recoverGang heldGroup, .preEnqueue bob]
    let dropped : List (Step ℤ) := [.upsert heldGroup, .preEnqueue (memberOf "alice"),
      .proceed 0 0, .proceed 0 0, .proceed 0 0, .upsert { heldGroup with minResources := ∅ }]
    let overtaken : List (Step ℤ) := [.preEnqueue bob, .upsert heldGroup,
      .preEnqueue (memberOf "alice"), .proceed 1 0, .proceed 1 0, .proceed 1 0]
    (∃ s, Run gangCalls unregistered restored s ∧ ¬ OneLeaf s (.proceed 0 0)) ∧
    (∃ s, Run gangCalls unregistered dropped s ∧ ¬ OneLeaf s (.preEnqueue bob)) ∧
    ∃ s, Run gangCalls unregistered overtaken s ∧ ¬ OneLeaf s (.proceed 0 0) := by
  intro bob restored dropped overtaken
  have hkey : bob.gangKey = some ("team/gang", "gang") := by decide +kernel
  have hne : "root.team.b" ≠ "root.team.a" := by decide
  refine ⟨⟨_, (legal_gangCalls _ restored).run, ?_⟩, ⟨_, (legal_gangCalls _ dropped).run, ?_⟩,
    ⟨_, (legal_gangCalls _ overtaken).run, ?_⟩⟩
  · exact not_oneLeaf_proceed ⟨bob, "team/gang", .unregistered⟩ rfl rfl
      (by decide +kernel) (by decide +kernel) hne
  · intro hone
    have hleaf := hone _ _ hkey ((readRegistry_ok_iff hkey).mpr (by decide +kernel)) "root.team.a"
      (by decide +kernel)
    exact absurd hleaf (by decide +kernel)
  · exact not_oneLeaf_proceed ⟨bob, "team/gang", .unregistered⟩ rfl rfl
      (by decide +kernel) (by decide +kernel) hne

theorem registered_members_on_gang_leaf :
    let steps : List (Step ℤ) := [.recoverGang heldGroup, .upsert heldGroup,
      .preEnqueue (memberOf "alice"), .preEnqueue (memberOf "bob"), .proceed 0 0, .proceed 1 0]
    let s := steps.foldl next unregistered
    Run gangCalls unregistered steps s ∧
      s.coord.engine.gangLeaf "team/gang" = some "root.team.a" ∧ s.calls.length = 2 ∧
      ∀ i, OneLeaf s (.proceed i 0) := by
  intro steps s
  have hrun : Run gangCalls unregistered steps s := (legal_gangCalls _ steps).run
  have hread : ∀ call ∈ s.calls, call.stage.info?.isSome = true := by decide +kernel
  refine ⟨hrun, by decide +kernel, by decide +kernel, fun i => ?_⟩
  refine (one_leaf_per_gang_iff hrun (.proceed i 0)).1.mpr fun call hcall hstage => ?_
  have hmissed := hread call (List.mem_of_getElem? hcall)
  rw [hstage] at hmissed
  cases hmissed

end AdScheduler.GangLeaves
