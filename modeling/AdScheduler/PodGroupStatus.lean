import AdScheduler.Plugins

/-! The status controller of the pod groups, after `pkg/framework/gangstatus.go` and
`pkg/controller/podgroup/phase.go`: what a reconcile tick writes to the objects, and the
timeouts of the admitted gangs. A patch is a value here, since it may reach the API server
late or not at all. `time.Now` is an argument; events and logs are left out. -/
namespace AdScheduler.PodGroupStatus
open KeyedMap Resources Manager Conservation EngineCore Runs Requests CoordinatorCore Plugins

section Counts
variable {V : Type*}

/-- The pods of the store that carry the group's name and pass the test. -/
def countMembers (counts : Pod V → Bool) (pods : List (Pod V)) (ns name : String) : ℕ :=
  pods.countP fun p =>
    decide (p.ns = ns) && counts p && decide (textAt p.annotations podGroupAnnotation = name)

def boundGangMembers : List (Pod V) → String → String → ℕ :=
  countMembers fun p => decide (p.nodeName ≠ "")

/-- Members that exist as pods; one that is being deleted no longer counts. -/
def createdGangMembers : List (Pod V) → String → String → ℕ :=
  countMembers fun p => decide (p.deletionTimestamp = none)

def succeededGangMembers : List (Pod V) → String → String → ℕ :=
  countMembers fun p => decide (p.phase = .succeeded)

end Counts

/-- The namespace and the name in a gang key, cut at the first slash. -/
def splitGangKey (key : String) : String × String :=
  let cut := key.toList.span (fun c => decide (c ≠ '/'))
  match cut.2 with
  | [] => ("", key)
  | _ :: name => (String.ofList cut.1, String.ofList name)

lemma splitGangKey_key {ns : String} (h : '/' ∉ ns.toList) (name : String) :
    splitGangKey (ns ++ "/" ++ name) = (ns, name) := by
  have hns : ∀ c ∈ ns.toList, decide (c ≠ '/') = true := by
    intro c hc
    have hne : c ≠ '/' := by
      rintro rfl
      exact h hc
    simpa using hne
  have hchars : (ns ++ "/" ++ name).toList = ns.toList ++ '/' :: name.toList := by simp
  have hcut : (ns ++ "/" ++ name).toList.span (fun c => decide (c ≠ '/')) =
      (ns.toList, '/' :: name.toList) := by
    rw [hchars, List.span_eq_takeWhile_dropWhile, List.takeWhile_append_of_pos hns,
      List.dropWhile_append_of_pos hns]
    simp
  simp only [splitGangKey, hcut, String.ofList_toList]

/-- Whether an admitted gang has given up, and why. The deadline for the members to exist
is not checked when it is zero. -/
def gangTimeoutVerdict (elapsed membersReadyTO scheduleTO created bound minMember : ℤ) :
    Option String :=
  if 0 < membersReadyTO ∧ membersReadyTO ≤ elapsed ∧ created < minMember then
    some "members not materialized within membersReadyTimeoutSeconds"
  else if scheduleTO ≤ elapsed ∧ bound < minMember then
    some "members not assembled within scheduleTimeoutSeconds"
  else none

/-- The live state of a gang that its phase is computed from. -/
structure Observed where
  admitted : Bool
  bound : ℤ
  succeeded : ℤ
  minMember : ℤ
  failed : Bool

def Observed.phase (o : Observed) : PodGroupPhase :=
  if o.failed then .failed
  else if 0 < o.minMember ∧ o.minMember ≤ o.succeeded then .completed
  else if 0 < o.minMember ∧ o.minMember ≤ o.bound then .running
  else if o.admitted then .scheduling
  else .pending

/-- The member counts in the status of a pod group. -/
structure Tally where
  scheduled : ℤ
  succeeded : ℤ
  deriving DecidableEq

inductive StatusChange (V : Type*)
  | reservation (res : Option (GangBooking V))
  | failed
  | phase (phase : PodGroupPhase) (tally : Tally)

structure Patch (V : Type*) where
  ns : String
  name : String
  change : StatusChange V

def Patch.key {V : Type*} (p : Patch V) : String := p.ns ++ "/" ++ p.name

/-- The coordinator with the fields that only the reconcile loop uses: the clock of each
admitted gang, and the counts in the objects that the informer of the pod groups holds. -/
structure Reconciler (V : Type*) [CommRing V] [LinearOrder V] where
  coord : Coordinator V
  gangAdmittedAt : Map String ℤ
  tallies : Map String Tally

structure Candidate where
  key : String
  minMember : ℤ
  elapsed : ℤ
  membersReadyTO : ℤ
  scheduleTO : ℤ

variable {V : Type*} [CommRing V] [LinearOrder V]

/-- How many members are placed, and how many the gang needs. -/
def gangProgress (c : Coordinator V) (ns name : String) : Option (ℕ × ℤ) :=
  (c.gangInfo ns name).map fun info => (boundGangMembers c.pods ns name, info.minMember)

def zeroInfo : GangInfo V := ⟨0, ∅, "", 0, 0, false, 0⟩

/-- An admitted gang keeps its clock or gets one; every other clock is dropped. -/
def stampAdmissions (admitted : Map String (GangBooking V)) (clocks : Map String ℤ) (now : ℤ) :
    Map String ℤ :=
  tabulate admitted.keys fun key => (clocks.lookup key).getD now

/-- The write for one pod group, unless its status already names the leaf. -/
def gangPatch (admitted : Map String (GangBooking V)) (pg : PodGroup V) : Option (Patch V) :=
  match admitted.lookup pg.key with
  | none => if pg.admitted = false then none else some ⟨pg.ns, pg.name, .reservation none⟩
  | some res =>
    if pg.admitted = true ∧ pg.reservedQueue = res.leaf then none
    else some ⟨pg.ns, pg.name, .reservation (some res)⟩

namespace Reconciler

/-- Start the clocks and write the ledger to the objects. -/
def syncGangStatuses (r : Reconciler V) (now : ℤ) : Reconciler V × List (Patch V) :=
  let admitted := r.coord.engine.gangBook
  ({ r with gangAdmittedAt := stampAdmissions admitted r.gangAdmittedAt now },
    r.coord.podGroups.filterMap (gangPatch admitted))

/-- The registered spec of a gang, as `checkGangTimeouts` reads it. -/
def infoOf (r : Reconciler V) (key : String) : GangInfo V :=
  (r.coord.gangs.lookup key).getD zeroInfo

def scheduleTO (r : Reconciler V) (key : String) : ℤ :=
  if 0 < (r.infoOf key).timeoutSecs then (r.infoOf key).timeoutSecs * second
  else r.coord.engine.gangScheduleTimeout

def membersReadyTO (r : Reconciler V) (key : String) : ℤ :=
  (r.infoOf key).membersReadyTimeoutSecs * second

def candidate (r : Reconciler V) (now : ℤ) (key : String) : Option Candidate :=
  match r.gangAdmittedAt.lookup key with
  | none => none
  | some stamp =>
    if (r.infoOf key).failed then none
    else if now - stamp < r.scheduleTO key ∧
        (r.membersReadyTO key = 0 ∨ now - stamp < r.membersReadyTO key) then none
    else some ⟨key, (r.infoOf key).minMember, now - stamp, r.membersReadyTO key, r.scheduleTO key⟩

/-- Latch the failure, stop the clock and release the reservation. -/
def failGang (r : Reconciler V) (key : String) : Reconciler V :=
  { r with
    coord := { r.coord with
      gangs := match r.coord.gangs.lookup key with
        | none => r.coord.gangs
        | some info => r.coord.gangs.insert key { info with failed := true }
      engine := r.coord.engine.releaseGang key }
    gangAdmittedAt := r.gangAdmittedAt.erase key }

end Reconciler

/-- The verdict on a candidate by the member counts of the store. -/
def Candidate.verdict (t : Candidate) (pods : List (Pod V)) : Option String :=
  gangTimeoutVerdict t.elapsed t.membersReadyTO t.scheduleTO
    (createdGangMembers pods (splitGangKey t.key).1 (splitGangKey t.key).2)
    (boundGangMembers pods (splitGangKey t.key).1 (splitGangKey t.key).2) t.minMember

namespace Reconciler

def giveUp (acc : Reconciler V × List (Patch V)) (t : Candidate) : Reconciler V × List (Patch V) :=
  match t.verdict acc.1.coord.pods with
  | none => acc
  | some _ =>
    (acc.1.failGang t.key,
      acc.2 ++ [⟨(splitGangKey t.key).1, (splitGangKey t.key).2, .failed⟩])

/-- Fail the admitted gangs that are past a deadline without enough members. The
candidates are collected before the first of them is judged. -/
def checkGangTimeouts (r : Reconciler V) (now : ℤ) (order : List String) :
    Reconciler V × List (Patch V) :=
  ((entries order r.coord.engine.gangBook).filterMap fun entry => r.candidate now entry.1).foldl
    giveUp (r, [])

def observe (r : Reconciler V) (pg : PodGroup V) (info : GangInfo V) : Observed where
  admitted := r.coord.engine.isGangAdmitted pg.key
  bound := boundGangMembers r.coord.pods pg.ns pg.name
  succeeded := succeededGangMembers r.coord.pods pg.ns pg.name
  minMember := info.minMember
  failed := info.failed

/-- The write for one pod group, unless its status already shows phase and counts. -/
def phasePatch (r : Reconciler V) (pg : PodGroup V) : Option (Patch V) :=
  match r.coord.gangs.lookup pg.key with
  | none => none
  | some info =>
    if pg.phase = .failed then none
    else
      let o := r.observe pg info
      let tally : Tally := ⟨o.bound, o.succeeded⟩
      if pg.phase = o.phase ∧ (r.tallies.lookup pg.key).getD ⟨0, 0⟩ = tally then none
      else some ⟨pg.ns, pg.name, .phase o.phase tally⟩

def syncPodGroupPhases (r : Reconciler V) : List (Patch V) :=
  r.coord.podGroups.filterMap r.phasePatch

/-- The part of a reconcile tick that concerns gangs. The other syncs of the tick write to
the API only. -/
def tick (r : Reconciler V) (now : ℤ) (order : List String) : Reconciler V × List (Patch V) :=
  let synced := r.syncGangStatuses now
  let checked := synced.1.checkGangTimeouts now order
  (checked.1, synced.2 ++ checked.2 ++ checked.1.syncPodGroupPhases)

end Reconciler

/-- The gang is admitted, past a deadline, and has too few members. -/
def Reconciler.timesOut (r : Reconciler V) (now : ℤ) (key : String) : Bool :=
  decide (key ∈ r.coord.engine.gangBook) &&
    (r.candidate now key).any fun t => (t.verdict r.coord.pods).isSome

/-- All that the timeout check changes, given the gangs it fails. -/
structure GivenUp (r r' : Reconciler V) (dead : String → Bool) : Prop where
  ledger : ∀ key, r'.coord.engine.gangBook.lookup key =
    if dead key then none else r.coord.engine.gangBook.lookup key
  registry : ∀ key, r'.coord.gangs.lookup key =
    if dead key then (r.coord.gangs.lookup key).map fun info => { info with failed := true }
    else r.coord.gangs.lookup key
  clocks : ∀ key, r'.gangAdmittedAt.lookup key =
    if dead key then none else r.gangAdmittedAt.lookup key
  tree : ∀ t', r'.coord.engine.tree = some t' → ∃ t, r.coord.engine.tree = some t ∧
    ∀ key, t'.gangs.lookup key =
      if dead key ∧ key ∈ r.coord.engine.gangBook then none else t.gangs.lookup key
  rest : r' = { r with
    coord := { r.coord with engine := r'.coord.engine, gangs := r'.coord.gangs }
    gangAdmittedAt := r'.gangAdmittedAt }

section GivenUp
variable {r r' r'' : Reconciler V}

lemma GivenUp.refl (r : Reconciler V) : GivenUp r r fun _ => false :=
  ⟨by simp, by simp, by simp, fun t ht => ⟨t, ht, by simp⟩, rfl⟩

lemma GivenUp.mem_ledger {dead : String → Bool} (h : GivenUp r r' dead) (key : String) :
    key ∈ r'.coord.engine.gangBook ↔ dead key = false ∧ key ∈ r.coord.engine.gangBook := by
  rw [Finmap.mem_iff, Finmap.mem_iff, h.ledger]
  cases dead key <;> simp

lemma GivenUp.trans {dead dead' : String → Bool} (h : GivenUp r r' dead)
    (h' : GivenUp r' r'' dead') : GivenUp r r'' fun key => dead key || dead' key := by
  refine ⟨fun key => ?_, fun key => ?_, fun key => ?_, fun t'' ht'' => ?_, ?_⟩
  · rw [h'.ledger, h.ledger]
    cases dead key <;> cases dead' key <;> simp
  · rw [h'.registry, h.registry]
    cases dead key <;> cases dead' key <;> simp [Function.comp_def]
  · rw [h'.clocks, h.clocks]
    cases dead key <;> cases dead' key <;> simp
  · obtain ⟨t', ht', hgangs'⟩ := h'.tree t'' ht''
    obtain ⟨t, ht, hgangs⟩ := h.tree t' ht'
    refine ⟨t, ht, fun key => ?_⟩
    rw [hgangs', hgangs]
    simp only [h.mem_ledger]
    cases dead key <;> cases dead' key <;> simp
  · rw [h'.rest, h.rest]

lemma releaseGang_gangBook (e : Engine V) (key j : String) :
    (e.releaseGang key).gangBook.lookup j = if j = key then none else e.gangBook.lookup j := by
  unfold Engine.releaseGang
  split_ifs with hin hj hj
  · rw [hj]
    exact Finmap.lookup_erase _ _
  · exact Finmap.lookup_erase_ne hj
  · rw [hj]
    exact Finmap.lookup_eq_none.mpr hin
  · rfl

lemma releaseGang_tree {e : Engine V} {key : String} {t' : QueueManager V}
    (h : (e.releaseGang key).tree = some t') : ∃ t, e.tree = some t ∧
      ∀ j, t'.gangs.lookup j = if j = key ∧ j ∈ e.gangBook then none else t.gangs.lookup j := by
  unfold Engine.releaseGang at h
  split_ifs at h with hin
  · obtain ⟨t, ht, rfl⟩ := Option.map_eq_some_iff.mp h
    refine ⟨t, ht, fun j => ?_⟩
    rw [releaseGang_gangs, lookup_erase_ite]
    by_cases hj : j = key
    · subst hj
      simp [hin]
    · simp [hj]
  · refine ⟨t', h, fun j => ?_⟩
    rw [if_neg]
    rintro ⟨rfl, hj⟩
    exact hin hj

lemma givenUp_failGang (r : Reconciler V) (key : String) :
    GivenUp r (r.failGang key) fun j => decide (j = key) := by
  refine ⟨fun j => ?_, fun j => ?_, fun j => ?_, fun t' ht' => ?_, rfl⟩
  · simp [Reconciler.failGang, releaseGang_gangBook]
  · cases hinfo : r.coord.gangs.lookup key with
    | none =>
      by_cases hj : j = key
      · subst hj
        simp [Reconciler.failGang, hinfo]
      · simp [Reconciler.failGang, hinfo, hj]
    | some info =>
      by_cases hj : j = key
      · subst hj
        simp [Reconciler.failGang, hinfo]
      · simp [Reconciler.failGang, hinfo, hj, Finmap.lookup_insert_of_ne]
  · simp [Reconciler.failGang, lookup_erase_ite]
  · simpa using releaseGang_tree ht'

lemma GivenUp.pods {dead : String → Bool} (h : GivenUp r r' dead) :
    r'.coord.pods = r.coord.pods := by
  rw [h.rest]

lemma givenUp_loop (cands : List Candidate) (r : Reconciler V) (patches : List (Patch V)) :
    GivenUp r (cands.foldl Reconciler.giveUp (r, patches)).1 fun key =>
      cands.any fun t => decide (t.key = key) && (t.verdict r.coord.pods).isSome := by
  induction cands generalizing r patches with
  | nil => exact GivenUp.refl r
  | cons t cands ih =>
    rw [List.foldl_cons, Reconciler.giveUp]
    dsimp only
    cases hv : t.verdict r.coord.pods with
    | none => simpa [hv] using ih r patches
    | some reason =>
      have hfail := givenUp_failGang r t.key
      have hrest := fun ps => hfail.trans (ih (r.failGang t.key) ps)
      simp only [hfail.pods] at hrest
      simpa [hv, eq_comm] using hrest _

lemma giveUp_patches (cands : List Candidate) (r : Reconciler V) (patches : List (Patch V)) :
    (cands.foldl Reconciler.giveUp (r, patches)).2 =
      patches ++ (cands.filter fun t => (t.verdict r.coord.pods).isSome).map fun t =>
        ⟨(splitGangKey t.key).1, (splitGangKey t.key).2, .failed⟩ := by
  induction cands generalizing r patches with
  | nil => simp
  | cons t cands ih =>
    rw [List.foldl_cons, Reconciler.giveUp]
    dsimp only
    cases hv : t.verdict r.coord.pods with
    | none => simp [ih, hv]
    | some reason => simp [ih, hv, (givenUp_failGang r t.key).pods]

lemma candidate_key {now : ℤ} {key : String} {t : Candidate} (h : r.candidate now key = some t) :
    t.key = key := by
  unfold Reconciler.candidate at h
  split at h
  · cases h
  · split_ifs at h
    cases h
    rfl

lemma checkGangTimeouts_givenUp (r : Reconciler V) (now : ℤ) {order : List String}
    (ho : Visits order r.coord.engine.gangBook) :
    GivenUp r (r.checkGangTimeouts now order).1 (r.timesOut now) := by
  have hdead : r.timesOut now = fun key => ((entries order r.coord.engine.gangBook).filterMap
      fun entry => r.candidate now entry.1).any fun t =>
        decide (t.key = key) && (t.verdict r.coord.pods).isSome := by
    funext key
    rw [Bool.eq_iff_iff]
    simp only [Reconciler.timesOut, Bool.and_eq_true, decide_eq_true_eq, Option.any_eq_true,
      List.any_eq_true, List.mem_filterMap]
    constructor
    · rintro ⟨hin, t, ht, hv⟩
      obtain ⟨gb, hgb⟩ := Finmap.mem_iff.mp hin
      exact ⟨t, ⟨(key, gb), (mem_entries_iff ho).mpr hgb, ht⟩, candidate_key ht, hv⟩
    · rintro ⟨t, ⟨⟨j, gb⟩, hj, ht⟩, hkey, hv⟩
      obtain rfl : j = key := (candidate_key ht).symm.trans hkey
      exact ⟨Finmap.mem_of_lookup_eq_some (lookup_of_mem_entries hj), t, ht, hv⟩
  rw [hdead]
  exact givenUp_loop _ r []

lemma mem_checkGangTimeouts_patches (r : Reconciler V) (now : ℤ) {order : List String}
    (ho : Visits order r.coord.engine.gangBook) (p : Patch V) :
    p ∈ (r.checkGangTimeouts now order).2 ↔ ∃ key, r.timesOut now key = true ∧
      p = ⟨(splitGangKey key).1, (splitGangKey key).2, .failed⟩ := by
  rw [Reconciler.checkGangTimeouts, giveUp_patches, List.nil_append, List.mem_map]
  simp only [List.mem_filter, List.mem_filterMap, Reconciler.timesOut, Bool.and_eq_true,
    decide_eq_true_eq, Option.any_eq_true]
  constructor
  · rintro ⟨t, ⟨⟨⟨key, gb⟩, hkey, ht⟩, hv⟩, rfl⟩
    refine ⟨key, ⟨Finmap.mem_of_lookup_eq_some (lookup_of_mem_entries hkey), t, ht, hv⟩, ?_⟩
    rw [candidate_key ht]
  · rintro ⟨key, ⟨hin, t, ht, hv⟩, rfl⟩
    obtain ⟨gb, hgb⟩ := Finmap.mem_iff.mp hin
    refine ⟨t, ⟨⟨(key, gb), (mem_entries_iff ho).mpr hgb, ht⟩, hv⟩, ?_⟩
    rw [candidate_key ht]

end GivenUp

/-- The clock of the gang has run past a deadline, and too few members count for it. -/
def Reconciler.Expired (r : Reconciler V) (key : String) (elapsed : ℤ) : Prop :=
  (0 < r.membersReadyTO key ∧ r.membersReadyTO key ≤ elapsed ∧
    (createdGangMembers r.coord.pods (splitGangKey key).1 (splitGangKey key).2 : ℤ) <
      (r.infoOf key).minMember) ∨
  (r.scheduleTO key ≤ elapsed ∧
    (boundGangMembers r.coord.pods (splitGangKey key).1 (splitGangKey key).2 : ℤ) <
      (r.infoOf key).minMember)

instance (r : Reconciler V) (key : String) (elapsed : ℤ) : Decidable (r.Expired key elapsed) := by
  unfold Reconciler.Expired; infer_instance

lemma gangTimeoutVerdict_isSome (elapsed membersReadyTO scheduleTO created bound minMember : ℤ) :
    (gangTimeoutVerdict elapsed membersReadyTO scheduleTO created bound minMember).isSome = true ↔
      (0 < membersReadyTO ∧ membersReadyTO ≤ elapsed ∧ created < minMember) ∨
        (scheduleTO ≤ elapsed ∧ bound < minMember) := by
  unfold gangTimeoutVerdict
  split_ifs with h h'
  · simp [h]
  · simp [h']
  · simp only [Option.isSome_none, Bool.false_eq_true, false_iff]
    exact not_or.mpr ⟨h, h'⟩

lemma timesOut_iff (r : Reconciler V) (now : ℤ) (key : String) :
    r.timesOut now key = true ↔ key ∈ r.coord.engine.gangBook ∧
      ∃ stamp, r.gangAdmittedAt.lookup key = some stamp ∧ (r.infoOf key).failed = false ∧
        r.Expired key (now - stamp) := by
  unfold Reconciler.timesOut Reconciler.candidate
  rw [Bool.and_eq_true, decide_eq_true_eq]
  cases r.gangAdmittedAt.lookup key with
  | none => simp
  | some stamp =>
    have hverdict : ∀ t : Candidate, t = ⟨key, (r.infoOf key).minMember, now - stamp,
        r.membersReadyTO key, r.scheduleTO key⟩ →
        ((t.verdict r.coord.pods).isSome = true ↔ r.Expired key (now - stamp)) := by
      rintro t rfl
      exact gangTimeoutVerdict_isSome _ _ _ _ _ _
    dsimp only
    split_ifs with hfailed hearly
    · simp [hfailed]
    · have hnot : ¬ r.Expired key (now - stamp) := by
        rintro (⟨hset, hpast, _⟩ | ⟨hpast, _⟩)
        · omega
        · omega
      simp [hnot]
    · simp only [Option.any_some, hverdict _ rfl, Option.some.injEq, exists_eq_left', hfailed]
      simp

lemma reaches_checkGangTimeouts (r : Reconciler V) (now : ℤ) (order : List String) :
    machine.Reaches r.coord.engine (r.checkGangTimeouts now order).1.coord.engine := by
  refine List.foldlRecOn
    (motive := fun acc : Reconciler V × List (Patch V) =>
      machine.Reaches r.coord.engine acc.1.coord.engine) _ _ (.refl _ _) fun acc hacc t _ => ?_
  rw [Reconciler.giveUp]
  split
  · exact hacc
  · exact hacc.trans (.step (a := Call.releaseGang t.key) trivial)

structure Stored (V : Type*) where
  group : PodGroup V
  tally : Tally

/-- The store of the informer without the object of that key. -/
def dropGroup (groups : List (PodGroup V)) (key : String) : List (PodGroup V) :=
  groups.filter fun pg => decide (pg.key ≠ key)

/-- The informer of the pod groups has a version of an object: its store takes it, and the
handler runs. -/
def Reconciler.deliver (r : Reconciler V) (o : Stored V) : Reconciler V :=
  let store := dropGroup r.coord.podGroups o.group.key ++ [o.group]
  { r with
    coord := Coordinator.onPodGroupUpsert { r.coord with podGroups := store } o.group
    tallies := r.tallies.insert o.group.key o.tally }

def Reconciler.remove (r : Reconciler V) (pg : PodGroup V) : Reconciler V :=
  let store := dropGroup r.coord.podGroups pg.key
  { r with
    coord := Coordinator.onPodGroupDelete { r.coord with podGroups := store } pg
    tallies := r.tallies.erase pg.key }

/-- A merge patch of the status. It replaces fields, but of a map it replaces the keys that
it names and leaves the others. -/
def StatusChange.apply (o : Stored ℤ) : StatusChange ℤ → Stored ℤ
  | .reservation (some res) => { o with group := { o.group with
      admitted := true
      reservedQueue := res.leaf
      reservedResources := toQuantityMap res.minRes ∪ o.group.reservedResources } }
  | .reservation none => { o with group := { o.group with
      admitted := false
      reservedQueue := ""
      reservedResources := ∅ } }
  | .failed => { o with group := { o.group with
      phase := .failed
      admitted := false
      reservedQueue := ""
      reservedResources := ∅ } }
  | .phase observed tally => ⟨{ o.group with phase := observed }, tally⟩

/-- The patch of an object that is gone fails. -/
def applyPatch (api : Map String (Stored ℤ)) (p : Patch ℤ) : Map String (Stored ℤ) :=
  match api.lookup p.key with
  | none => api
  | some o => api.insert p.key (p.change.apply o)

def applyPatches (api : Map String (Stored ℤ)) (patches : List (Patch ℤ)) : Map String (Stored ℤ) :=
  patches.foldl applyPatch api

lemma applyPatch_lookup (api : Map String (Stored ℤ)) (p : Patch ℤ) (key : String) :
    (applyPatch api p).lookup key =
      if p.key = key then (api.lookup key).map fun o => p.change.apply o else api.lookup key := by
  unfold applyPatch
  cases ho : api.lookup p.key with
  | none =>
    split_ifs with hk
    · rw [← hk, ho]
      rfl
    · rfl
  | some o =>
    dsimp only
    split_ifs with hk
    · rw [← hk, ho, Finmap.lookup_insert]
      rfl
    · exact Finmap.lookup_insert_of_ne _ (Ne.symm hk)

lemma applyPatches_lookup_of_ne {api : Map String (Stored ℤ)} {patches : List (Patch ℤ)}
    {key : String} (h : ∀ p ∈ patches, p.key ≠ key) :
    (applyPatches api patches).lookup key = api.lookup key := by
  induction patches generalizing api with
  | nil => rfl
  | cons p patches ih =>
    refine (ih fun q hq => h q (List.mem_cons_of_mem _ hq)).trans ?_
    rw [applyPatch_lookup, if_neg (h p List.mem_cons_self)]

lemma applyPatches_lookup_once {api : Map String (Stored ℤ)} {patches : List (Patch ℤ)}
    (hd : (patches.map Patch.key).Nodup) {p : Patch ℤ} (hp : p ∈ patches) :
    (applyPatches api patches).lookup p.key = (api.lookup p.key).map fun o => p.change.apply o := by
  obtain ⟨before, after, rfl⟩ := List.append_of_mem hp
  rw [List.map_append, List.map_cons, List.nodup_append, List.nodup_cons] at hd
  have hbefore : ∀ q ∈ before, q.key ≠ p.key := fun q hq =>
    hd.2.2 q.key (List.mem_map_of_mem hq) p.key List.mem_cons_self
  have hafter : ∀ q ∈ after, q.key ≠ p.key := fun q hq he =>
    hd.2.1.1 (he ▸ List.mem_map_of_mem hq)
  have hsplit : applyPatches api (before ++ p :: after) =
      applyPatches (applyPatch (applyPatches api before) p) after := by
    simp [applyPatches, List.foldl_append]
  rw [hsplit, applyPatches_lookup_of_ne hafter, applyPatch_lookup, if_pos rfl,
    applyPatches_lookup_of_ne hbefore]

omit [CommRing V] [LinearOrder V] in
lemma patches_nodup {write : PodGroup V → Option (Patch V)}
    (hwrite : ∀ pg p, write pg = some p → p.key = pg.key) {groups : List (PodGroup V)}
    (h : (groups.map PodGroup.key).Nodup) : ((groups.filterMap write).map Patch.key).Nodup := by
  have hsub : ((groups.filterMap write).map Patch.key).Sublist (groups.map PodGroup.key) := by
    clear h
    induction groups with
    | nil => exact List.Sublist.slnil
    | cons pg groups ih =>
      cases hp : write pg with
      | none =>
        rw [List.filterMap_cons_none hp]
        exact ih.cons pg.key
      | some p =>
        rw [List.filterMap_cons_some hp, List.map_cons, List.map_cons, hwrite pg p hp]
        exact ih.cons_cons pg.key
  exact hsub.nodup h

lemma nodup_deliver {r : Reconciler V} (h : (r.coord.podGroups.map PodGroup.key).Nodup)
    (o : Stored V) : ((r.deliver o).coord.podGroups.map PodGroup.key).Nodup := by
  show ((dropGroup r.coord.podGroups o.group.key ++ [o.group]).map PodGroup.key).Nodup
  rw [List.map_append, List.nodup_append]
  refine ⟨h.sublist (List.filter_sublist.map _), List.nodup_singleton _, ?_⟩
  intro key hkey key' hkey'
  obtain ⟨pg, hpg, rfl⟩ := List.mem_map.mp hkey
  rw [List.map_singleton, List.mem_singleton] at hkey'
  rw [hkey']
  exact of_decide_eq_true (List.mem_filter.mp hpg).2

lemma nodup_remove {r : Reconciler V} (h : (r.coord.podGroups.map PodGroup.key).Nodup)
    (pg : PodGroup V) : ((r.remove pg).coord.podGroups.map PodGroup.key).Nodup :=
  h.sublist (List.filter_sublist.map _)

end AdScheduler.PodGroupStatus
