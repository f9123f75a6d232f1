import AdScheduler.Informers
import AdScheduler.PodGroupStatus

/-! The timeouts of the gangs over runs of the reconcile loop: which gangs that had
assembled in time are failed later, and when a finished gang gives its quota back. -/
namespace AdScheduler.GangTimeouts
open KeyedMap Resources Manager EngineCore Runs Requests CoordinatorCore Plugins PodGroupStatus

variable {V : Type*} [CommRing V] [LinearOrder V]

/-- Enough members count for every deadline that the clock has run past. -/
def Manned (r : Reconciler V) (key : String) (elapsed : ℤ) : Prop :=
  (0 < r.membersReadyTO key ∧ r.membersReadyTO key ≤ elapsed → (r.infoOf key).minMember ≤
    createdGangMembers r.coord.pods (splitGangKey key).1 (splitGangKey key).2) ∧
  (r.scheduleTO key ≤ elapsed → (r.infoOf key).minMember ≤
    boundGangMembers r.coord.pods (splitGangKey key).1 (splitGangKey key).2)

instance (r : Reconciler V) (key : String) (elapsed : ℤ) : Decidable (Manned r key elapsed) := by
  unfold Manned; infer_instance

lemma manned_iff (r : Reconciler V) (key : String) (elapsed : ℤ) :
    Manned r key elapsed ↔ ¬ r.Expired key elapsed := by
  unfold Manned Reconciler.Expired
  rw [not_or, not_and, not_and, not_and, and_imp]
  simp only [not_lt]

lemma not_timesOut_iff {r : Reconciler V} {key : String} (h : key ∈ r.coord.engine.gangBook)
    (now : ℤ) : r.timesOut now key = false ↔ ∀ stamp ∈ r.gangAdmittedAt.lookup key,
      (r.infoOf key).failed = false → Manned r key (now - stamp) := by
  rw [← Bool.not_eq_true, timesOut_iff]
  simp only [manned_iff, Option.mem_def]
  constructor
  · intro hno stamp hstamp hlive hexp
    exact hno ⟨h, stamp, hstamp, hlive, hexp⟩
  · rintro hall ⟨-, stamp, hstamp, hlive, hexp⟩
    exact hall stamp hstamp hlive hexp

/-- The gangs that have their members bound before their schedule timeout. -/
def assembledNow (r : Reconciler V) (now : ℤ) : Finset String :=
  r.coord.engine.gangBook.keys.filter fun key =>
    (r.gangAdmittedAt.lookup key).any (fun stamp => decide (now - stamp < r.scheduleTO key)) ∧
      (r.infoOf key).minMember ≤
        boundGangMembers r.coord.pods (splitGangKey key).1 (splitGangKey key).2

/-- The reconcile loop with its clock, and the admissions that were seen assembled. -/
structure Loop (V : Type*) [CommRing V] [LinearOrder V] where
  ctl : Reconciler V
  clock : ℤ
  assembled : Finset String

inductive Step (V : Type*)
  | sync (now : ℤ)
  | check (now : ℤ) (order : List String)
  | pods (event : Informers.Event V)
  | upsert (pg : PodGroup V)
  | delete (pg : PodGroup V)
  | preEnqueue (pod : Pod V) (now : ℤ)

namespace Loop

/-- An admission ends when the ledger drops the gang. -/
def settle (s : Loop V) (now : ℤ) (seen : Finset String) (r : Reconciler V) : Loop V :=
  ⟨r, now, (s.assembled ∪ seen).filter (· ∈ r.coord.engine.gangBook)⟩

def setCoord (s : Loop V) (now : ℤ) (c : Coordinator V) : Loop V :=
  s.settle now ∅ { s.ctl with coord := c }

def next (s : Loop V) : Step V → Loop V
  | .sync now => s.settle now (assembledNow (s.ctl.syncGangStatuses now).1 now)
      (s.ctl.syncGangStatuses now).1
  | .check now order => s.settle now (assembledNow s.ctl now) (s.ctl.checkGangTimeouts now order).1
  | .pods event => s.setCoord s.clock (Informers.deliver s.ctl.coord event)
  | .upsert pg => s.setCoord s.clock (s.ctl.coord.onPodGroupUpsert pg)
  | .delete pg => s.setCoord s.clock (s.ctl.coord.onPodGroupDelete pg)
  | .preEnqueue pod now => s.setCoord now (Gang.preEnqueue s.ctl.coord pod now).1

/-- The clock does not run back. -/
def Enabled (s : Loop V) : Step V → Prop
  | .sync now | .preEnqueue _ now => s.clock ≤ now
  | .check now order => s.clock ≤ now ∧ Visits order s.ctl.coord.engine.gangBook
  | .pods _ | .upsert _ | .delete _ => True

/-- The timeout check neither fails nor releases a gang that was seen assembled. -/
def Spared (s : Loop V) : Step V → Prop
  | .check now order => ∀ key ∈ s.assembled ∪ assembledNow s.ctl now,
      (s.ctl.checkGangTimeouts now order).1.coord.engine.gangBook.lookup key =
        s.ctl.coord.engine.gangBook.lookup key ∧
      (s.ctl.checkGangTimeouts now order).1.coord.gangs.lookup key = s.ctl.coord.gangs.lookup key
  | _ => True

/-- A gang that was seen assembled has enough members whenever a deadline is judged. -/
def StaysManned (s : Loop V) : Step V → Prop
  | .check now _ => ∀ key ∈ s.assembled ∪ assembledNow s.ctl now,
      ∀ stamp ∈ s.ctl.gangAdmittedAt.lookup key,
        (s.ctl.infoOf key).failed = false → Manned s.ctl key (now - stamp)
  | _ => True

end Loop

def loop : Machine (Loop V) (Step V) := ⟨Loop.Enabled, Loop.next⟩

def Listed (s : Loop V) : Prop := ∀ key ∈ s.assembled, key ∈ s.ctl.coord.engine.gangBook

lemma listed_next (s : Loop V) (step : Step V) : Listed (s.next step) := by
  cases step <;> exact fun key hkey => (Finset.mem_filter.mp hkey).2

lemma spared_iff {s : Loop V} (h : Listed s) {step : Step V} (hs : s.Enabled step) :
    s.Spared step ↔ s.StaysManned step := by
  cases step with
  | sync | pods | upsert | delete | preEnqueue => exact Iff.rfl
  | check now order =>
    have hgone := checkGangTimeouts_givenUp s.ctl now hs.2
    refine forall₂_congr fun key hkey => ?_
    have hin : key ∈ s.ctl.coord.engine.gangBook := by
      rcases Finset.mem_union.mp hkey with hkey | hkey
      · exact h key hkey
      · exact Finmap.mem_keys.mp (Finset.mem_filter.mp hkey).1
    obtain ⟨gb, hgb⟩ := Finmap.mem_iff.mp hin
    rw [← not_timesOut_iff hin, hgone.ledger, hgone.registry, hgb]
    cases s.ctl.timesOut now key <;> simp

/-- In every run of the reconcile loop, the timeout check spares the gangs that had
assembled in time exactly if they still have their members when a deadline is judged. -/
theorem assembled_gangs_spared_iff {r : Reconciler V} {start : ℤ} {steps : List (Step V)}
    {s : Loop V} (h : Run loop ⟨r, start, ∅⟩ steps s) (step : Step V) (hs : s.Enabled step) :
    s.Spared step ↔ s.StaysManned step := by
  have hlisted : Listed s := h.invariant (I := Listed) (fun key hkey => by simp at hkey)
    fun s a _ _ => listed_next s a
  exact spared_iff hlisted hs

instance (s : Loop V) : ∀ step, Decidable (loop.enabled s step)
  | .sync now => inferInstanceAs (Decidable (s.clock ≤ now))
  | .preEnqueue _ now => inferInstanceAs (Decidable (s.clock ≤ now))
  | .check now order =>
    inferInstanceAs (Decidable (s.clock ≤ now ∧ Visits order s.ctl.coord.engine.gangBook))
  | .pods _ => isTrue trivial
  | .upsert _ => isTrue trivial
  | .delete _ => isTrue trivial

def timedGroup (membersReadyTimeoutSeconds : Option ℤ) : PodGroup ℤ where
  ns := "team"
  name := "gang"
  creationTimestamp := 0
  minMember := 1
  minResources := Finmap.singleton "cpu" ⟨0, 2⟩
  queue := "root.team.jobs"
  scheduleTimeoutSeconds := some 10
  membersReadyTimeoutSeconds := membersReadyTimeoutSeconds
  phase := .pending
  admitted := false
  reservedResources := ∅
  reservedQueue := ""

def idleTenant : Reconciler ℤ :=
  ⟨newCoordinator (engineOn 60 (treeOf (Placement.oneTenant 10) Placement.oneTenant_isOk)), ∅, ∅⟩

def timedMember : Pod ℤ :=
  { barePod "member" "team" "runner" 2 with
    annotations := Finmap.singleton podGroupAnnotation "gang" }

def assembling : List (Step ℤ) :=
  [.upsert (timedGroup none), .preEnqueue timedMember 0, .sync 0,
    .pods (.store [{ timedMember with nodeName := "node" }]), .check (5 * second) ["team/gang"]]

def dismissed : List (Step ℤ) := assembling ++ [.pods (.store [])]

/-- After twenty seconds the gang that had finished is failed and loses its reservation. -/
theorem finished_gang_times_out :
    ∃ s, Run loop ⟨idleTenant, 0, ∅⟩ dismissed s ∧
      s.Enabled (.check (20 * second) ["team/gang"]) ∧
      "team/gang" ∈ s.assembled ∧ ¬ s.Spared (.check (20 * second) ["team/gang"]) := by
  have hlegal : loop.Legal ⟨idleTenant, 0, ∅⟩ dismissed := by decide +kernel
  have hin : "team/gang" ∈ (dismissed.foldl loop.next ⟨idleTenant, 0, ∅⟩).assembled := by
    decide +kernel
  refine ⟨_, hlegal.run, ⟨by decide +kernel, by decide +kernel⟩, hin, fun hspared => ?_⟩
  have hkept := congrArg Option.isSome (hspared "team/gang" (Finset.mem_union_left _ hin)).1
  revert hkept
  decide +kernel

theorem running_gang_spared :
    ∃ s, Run loop ⟨idleTenant, 0, ∅⟩ assembling s ∧ "team/gang" ∈ s.assembled ∧
      s.Spared (.check (20 * second) ["team/gang"]) := by
  have hlegal : loop.Legal ⟨idleTenant, 0, ∅⟩ assembling := by decide +kernel
  have henabled : loop.enabled (assembling.foldl loop.next ⟨idleTenant, 0, ∅⟩)
      (.check (20 * second) ["team/gang"]) := by decide +kernel
  refine ⟨_, hlegal.run, by decide +kernel, ?_⟩
  refine (assembled_gangs_spared_iff hlegal.run (.check (20 * second) ["team/gang"]) henabled).mpr
    ?_
  unfold Loop.StaysManned
  decide +kernel

def memberOf (key : String) (p : Pod V) : Prop :=
  p.ns = (splitGangKey key).1 ∧ textAt p.annotations podGroupAnnotation = (splitGangKey key).2

instance (key : String) (p : Pod V) : Decidable (memberOf key p) := by
  unfold memberOf; infer_instance

/-- The gang is admitted, enough members have succeeded, and none runs any more. -/
structure Finished (r : Reconciler V) (key : String) : Prop where
  admitted : key ∈ r.coord.engine.gangBook
  registered : key ∈ r.coord.gangs
  succeeded : (r.infoOf key).minMember ≤
    succeededGangMembers r.coord.pods (splitGangKey key).1 (splitGangKey key).2
  idle : ∀ p ∈ r.coord.pods, memberOf key p → p.nodeName ≠ "" → p.terminal = true

/-- Neither the ledger nor the tree holds a reservation of the gang. -/
structure Free (e : Engine V) (key : String) : Prop where
  ledger : key ∉ e.gangBook
  tree : ∀ t, e.tree = some t → key ∉ t.gangs

lemma tick_free_iff (r : Reconciler V) (now : ℤ) {order : List String}
    (ho : Visits order r.coord.engine.gangBook) {key : String}
    (hin : key ∈ r.coord.engine.gangBook) :
    Free (r.tick now order).1.coord.engine key ↔
      (r.syncGangStatuses now).1.timesOut now key = true := by
  have hgone : GivenUp (r.syncGangStatuses now).1 (r.tick now order).1
      ((r.syncGangStatuses now).1.timesOut now) :=
    checkGangTimeouts_givenUp (r.syncGangStatuses now).1 now ho
  constructor
  · intro hfree
    by_contra hno
    exact hfree.ledger ((hgone.mem_ledger key).mpr ⟨by simpa using hno, hin⟩)
  · intro hdead
    refine ⟨fun hkept => ?_, fun t' ht' hheld => ?_⟩
    · rw [hgone.mem_ledger, hdead] at hkept
      cases hkept.1
    · obtain ⟨t, -, hgangs⟩ := hgone.tree t' ht'
      obtain ⟨hold, hhold⟩ := Finmap.mem_iff.mp hheld
      rw [hgangs, if_pos ⟨hdead, hin⟩] at hhold
      cases hhold

/-- The tick that finds a gang finished gives its quota back exactly if it also finds it
timed out; no other path releases it. -/
theorem finished_gang_free_iff {r : Reconciler V} {now : ℤ} {order : List String}
    (ho : Visits order r.coord.engine.gangBook) {key : String} (h : Finished r key) :
    Free (r.tick now order).1.coord.engine key ↔
      (r.infoOf key).failed = false ∧
        r.Expired key (now - (r.gangAdmittedAt.lookup key).getD now) := by
  have hstamp : (r.syncGangStatuses now).1.gangAdmittedAt.lookup key =
      some ((r.gangAdmittedAt.lookup key).getD now) :=
    (lookup_tabulate _ _ _).trans (if_pos (Finmap.mem_keys.mpr h.admitted))
  rw [tick_free_iff r now ho h.admitted, timesOut_iff]
  constructor
  · rintro ⟨-, stamp, hs, hlive, hexp⟩
    obtain rfl : (r.gangAdmittedAt.lookup key).getD now = stamp :=
      Option.some.inj (hstamp.symm.trans hs)
    exact ⟨hlive, hexp⟩
  · rintro ⟨hlive, hexp⟩
    exact ⟨h.admitted, _, hstamp, hlive, hexp⟩

def admittedWith (membersReadyTimeoutSeconds : Option ℤ) (pod : Pod ℤ) : Reconciler ℤ :=
  (([.upsert (timedGroup membersReadyTimeoutSeconds), .preEnqueue timedMember 0, .sync 0,
    .pods (.store [pod])] : List (Step ℤ)).foldl loop.next ⟨idleTenant, 0, ∅⟩).ctl

def succeededMember : Pod ℤ := { timedMember with nodeName := "node", phase := .succeeded }

/-- The member has succeeded, and the tick a thousand seconds later leaves the reservation
where it is. -/
theorem finished_gang_keeps_quota :
    Finished (admittedWith none succeededMember) "team/gang" ∧
      ¬ Free ((admittedWith none succeededMember).tick (1000 * second)
        ["team/gang"]).1.coord.engine "team/gang" :=
  ⟨⟨by decide +kernel, by decide +kernel, by decide +kernel, by decide +kernel⟩,
    fun h => h.ledger (by decide +kernel)⟩

theorem finished_gang_freed_by_timeout :
    Free ((admittedWith (some 5) { succeededMember with deletionTimestamp := some 0 }).tick
      (20 * second) ["team/gang"]).1.coord.engine "team/gang" :=
  (finished_gang_free_iff (by decide +kernel)
    ⟨by decide +kernel, by decide +kernel, by decide +kernel, by decide +kernel⟩).mpr
    ⟨by decide +kernel, by decide +kernel⟩

end AdScheduler.GangTimeouts
