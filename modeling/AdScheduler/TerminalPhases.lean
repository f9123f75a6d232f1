import AdScheduler.GangTimeouts

/-! The phase of a pod group over runs of the reconcile loop: when an object that shows
Completed is given another phase. The writes of a tick reach the API server in order; the
informer may lag behind it. -/
namespace AdScheduler.TerminalPhases
open KeyedMap Resources Manager EngineCore Runs Requests CoordinatorCore Plugins PodGroupStatus
open GangTimeouts

/-- The reconcile loop and the objects that the API server holds, by key. -/
structure Cluster where
  ctl : Reconciler ℤ
  api : Map String (Stored ℤ)

inductive Step
  | sync (now : ℤ)
  | check (now : ℤ) (order : List String)
  | phases
  | pods (event : Informers.Event ℤ)
  | preEnqueue (pod : Pod ℤ) (now : ℤ)
  | deliver (key : String)
  | create (pg : PodGroup ℤ)
  | edit (pg : PodGroup ℤ)
  | delete (key : String)

/-- The object with a new spec and the status it had. -/
def respec (o : Stored ℤ) (pg : PodGroup ℤ) : Stored ℤ :=
  { o with group := { pg with
    phase := o.group.phase
    admitted := o.group.admitted
    reservedResources := o.group.reservedResources
    reservedQueue := o.group.reservedQueue } }

namespace Cluster

def setCoord (s : Cluster) (c : Coordinator ℤ) : Cluster :=
  { s with ctl := { s.ctl with coord := c } }

def next (s : Cluster) : Step → Cluster
  | .sync now => ⟨(s.ctl.syncGangStatuses now).1, applyPatches s.api (s.ctl.syncGangStatuses now).2⟩
  | .check now order => ⟨(s.ctl.checkGangTimeouts now order).1,
      applyPatches s.api (s.ctl.checkGangTimeouts now order).2⟩
  | .phases => { s with api := applyPatches s.api s.ctl.syncPodGroupPhases }
  | .pods event => s.setCoord (Informers.deliver s.ctl.coord event)
  | .preEnqueue pod now => s.setCoord (Gang.preEnqueue s.ctl.coord pod now).1
  | .deliver key =>
    match s.api.lookup key with
    | none => s
    | some o => { s with ctl := s.ctl.deliver o }
  | .create pg => { s with api := s.api.insert pg.key ⟨pg, ⟨0, 0⟩⟩ }
  | .edit pg =>
    match s.api.lookup pg.key with
    | none => s
    | some o => { s with api := s.api.insert pg.key (respec o pg) }
  | .delete key =>
    match s.api.lookup key with
    | none => s
    | some o => ⟨s.ctl.remove o.group, s.api.erase key⟩

def Enabled (s : Cluster) : Step → Prop
  | .check _ order => Visits order s.ctl.coord.engine.gangBook
  | .create pg => pg.key ∉ s.api
  | _ => True

end Cluster

def cluster : Machine Cluster Step := ⟨Cluster.Enabled, Cluster.next⟩

def isCompleted (api : Map String (Stored ℤ)) (key : String) : Bool :=
  (api.lookup key).any fun o => decide (o.group.phase = .completed)

/-- No object loses the phase Completed, unless the step deletes it. -/
def Stays (s : Cluster) (step : Step) : Prop :=
  ∀ key, isCompleted s.api key = true → step ≠ .delete key →
    isCompleted (s.next step).api key = true

/-- The key of the object that a failed gang is written to. -/
def failKey (key : String) : String := (splitGangKey key).1 ++ "/" ++ (splitGangKey key).2

/-- Enough members of the group count as succeeded, and it is not latched as failed. -/
def Done (r : Reconciler ℤ) (pg : PodGroup ℤ) (info : GangInfo ℤ) : Prop :=
  info.failed = false ∧ 0 < info.minMember ∧
    info.minMember ≤ succeededGangMembers r.coord.pods pg.ns pg.name

/-- The informer's version already shows what is observed. -/
def Shown (r : Reconciler ℤ) (pg : PodGroup ℤ) (info : GangInfo ℤ) : Prop :=
  pg.phase = (r.observe pg info).phase ∧ (r.tallies.lookup pg.key).getD ⟨0, 0⟩ =
    ⟨(r.observe pg info).bound, (r.observe pg info).succeeded⟩

/-- The members of a completed group are kept: past a deadline they still count, and
whenever phases are written enough of them are still seen succeeded. -/
def KeepsMembers (s : Cluster) : Step → Prop
  | .check now _ =>
    ∀ key ∈ s.ctl.coord.engine.gangBook.keys, isCompleted s.api (failKey key) = true →
      ∀ stamp ∈ s.ctl.gangAdmittedAt.lookup key,
        (s.ctl.infoOf key).failed = false → Manned s.ctl key (now - stamp)
  | .phases => ∀ pg ∈ s.ctl.coord.podGroups, isCompleted s.api pg.key = true →
      ∀ info ∈ s.ctl.coord.gangs.lookup pg.key, pg.phase ≠ .failed →
        Done s.ctl pg info ∨ Shown s.ctl pg info
  | _ => True

section Patches
variable {api : Map String (Stored ℤ)}

lemma isCompleted_congr {api' : Map String (Stored ℤ)} {key : String}
    (h : api'.lookup key = api.lookup key) : isCompleted api' key = isCompleted api key := by
  rw [isCompleted, h, isCompleted]

lemma isCompleted_applyPatch (p : Patch ℤ) (key : String) :
    isCompleted (applyPatch api p) key =
      if p.key = key then
        (match p.change with
        | .reservation _ => isCompleted api key
        | .failed => false
        | .phase observed _ => (api.lookup key).isSome && decide (observed = .completed))
      else isCompleted api key := by
  unfold isCompleted
  rw [applyPatch_lookup]
  split_ifs with hk
  · obtain ⟨ns, name, change⟩ := p
    rcases change with (_ | res) | _ | ⟨observed, tally⟩
    all_goals cases api.lookup key <;> simp [StatusChange.apply]
  · rfl

lemma isCompleted_sync {patches : List (Patch ℤ)}
    (h : ∀ p ∈ patches, ∃ res, p.change = .reservation res) (key : String) :
    isCompleted (applyPatches api patches) key = isCompleted api key := by
  induction patches generalizing api with
  | nil => rfl
  | cons p patches ih =>
    refine (ih fun q hq => h q (List.mem_cons_of_mem _ hq)).trans ?_
    obtain ⟨res, hres⟩ := h p List.mem_cons_self
    rw [isCompleted_applyPatch, hres, ite_self]

lemma isCompleted_check {patches : List (Patch ℤ)} (h : ∀ p ∈ patches, p.change = .failed)
    (key : String) : isCompleted (applyPatches api patches) key =
      (isCompleted api key && patches.all fun p => decide (p.key ≠ key)) := by
  induction patches generalizing api with
  | nil => simp [applyPatches]
  | cons p patches ih =>
    refine (ih fun q hq => h q (List.mem_cons_of_mem _ hq)).trans ?_
    rw [isCompleted_applyPatch, h p List.mem_cons_self]
    by_cases hk : p.key = key <;> simp [hk]

end Patches

section Writers
variable {s : Cluster}

lemma stays_sync (s : Cluster) (now : ℤ) : Stays s (.sync now) := by
  intro key hkey _
  refine (isCompleted_sync (fun p hp => ?_) key).trans hkey
  obtain ⟨pg, -, hpatch⟩ := List.mem_filterMap.mp hp
  unfold gangPatch at hpatch
  split at hpatch
  all_goals
    split_ifs at hpatch
    cases hpatch
    exact ⟨_, rfl⟩

lemma stays_check_iff {now : ℤ} {order : List String}
    (ho : Visits order s.ctl.coord.engine.gangBook) :
    Stays s (.check now order) ↔ KeepsMembers s (.check now order) := by
  have hpatches := mem_checkGangTimeouts_patches s.ctl now ho
  have hafter : ∀ key, isCompleted (s.next (.check now order)).api key =
      (isCompleted s.api key && (s.ctl.checkGangTimeouts now order).2.all
        fun p => decide (p.key ≠ key)) := by
    refine isCompleted_check fun p hp => ?_
    obtain ⟨key, -, rfl⟩ := (hpatches p).mp hp
    rfl
  constructor
  · intro h key hin hkey
    have hin' := Finmap.mem_keys.mp hin
    refine (not_timesOut_iff hin' now).mp ?_
    have hkept := h (failKey key) hkey (by simp)
    rw [hafter, hkey, Bool.true_and, List.all_eq_true] at hkept
    by_contra htimes
    have htarget := hkept _ ((hpatches _).mpr ⟨key, by simpa using htimes, rfl⟩)
    exact of_decide_eq_true htarget rfl
  · intro h key hkey _
    rw [hafter, hkey, Bool.true_and, List.all_eq_true]
    intro p hp
    rw [decide_eq_true_eq]
    rintro rfl
    obtain ⟨k, htimes, rfl⟩ := (hpatches p).mp hp
    have hin := ((timesOut_iff _ _ _).mp htimes).1
    have hspared := (not_timesOut_iff hin now).mpr (h k (Finmap.mem_keys.mpr hin) hkey)
    rw [htimes] at hspared
    cases hspared

lemma observe_phase_iff (r : Reconciler ℤ) (pg : PodGroup ℤ) (info : GangInfo ℤ) :
    (r.observe pg info).phase = .completed ↔ Done r pg info := by
  unfold Observed.phase Reconciler.observe Done
  dsimp only
  cases info.failed with
  | true => simp
  | false =>
    simp only [Bool.false_eq_true, if_false]
    split_ifs <;> simp_all

lemma phasePatch_some {r : Reconciler ℤ} {pg : PodGroup ℤ} {info : GangInfo ℤ}
    (hinfo : r.coord.gangs.lookup pg.key = some info) (hlive : pg.phase ≠ .failed)
    (hnew : ¬ Shown r pg info) : r.phasePatch pg = some ⟨pg.ns, pg.name,
      .phase (r.observe pg info).phase
        ⟨(r.observe pg info).bound, (r.observe pg info).succeeded⟩⟩ := by
  simp only [Reconciler.phasePatch, hinfo, if_neg hlive]
  exact if_neg hnew

lemma phasePatch_inv {r : Reconciler ℤ} {pg : PodGroup ℤ} {p : Patch ℤ}
    (h : r.phasePatch pg = some p) : p.key = pg.key ∧
      ∃ info, r.coord.gangs.lookup pg.key = some info ∧ pg.phase ≠ .failed ∧
        ¬ Shown r pg info ∧ p.change = .phase (r.observe pg info).phase
          ⟨(r.observe pg info).bound, (r.observe pg info).succeeded⟩ := by
  cases hinfo : r.coord.gangs.lookup pg.key with
  | none => simp [Reconciler.phasePatch, hinfo] at h
  | some info =>
    by_cases hlive : pg.phase = .failed
    · simp [Reconciler.phasePatch, hinfo, hlive] at h
    by_cases hshown : Shown r pg info
    · have hnone : r.phasePatch pg = none := by
        simp only [Reconciler.phasePatch, hinfo, if_neg hlive]
        exact if_pos hshown
      rw [hnone] at h
      cases h
    · rw [phasePatch_some hinfo hlive hshown] at h
      cases h
      exact ⟨rfl, info, rfl, hlive, hshown, rfl⟩

/-- The store of the informer has one version of each object. -/
def Keyed (s : Cluster) : Prop := (s.ctl.coord.podGroups.map PodGroup.key).Nodup

lemma phasePatches_nodup (h : Keyed s) : (s.ctl.syncPodGroupPhases.map Patch.key).Nodup :=
  patches_nodup (fun _ _ hp => (phasePatch_inv hp).1) h

lemma stays_phases_iff (hk : Keyed s) : Stays s .phases ↔ KeepsMembers s .phases := by
  have hwritten : ∀ {pg p}, pg ∈ s.ctl.coord.podGroups → s.ctl.phasePatch pg = some p →
      (s.next .phases).api.lookup p.key = (s.api.lookup p.key).map fun o => p.change.apply o := by
    intro pg p hpg hp
    exact applyPatches_lookup_once (phasePatches_nodup hk) (List.mem_filterMap.mpr ⟨pg, hpg, hp⟩)
  constructor
  · intro h pg hpg hkey info hinfo hlive
    by_contra hneither
    rw [not_or] at hneither
    have hp := phasePatch_some hinfo hlive hneither.2
    have hafter := h pg.key hkey (by simp)
    unfold isCompleted at hafter hkey
    have hpk := (phasePatch_inv hp).1
    rw [← hpk, hwritten hpg hp, hpk] at hafter
    have hphase : (s.ctl.observe pg info).phase = .completed := by
      cases ho : s.api.lookup pg.key with
      | none => simp [ho] at hkey
      | some o => simpa [ho, StatusChange.apply] using hafter
    exact hneither.1 ((observe_phase_iff _ _ _).mp hphase)
  · intro h key hkey _
    by_cases htarget : ∃ p ∈ s.ctl.syncPodGroupPhases, p.key = key
    · obtain ⟨p, hp, rfl⟩ := htarget
      obtain ⟨pg, hpg, hpatch⟩ := List.mem_filterMap.mp hp
      obtain ⟨hpk, info, hinfo, hlive, hnew, hchange⟩ := phasePatch_inv hpatch
      rw [hpk] at hkey
      have hdone := (h pg hpg hkey info hinfo hlive).resolve_right hnew
      unfold isCompleted at hkey ⊢
      rw [hwritten hpg hpatch, hpk, hchange]
      cases ho : s.api.lookup pg.key with
      | none => simp [ho] at hkey
      | some o => simp [StatusChange.apply, (observe_phase_iff _ _ _).mpr hdone]
    · push Not at htarget
      rw [← hkey]
      exact isCompleted_congr (applyPatches_lookup_of_ne htarget)

end Writers

section Store
variable {s : Cluster}

lemma keyed_setCoord {c : Coordinator ℤ} (h : c.podGroups = s.ctl.coord.podGroups) (hs : Keyed s) :
    Keyed (s.setCoord c) := by
  unfold Keyed Cluster.setCoord
  rw [h]
  exact hs

lemma keyed_next (hs : Keyed s) {step : Step} (he : s.Enabled step) : Keyed (s.next step) := by
  cases step with
  | sync | phases | create => exact hs
  | check now order =>
    have hrest := (checkGangTimeouts_givenUp s.ctl now he).rest
    show ((s.ctl.checkGangTimeouts now order).1.coord.podGroups.map PodGroup.key).Nodup
    rw [hrest]
    exact hs
  | pods event => exact keyed_setCoord (Informers.deliver_podGroups _ event) hs
  | preEnqueue pod now =>
    refine keyed_setCoord ?_ hs
    rw [Gang.preEnqueue_rest]
  | deliver key =>
    simp only [Cluster.next]
    split
    · exact hs
    · exact nodup_deliver hs _
  | edit pg =>
    simp only [Cluster.next]
    split <;> exact hs
  | delete key =>
    simp only [Cluster.next]
    split
    · exact hs
    · exact nodup_remove hs _

end Store

lemma stays_edit (s : Cluster) (pg : PodGroup ℤ) : Stays s (.edit pg) := by
  intro key hkey _
  simp only [Cluster.next]
  split
  · exact hkey
  rename_i o ho
  unfold isCompleted at hkey ⊢
  rw [lookup_insert_ite]
  split_ifs with hk
  · rw [hk, ho] at hkey
    exact hkey
  · exact hkey

lemma stays_create {s : Cluster} {pg : PodGroup ℤ} (hnew : pg.key ∉ s.api) :
    Stays s (.create pg) := by
  intro key hkey _
  have hne : key ≠ pg.key := by
    rintro rfl
    rw [isCompleted, Finmap.lookup_eq_none.mpr hnew] at hkey
    cases hkey
  rw [← hkey]
  exact isCompleted_congr (Finmap.lookup_insert_of_ne s.api hne)

lemma stays_delete (s : Cluster) (gone : String) : Stays s (.delete gone) := by
  intro key hkey hother
  have hne : key ≠ gone := fun h => hother (h ▸ rfl)
  simp only [Cluster.next]
  split
  · exact hkey
  · rw [← hkey]
    exact isCompleted_congr (Finmap.lookup_erase_ne hne)

lemma stays_iff {s : Cluster} (hs : Keyed s) {step : Step} (hstep : s.Enabled step) :
    Stays s step ↔ KeepsMembers s step := by
  cases step with
  | sync now => exact iff_of_true (stays_sync s now) trivial
  | check now order => exact stays_check_iff hstep
  | phases => exact stays_phases_iff hs
  | pods | preEnqueue => exact iff_of_true (fun _ hkey _ => hkey) trivial
  | deliver key =>
    refine iff_of_true (fun k hkey _ => ?_) trivial
    simp only [Cluster.next]
    split <;> exact hkey
  | create pg => exact iff_of_true (stays_create hstep) trivial
  | edit pg => exact iff_of_true (stays_edit s pg) trivial
  | delete key => exact iff_of_true (stays_delete s key) trivial

/-- In every run that keeps the members of the completed groups, an object that shows
Completed shows it until it is deleted. At every state that a run reaches, a step that does
not keep them takes an object out of Completed. -/
theorem completed_stays_iff {start s : Cluster} {steps : List Step} (hstart : Keyed start)
    (hrun : Run cluster start steps s) :
    (∀ later t key, Run (cluster.restrict KeepsMembers) s later t →
      isCompleted s.api key = true → .delete key ∉ later → isCompleted t.api key = true) ∧
    ∀ step, s.Enabled step → (Stays s step ↔ KeepsMembers s step) := by
  have hkeyed : Keyed s :=
    hrun.invariant (I := Keyed) hstart fun _ _ hs he => keyed_next hs he
  refine ⟨fun later t key hlater hkey hleft => ?_, fun step hstep => stays_iff hkeyed hstep⟩
  induction hlater with
  | nil => exact hkey
  | @snoc later t step hlater he ih =>
    rw [List.mem_append, List.mem_singleton, not_or] at hleft
    have ht : Keyed t := hlater.invariant (I := Keyed) hkeyed fun _ _ ht hk => keyed_next ht hk.1
    exact (stays_iff ht he.1).mpr he.2 key (ih hleft.1) (Ne.symm hleft.2)

/-- The steps of the examples below are decidable. -/
instance (s : Cluster) (step : Step) : Decidable (cluster.enabled s step) :=
  match step with
  | .check _ order => inferInstanceAs (Decidable (Visits order s.ctl.coord.engine.gangBook))
  | .create pg => inferInstanceAs (Decidable (pg.key ∉ s.api))
  | .sync _ | .phases | .pods _ | .preEnqueue _ _ | .deliver _ | .edit _ | .delete _ =>
    inferInstanceAs (Decidable True)

def noObjects : Cluster := ⟨idleTenant, ∅⟩

def completing : List Step :=
  [.create (timedGroup none), .deliver "team/gang", .preEnqueue timedMember 0, .sync 0,
    .pods (.store [succeededMember]), .phases, .deliver "team/gang"]

def cleaned : List Step := completing ++ [.pods (.store [])]

/-- The member of the completed group is gone: the next write of the phases takes the group
out of Completed, and the timeout check fails it. -/
theorem completed_group_reopens :
    ∃ s, Run cluster noObjects cleaned s ∧
      isCompleted s.api "team/gang" = true ∧ ¬ Stays s .phases ∧
      s.Enabled (.check (20 * second) ["team/gang"]) ∧
      ¬ Stays s (.check (20 * second) ["team/gang"]) := by
  have hlegal : cluster.Legal noObjects cleaned := by decide +kernel
  have hdone : isCompleted (cleaned.foldl cluster.next noObjects).api
      "team/gang" = true := by decide +kernel
  have hcheck : cluster.enabled (cleaned.foldl cluster.next noObjects)
      (.check (20 * second) ["team/gang"]) := by decide +kernel
  refine ⟨_, hlegal.run, hdone, fun h => ?_, hcheck, fun h => ?_⟩
  all_goals
    have hstill := h "team/gang" hdone (by simp)
    revert hstill
    decide +kernel

theorem kept_member_stays_completed :
    ∃ s, Run cluster noObjects completing s ∧ isCompleted s.api "team/gang" = true ∧
      Stays s .phases := by
  have hlegal : cluster.Legal noObjects completing := by decide +kernel
  have hkeyed : Keyed noObjects := List.nodup_nil
  refine ⟨_, hlegal.run, by decide +kernel, ?_⟩
  refine ((completed_stays_iff hkeyed hlegal.run).2 .phases trivial).mpr ?_
  unfold KeepsMembers Done Shown
  decide +kernel

end AdScheduler.TerminalPhases
