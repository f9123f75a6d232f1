import AdScheduler.CriticalSections
import AdScheduler.GangAgreement
import AdScheduler.GangSections
import AdScheduler.TerminalPhases

/-! Replicas of the scheduler around one API server, and the gangs that a timeout check has
failed: a replica that knows of the failure should never hold a reservation for the gang
again. Patches may be late or lost, an informer may deliver any version of an object, and the
sections of the calls and loops of a replica come in any order. -/
namespace AdScheduler.FailedGangs
open KeyedMap Resources Manager EngineCore GangAgreement TreeAssembly Runs Requests CoordinatorCore
open Plugins PodGroupStatus CriticalSections GangSections

/-- A replica with its PreEnqueue calls on their way and the stages of its loops. -/
structure Replica where
  recon : Reconciler ℤ
  calls : List (MemberCall ℤ)
  rebuild : Rebuild ℤ
  sync : Sync ℤ
  check : Check ℤ

/-- The replicas, the objects with all their versions so far, and the patches on their way.
Recorded beside them: the gangs that each replica has latched as failed or has seen Failed. -/
structure Fleet (ι : Type*) where
  replica : ι → Replica
  api : Map String (Stored ℤ)
  versions : List (Stored ℤ)
  pending : List (Patch ℤ)
  marked : ι → Finset String

inductive Step (ι : Type*)
  | sync (i : ι) (now : ℤ)
  | check (i : ι) (now : ℤ) (order : List String)
  | phase (ns name : String) (o : Observed) (tally : Tally)
  | patch (n : ℕ)
  | lose (n : ℕ)
  | deliver (i : ι) (n : ℕ)
  | stores (i : ι) (groups : List (PodGroup ℤ)) (queues : List (QueueCR ℤ))
      (quotas : List (ResourceQuota ℤ))
  | rebuild (i : ι) (orders : Orders)
  | preEnqueue (i : ι) (pod : Pod ℤ)
  | proceed (i : ι) (n : ℕ) (now : ℤ)
  | pods (i : ι) (event : Informers.Event ℤ)
  | unregister (i : ι) (key : String)
  | release (i : ι) (key : String)
  | create (pg : PodGroup ℤ)
  | edit (pg : PodGroup ℤ)
  | delete (key : String)

def Replica.setCoord (r : Replica) (c : Coordinator ℤ) : Replica :=
  { r with recon := { r.recon with coord := c } }

namespace Fleet
variable {ι : Type*} [DecidableEq ι]

/-- One replica moves on, and learns of some failures. -/
def move (s : Fleet ι) (i : ι) (r : Replica) (failed : Finset String) : Fleet ι :=
  { s with
    replica := Function.update s.replica i r
    marked := Function.update s.marked i (s.marked i ∪ failed) }

def publish (s : Fleet ι) (o : Stored ℤ) : Fleet ι :=
  { s with api := s.api.insert o.group.key o, versions := s.versions ++ [o] }

end Fleet

/-- The listed group that the next section of a rebuild looks at. -/
def restores? : Rebuild ℤ → Option (QueueManager ℤ × PodGroup ℤ)
  | .restoring mgr (pg :: _) => some (mgr, pg)
  | _ => none

def latched : Check ℤ → Finset String
  | .latching t _ => {t.key}
  | _ => ∅

namespace Fleet
variable {ι : Type*} [DecidableEq ι]

/-- One section of a call, a handler or a loop of a replica, or a change at the server. The parts
of an observed phase are read at different times, so that any may come together. -/
def next (s : Fleet ι) : Step ι → Fleet ι
  | .sync i now =>
    let r := s.replica i
    let synced := r.sync.step r.recon now
    { s.move i { r with recon := synced.1.1, sync := synced.2 } ∅ with
      pending := s.pending ++ synced.1.2 }
  | .check i now order =>
    let r := s.replica i
    let checked := r.check.step r.recon now order
    { s.move i { r with recon := checked.1.1, check := checked.2 } (latched r.check) with
      pending := s.pending ++ checked.1.2 }
  | .phase ns name o tally => { s with pending := s.pending ++ [⟨ns, name, .phase o.phase tally⟩] }
  | .patch n =>
    match s.pending[n]? with
    | none => s
    | some p =>
      match s.api.lookup p.key with
      | none => { s with pending := s.pending.eraseIdx n }
      | some o => { s with pending := s.pending.eraseIdx n }.publish (p.change.apply o)
  | .lose n => { s with pending := s.pending.eraseIdx n }
  | .deliver i n =>
    match s.versions[n]? with
    | none => s
    | some o =>
      s.move i { s.replica i with recon := (s.replica i).recon.deliver o }
        (if o.group.phase = .failed then {o.group.key} else ∅)
  | .stores i groups queues quotas =>
    let r := s.replica i
    s.move i (r.setCoord { r.recon.coord with
      podGroups := groups, queues := queues, quotas := quotas }) ∅
  | .rebuild i orders =>
    let r := s.replica i
    let rebuilt := r.rebuild.step r.recon.coord orders
    s.move i { r.setCoord rebuilt.1 with rebuild := rebuilt.2 } ∅
  | .preEnqueue i pod =>
    let r := s.replica i
    s.move i { r with calls := enter r.recon.coord r.calls pod } ∅
  | .proceed i n now =>
    let r := s.replica i
    let went := proceed r.recon.coord r.calls n now
    s.move i { r.setCoord went.1 with calls := went.2 } ∅
  | .pods i event =>
    let r := s.replica i
    s.move i (r.setCoord (Informers.deliver r.recon.coord event)) ∅
  | .unregister i key =>
    let r := s.replica i
    s.move i (r.setCoord { r.recon.coord with gangs := r.recon.coord.gangs.erase key }) ∅
  | .release i key => s.move i { s.replica i with recon := release (s.replica i).recon key } ∅
  | .create pg => s.publish ⟨pg, ⟨0, 0⟩⟩
  | .edit pg =>
    match s.api.lookup pg.key with
    | none => s
    | some o => s.publish (TerminalPhases.respec o pg)
  | .delete key =>
    { s with
      api := s.api.erase key
      versions := s.versions.filter fun o => decide (o.group.key ≠ key)
      marked := fun i => (s.marked i).erase key }

def Enabled (s : Fleet ι) : Step ι → Prop
  | .check i _ order => (s.replica i).check.Ordered order
  | .rebuild i orders => (s.replica i).rebuild.Ordered (s.replica i).recon.coord orders
  | .create pg => pg.key ∉ s.api
  | _ => True

end Fleet

def fleet {ι : Type*} [DecidableEq ι] : Machine (Fleet ι) (Step ι) := ⟨Fleet.Enabled, Fleet.next⟩

/-- The replica holds no reservation for the gang, unless the check is about to release it, and
its registry does not let it have one. -/
structure Sealed (r : Replica) (key : String) : Prop where
  ledger : key ∈ r.recon.coord.engine.gangBook → r.check.Releases key
  registry : ∀ info, r.recon.coord.gangs.lookup key = some info → info.failed = true

def Latched {ι : Type*} (s : Fleet ι) : Prop := ∀ i, ∀ key ∈ s.marked i, Sealed (s.replica i) key

/-- A replica hears of a failure while it holds no reservation for the gang, after that it gets
no version that is not Failed, none of its calls that read the registry before gets to the
admission, and its rebuilds have no listed group that records a reservation. -/
def Heeds {ι : Type*} (s : Fleet ι) : Step ι → Prop
  | .deliver i n => ∀ o ∈ s.versions[n]?,
      if o.group.phase = .failed then
        o.group.key ∈ (s.replica i).recon.coord.engine.gangBook →
          (s.replica i).check.Releases o.group.key
      else o.group.key ∉ s.marked i
  | .proceed i n _ => ∀ call ∈ (s.replica i).calls[n]?, call.stage.admits = true →
      call.key ∉ s.marked i
  | .rebuild i _ => ∀ p ∈ restores? (s.replica i).rebuild, p.2.key ∈ s.marked i →
      ¬ Recorded p.1 p.2
  | _ => True

section Replica
variable {r r' : Replica} {key : String}

lemma Sealed.mono (h : Sealed r key)
    (hledger : key ∈ r'.recon.coord.engine.gangBook → key ∈ r.recon.coord.engine.gangBook)
    (hgangs : r'.recon.coord.gangs = r.recon.coord.gangs) (hcheck : r'.check = r.check) :
    Sealed r' key := by
  refine ⟨fun hin => ?_, by rw [hgangs]; exact h.registry⟩
  rw [hcheck]
  exact h.ledger (hledger hin)

lemma mem_gangBook_releaseGang {e : Engine ℤ} {gang : String} :
    key ∈ (e.releaseGang gang).gangBook ↔ key ≠ gang ∧ key ∈ e.gangBook := by
  rw [Finmap.mem_iff, Finmap.mem_iff, releaseGang_gangBook]
  by_cases hk : key = gang <;> simp [hk]

lemma lookup_latch (r : Reconciler ℤ) (gang key : String) :
    (latch r gang).coord.gangs.lookup key =
      if key = gang then (r.coord.gangs.lookup key).map fun info => { info with failed := true }
      else r.coord.gangs.lookup key := by
  unfold latch
  cases hinfo : r.coord.gangs.lookup gang with
  | none =>
    split_ifs with hk
    · rw [hk, hinfo]
      rfl
    · rfl
  | some info =>
    dsimp only
    rw [lookup_insert_ite]
    split_ifs with hk
    · rw [hk, hinfo]
      rfl
    · rfl

lemma Sealed.notMem (h : Sealed r key) (hcheck : ¬ r.check.Releases key) :
    key ∉ r.recon.coord.engine.gangBook := fun hin => hcheck (h.ledger hin)

lemma sealed_check {now : ℤ} {order : List String} (h : Sealed r key ∨ key ∈ latched r.check) :
    Sealed { r with
      recon := (r.check.step r.recon now order).1.1
      check := (r.check.step r.recon now order).2 } key := by
  cases hstage : r.check with
  | latching t cands =>
    have hnot : ¬ r.check.Releases key := by simp [hstage, Check.Releases]
    constructor
    · intro hin
      rcases h with h | h
      · exact absurd hin (h.notMem hnot)
      · simpa [hstage, latched, Check.Releases, Check.step, eq_comm] using h
    · intro info hinfo
      have hlook := (lookup_latch r.recon t.key key).symm.trans hinfo
      split_ifs at hlook with hk
      · obtain ⟨old, -, rfl⟩ := Option.map_eq_some_iff.mp hlook
        rfl
      · rcases h with h | h
        · exact h.registry info hlook
        · simp [hstage, latched, hk] at h
  | releasing t cands =>
    have hold : Sealed r key := by simpa [hstage, latched] using h
    refine ⟨fun hin => ?_, hold.registry⟩
    obtain ⟨hne, hin'⟩ := mem_gangBook_releaseGang.mp hin
    have hk := hold.ledger hin'
    rw [hstage] at hk
    exact absurd hk.symm hne
  | idle | copied | judging | counted =>
    have hold : Sealed r key := by simpa [hstage, latched] using h
    have hout := hold.notMem (by simp [hstage, Check.Releases])
    have hreads : ∀ t cands, r.check ≠ .latching t cands ∧ r.check ≠ .releasing t cands := by
      simp [hstage]
    have hsame := check_step_reads r.recon now order hreads
    rw [hstage] at hsame
    refine ⟨fun hin => absurd ?_ hout, ?_⟩
    · rw [← hsame]
      exact hin
    · dsimp only
      rw [hsame]
      exact hold.registry

lemma sealed_proceed (h : Sealed r key) {n : ℕ} {now : ℤ}
    (hcalls : ∀ call ∈ r.calls[n]?, call.stage.admits = true → call.key ≠ key) :
    Sealed { r.setCoord (proceed r.recon.coord r.calls n now).1 with
      calls := (proceed r.recon.coord r.calls n now).2 } key := by
  rcases proceed_coord r.recon.coord r.calls n now with hsame | ⟨call, info, leaf, hn, hstage, he⟩
  · refine h.mono (fun hin => ?_) ?_ rfl
    · simpa [Replica.setCoord, hsame] using hin
    · simp [Replica.setCoord, hsame]
  · refine h.mono (fun hin => ?_) ?_ rfl
    · simp only [Replica.setCoord, he] at hin
      rcases (mem_gangBook_admitGangWW _ _ _ _ _ _ _).mp hin with hin | ⟨rfl, -⟩
      · exact hin
      · exact absurd rfl (hcalls call hn (by rw [hstage]; rfl))
    · simp [Replica.setCoord, he]

lemma preEnqueue_sealed {pod : Pod ℤ} {name : String} (h : Sealed r key)
    (hcheck : ¬ r.check.Releases key) (hkey : pod.gangKey = some (key, name)) (now : ℤ) :
    (Gang.preEnqueue r.recon.coord pod now).2 ≠ .ok () := by
  unfold Gang.preEnqueue
  rw [hkey]
  dsimp only
  cases hinfo : r.recon.coord.gangInfo pod.ns name with
  | none => simp [Engine.isGangAdmitted, h.notMem hcheck]
  | some info =>
    have hfailed := h.registry info (by rw [Pod.gangKey_eq hkey]; exact hinfo)
    simp [hfailed]

lemma sameGangs_podCalls {e e' : Engine ℤ} (h : podCalls.Reaches e e') : SameGangs e e' := by
  obtain ⟨calls, hrun⟩ := h
  refine hrun.invariant (I := SameGangs e) (.refl e) fun x call hx he => hx.trans ?_
  cases call with
  | observeBound uid leaf req => exact sameGangs_observeBound x uid leaf req
  | observeDeleted uid => exact sameGangs_observeDeleted x uid
  | _ => exact he.2.elim

lemma deliver_gangs (c : Coordinator ℤ) (event : Informers.Event ℤ) :
    (Informers.deliver c event).gangs = c.gangs ∧
      (Informers.deliver c event).engine.gangBook = c.engine.gangBook := by
  have heffect := Informers.effect_deliver c event
  refine ⟨?_, (sameGangs_podCalls heffect.engine).gangBook⟩
  rw [heffect.rest]

lemma mem_gangBook_recoverGang {mgr : QueueManager ℤ} {e : Engine ℤ} {pg : PodGroup ℤ}
    (h : key ∈ (recoverGang mgr e pg).gangBook) :
    key ∈ e.gangBook ∨ pg.key = key ∧ Recorded mgr pg := by
  rcases recoverGang_cases mgr e pg with ⟨hrec, -, he⟩ | ⟨-, he⟩
  · rw [he] at h
    by_cases hk : pg.key = key
    · exact .inr ⟨hk, hrec⟩
    · have hstep := admitGang_step e pg.reservedQueue pg.key (fromQuantityMap pg.reservedResources)
      cases hstep with
      | unchanged _ hgangs => exact .inl (hgangs ▸ h)
      | booked _ _ _ _ _ hgangs | adopted _ _ _ _ _ hgangs =>
        rw [hgangs, Finmap.mem_insert] at h
        exact .inl (h.resolve_left (Ne.symm hk))
  · rw [he] at h
    exact .inl h

lemma mem_gangBook_rebuild {c : Coordinator ℤ} {rebuild : Rebuild ℤ} {orders : Orders}
    (ho : rebuild.Ordered c orders) (h : key ∈ (rebuild.step c orders).1.engine.gangBook) :
    key ∈ c.engine.gangBook ∨ ∃ p ∈ restores? rebuild, p.2.key = key ∧ Recorded p.1 p.2 := by
  cases rebuild with
  | idle =>
    rw [rebuild_step_idle] at h
    exact .inl h
  | assembled mgr =>
    obtain ⟨gb, hgb⟩ := Finmap.mem_iff.mp h
    have hkept := (rebuild_gangBook c.engine mgr _ ho.2 key).symm.trans hgb
    exact .inl (Finmap.mem_of_lookup_eq_some (Option.filter_eq_some_iff.mp hkept).1)
  | published mgr => exact .inl h
  | reseeding mgr left =>
    cases left with
    | nil => exact .inl h
    | cons entry left =>
      have hsame := sameGangs_podCalls (reaches_bookTracked mgr c.engine entry)
      exact .inl (hsame.gangBook ▸ h)
  | restoring mgr left =>
    cases left with
    | nil => exact .inl h
    | cons pg left =>
      rcases mem_gangBook_recoverGang h with hold | ⟨hk, hrec⟩
      · exact .inl hold
      · exact .inr ⟨(mgr, pg), rfl, hk, hrec⟩

lemma rebuild_gangs (c : Coordinator ℤ) (rebuild : Rebuild ℤ) (orders : Orders) :
    (rebuild.step c orders).1.gangs = c.gangs := by
  cases rebuild with
  | idle => rw [rebuild_step_idle]
  | assembled mgr | published mgr => rfl
  | reseeding mgr left | restoring mgr left => cases left <;> rfl

lemma sealed_deliver_iff {o : Stored ℤ} :
    Sealed { r with recon := r.recon.deliver o } key ↔
      (key ∈ r.recon.coord.engine.gangBook → r.check.Releases key) ∧
      (if o.group.key = key then o.group.phase = .failed
        else ∀ info, r.recon.coord.gangs.lookup key = some info → info.failed = true) := by
  have hlookup : (r.recon.deliver o).coord.gangs.lookup key = _ :=
    lookup_insert_ite _ o.group.key key _
  constructor
  · rintro ⟨hout, hreg⟩
    refine ⟨hout, ?_⟩
    dsimp only at hreg
    rw [hlookup] at hreg
    split_ifs with hk
    · rw [if_pos hk.symm] at hreg
      simpa using hreg _ rfl
    · rwa [if_neg (Ne.symm hk)] at hreg
  · rintro ⟨hout, hcond⟩
    refine ⟨hout, fun info hinfo => ?_⟩
    dsimp only at hinfo
    rw [hlookup] at hinfo
    by_cases hk : o.group.key = key
    · rw [if_pos hk.symm] at hinfo
      rw [if_pos hk] at hcond
      cases hinfo
      simpa using hcond
    · rw [if_neg (Ne.symm hk)] at hinfo
      rw [if_neg hk] at hcond
      exact hcond info hinfo

lemma sealed_unregister (h : Sealed r key) (gang : String) :
    Sealed (r.setCoord { r.recon.coord with gangs := r.recon.coord.gangs.erase gang }) key := by
  refine ⟨h.ledger, fun info hinfo => ?_⟩
  have hlook := (lookup_erase_ite r.recon.coord.gangs gang key).symm.trans hinfo
  split_ifs at hlook
  exact h.registry info hlook

lemma sealed_release (h : Sealed r key) (gang : String) :
    Sealed { r with recon := release r.recon gang } key :=
  h.mono (fun hin => (mem_gangBook_releaseGang.mp hin).2) rfl rfl

end Replica

section Run
variable {ι : Type*} [DecidableEq ι] {s : Fleet ι}

lemma latched_move (h : Latched s) {i : ι} {r : Replica} {failed : Finset String}
    (hr : ∀ key ∈ s.marked i ∪ failed, Sealed r key) : Latched (s.move i r failed) := by
  intro j key hkey
  by_cases hj : j = i
  · subst hj
    simp only [Fleet.move, Function.update_self] at hkey ⊢
    exact hr key hkey
  · simp only [Fleet.move, Function.update_of_ne hj] at hkey ⊢
    exact h j key hkey

lemma latched_move_empty (h : Latched s) {i : ι} {r : Replica}
    (hr : ∀ key ∈ s.marked i, Sealed r key) : Latched (s.move i r ∅) :=
  latched_move h fun key hkey => hr key (by simpa using hkey)

lemma latched_deliver_iff (h : Latched s) (i : ι) (n : ℕ) :
    Latched (s.next (.deliver i n)) ↔ Heeds s (.deliver i n) := by
  unfold Heeds
  simp only [Fleet.next]
  cases hn : s.versions[n]? with
  | none => simpa using h
  | some o =>
    simp only [Option.mem_def, Option.some.injEq, forall_eq']
    constructor
    · intro h'
      have hsealed : ∀ key ∈ s.marked i ∪ (if o.group.phase = .failed then {o.group.key} else ∅),
          Sealed { s.replica i with recon := (s.replica i).recon.deliver o } key := by
        intro key hkey
        have hi := h' i key (by simpa [Fleet.move] using hkey)
        simpa [Fleet.move] using hi
      split_ifs with hphase
      · rw [if_pos hphase] at hsealed
        exact (sealed_deliver_iff.mp (hsealed _ (by simp))).1
      · rw [if_neg hphase] at hsealed
        intro hmarked
        have hfailed := (sealed_deliver_iff.mp (hsealed _ (by simpa using hmarked))).2
        rw [if_pos rfl] at hfailed
        exact hphase hfailed
    · intro hcond
      refine latched_move h fun key hkey => sealed_deliver_iff.mpr ?_
      rcases Finset.mem_union.mp hkey with hkey | hkey
      · have hold := h i key hkey
        refine ⟨hold.ledger, ?_⟩
        split_ifs with hk
        · by_contra hphase
          rw [if_neg hphase, hk] at hcond
          exact hcond hkey
        · exact hold.registry
      · split_ifs at hkey with hphase
        · rw [if_pos hphase] at hcond
          obtain rfl := Finset.mem_singleton.mp hkey
          exact ⟨hcond, by rwa [if_pos rfl]⟩
        · cases hkey

lemma latched_next (h : Latched s) {step : Step ι} (he : s.Enabled step) (hc : Heeds s step) :
    Latched (s.next step) := by
  cases step with
  | sync i now =>
    have hsame := Sync.step_coord (s.replica i).recon now (s.replica i).sync
    refine latched_move_empty h fun key hkey => (h i key hkey).mono (fun hin => ?_) ?_ rfl
    · dsimp only at hin
      rwa [hsame] at hin
    · dsimp only
      rw [hsame]
  | check i now order =>
    refine latched_move h fun key hkey => sealed_check ?_
    exact (Finset.mem_union.mp hkey).imp (h i key) id
  | phase | lose | create => exact h
  | patch n =>
    simp only [Fleet.next]
    split
    · exact h
    · split <;> exact h
  | deliver i n => exact (latched_deliver_iff h i n).mpr hc
  | stores i groups queues quotas | preEnqueue i pod =>
    exact latched_move_empty h fun key hkey => (h i key hkey).mono id rfl rfl
  | rebuild i orders =>
    refine latched_move_empty h fun key hkey => (h i key hkey).mono (fun hin => ?_) ?_ rfl
    · rcases mem_gangBook_rebuild he hin with hold | ⟨p, hp, rfl, hrec⟩
      · exact hold
      · exact absurd hrec (hc p hp hkey)
    · exact rebuild_gangs _ _ _
  | proceed i n now =>
    refine latched_move_empty h fun key hkey => sealed_proceed (h i key hkey) ?_
    rintro call hcall hstage rfl
    exact hc call hcall hstage hkey
  | pods i event =>
    have hsame := deliver_gangs (s.replica i).recon.coord event
    refine latched_move_empty h fun key hkey => (h i key hkey).mono (fun hin => ?_) hsame.1 rfl
    exact hsame.2 ▸ hin
  | unregister i key =>
    exact latched_move_empty h fun gang hgang => sealed_unregister (h i gang hgang) key
  | release i key =>
    exact latched_move_empty h fun gang hgang => sealed_release (h i gang hgang) key
  | edit pg =>
    simp only [Fleet.next]
    split <;> exact h
  | delete gone => exact fun i key hkey => h i key (Finset.mem_erase.mp hkey).2

/-- In every run that meets the condition at every step, a replica that has latched a gang as
failed or has seen it Failed holds no reservation for it, but for the one that the check is about
to release, and lets none of its members through, until the object is deleted. From each state of
such a run, a delivery that does not meet the condition leaves a replica with a reservation, or
with a registry that would give one. -/
theorem failed_gangs_stay_out {start s : Fleet ι} {steps : List (Step ι)}
    (hstart : ∀ i, start.marked i = ∅) (hrun : Run (fleet.restrict Heeds) start steps s) :
    (∀ i, ∀ key ∈ s.marked i, ¬ (s.replica i).check.Releases key →
      key ∉ (s.replica i).recon.coord.engine.gangBook ∧
      ∀ pod name now, pod.gangKey = some (key, name) →
        (Gang.preEnqueue (s.replica i).recon.coord pod now).2 ≠ .ok ()) ∧
    ∀ i n, Latched (s.next (.deliver i n)) ↔ Heeds s (.deliver i n) := by
  have hlatched : Latched s := by
    refine hrun.invariant (I := Latched) ?_ fun _ _ h he => latched_next h he.1 he.2
    intro i key hkey
    rw [hstart i] at hkey
    cases hkey
  refine ⟨fun i key hkey hcheck => ?_, fun i n => latched_deliver_iff hlatched i n⟩
  have hsealed := hlatched i key hkey
  exact ⟨hsealed.notMem hcheck,
    fun pod name now hmember => preEnqueue_sealed hsealed hcheck hmember now⟩

end Run

instance {ι : Type*} [DecidableEq ι] (s : Fleet ι) (step : Step ι) :
    Decidable (fleet.enabled s step) :=
  match step with
  | .check i _ order => inferInstanceAs (Decidable ((s.replica i).check.Ordered order))
  | .rebuild i orders =>
    inferInstanceAs (Decidable ((s.replica i).rebuild.Ordered (s.replica i).recon.coord orders))
  | .create pg => inferInstanceAs (Decidable (pg.key ∉ s.api))
  | .sync _ _ | .phase _ _ _ _ | .patch _ | .lose _ | .deliver _ _ | .stores _ _ _ _
  | .preEnqueue _ _ | .proceed _ _ _ | .pods _ _ | .unregister _ _ | .release _ _ | .edit _
  | .delete _ => isTrue trivial

instance (t : QueueManager ℤ) (pg : PodGroup ℤ) : Decidable (Recorded t pg) :=
  decidable_of_iff (pg.phase ≠ .failed ∧ pg.admitted = true ∧ pg.reservedQueue ≠ "" ∧
      strictlyGtZero (fromQuantityMap pg.reservedResources) = true ∧ pg.reservedQueue ∈ t.index)
    ⟨fun ⟨hlive, hadmitted, hqueue, hpos, hknown⟩ => ⟨hlive, hadmitted, hqueue, hpos, hknown⟩,
      fun h => ⟨h.live, h.admitted, h.queue, h.positive, h.known⟩⟩

instance {ι : Type*} (s : Fleet ι) (step : Step ι) : Decidable (Heeds s step) :=
  match step with
  | .deliver i n => inferInstanceAs (Decidable (∀ o ∈ s.versions[n]?,
      if o.group.phase = .failed then
        o.group.key ∈ (s.replica i).recon.coord.engine.gangBook →
          (s.replica i).check.Releases o.group.key
      else o.group.key ∉ s.marked i))
  | .proceed i n _ => inferInstanceAs (Decidable (∀ call ∈ (s.replica i).calls[n]?,
      call.stage.admits = true → call.key ∉ s.marked i))
  | .rebuild i _ => inferInstanceAs (Decidable (∀ p ∈ restores? (s.replica i).rebuild,
      p.2.key ∈ s.marked i → ¬ Recorded p.1 p.2))
  | .sync _ _ | .check _ _ _ | .phase _ _ _ _ | .patch _ | .lose _ | .stores _ _ _ _
  | .preEnqueue _ _ | .pods _ _ | .unregister _ _ | .release _ _ | .create _ | .edit _
  | .delete _ => isTrue trivial

instance {ι : Type*} [DecidableEq ι] (s : Fleet ι) (step : Step ι) :
    Decidable ((fleet.restrict Heeds).enabled s step) :=
  inferInstanceAs (Decidable (fleet.enabled s step ∧ Heeds s step))

open GangTimeouts

def replicas : Fleet Bool where
  replica := fun _ => ⟨⟨{ newCoordinator (newEngine 60) with
    queues := [bareQueue "team" "jobs" 10 ["runner"]] }, ∅, ∅⟩, [], .idle, .idle, .idle⟩
  api := ∅
  versions := []
  pending := []
  marked := fun _ => ∅

/-- A rebuild up to the listing of the pod groups. -/
def rebuildTo (i : Bool) (gangs : List String) : List (Step Bool) :=
  [.rebuild i ⟨[], [], []⟩, .rebuild i ⟨[], gangs, []⟩, .rebuild i ⟨[], [], []⟩,
    .rebuild i ⟨[], [], []⟩]

/-- The next section of a rebuild, which restores the listed group or ends the rebuild. -/
def rebuildOn (i : Bool) : Step Bool := .rebuild i ⟨[], [], []⟩

/-- A pass of the check up to the latch of the gang. -/
def checkTo (i : Bool) (now : ℤ) : List (Step Bool) :=
  [.check i now [], .check i now ["team/gang"], .check i now [], .check i now [], .check i now []]

def checkEnd (i : Bool) : List (Step Bool) := [.check i 0 [], .check i 0 []]

def admitting : List (Step Bool) :=
  [.create (timedGroup none)] ++ rebuildTo true [] ++ [rebuildOn true, .deliver true 0,
    .preEnqueue true timedMember, .proceed true 0 0, .proceed true 0 0, .proceed true 0 0,
    .sync true 0, .sync true 0, .sync true 0, .sync true 0, .patch 0]

def seenLate : List (Step Bool) :=
  admitting ++ [.deliver false 1] ++ rebuildTo false [] ++ [rebuildOn false, rebuildOn false] ++
    checkTo true (20 * second) ++ checkEnd true ++ [.patch 0, .deliver false 2]

def unlatched : List (Step Bool) :=
  admitting ++ checkTo true (20 * second) ++ checkEnd true ++ [.deliver true 1,
    .preEnqueue true timedMember, .proceed true 0 0, .proceed true 0 0, .proceed true 0 0]

def restored : List (Step Bool) :=
  admitting ++ [.deliver true 1] ++ checkTo true (20 * second) ++ checkEnd true ++
    rebuildTo true [] ++ [rebuildOn true]

def overtaken : List (Step Bool) :=
  admitting ++ [.preEnqueue true timedMember, .proceed true 0 0] ++ checkTo true (20 * second) ++
    checkEnd true ++ [.proceed true 0 0, .proceed true 0 0]

def HoldsFailed (steps : List (Step Bool)) (i : Bool) : Prop :=
  ∃ s, Run fleet replicas steps s ∧ "team/gang" ∈ s.marked i ∧
    "team/gang" ∈ (s.replica i).recon.coord.engine.gangBook ∧
    ¬ (s.replica i).check.Releases "team/gang"

theorem failed_gang_holds_reservation :
    HoldsFailed seenLate false ∧ HoldsFailed unlatched true ∧ HoldsFailed restored true ∧
      HoldsFailed overtaken true := by
  have hholds : ∀ (steps : List (Step Bool)) (i : Bool), fleet.Legal replicas steps →
      "team/gang" ∈ (steps.foldl fleet.next replicas).marked i →
      "team/gang" ∈ ((steps.foldl fleet.next replicas).replica i).recon.coord.engine.gangBook →
      ¬ ((steps.foldl fleet.next replicas).replica i).check.Releases "team/gang" →
      HoldsFailed steps i :=
    fun steps i hlegal hmarked hheld hcheck => ⟨_, hlegal.run, hmarked, hheld, hcheck⟩
  refine ⟨hholds seenLate false ?_ ?_ ?_ ?_, hholds unlatched true ?_ ?_ ?_ ?_,
    hholds restored true ?_ ?_ ?_ ?_, hholds overtaken true ?_ ?_ ?_ ?_⟩ <;> decide +kernel

def heeded : List (Step Bool) :=
  admitting ++ checkTo true (20 * second) ++ checkEnd true ++ [.patch 0, .deliver true 2,
    .deliver false 2]

theorem heeded_failure_stays_out :
    ∃ s, Run (fleet.restrict Heeds) replicas heeded s ∧
      ∀ i, "team/gang" ∈ s.marked i ∧ "team/gang" ∉ (s.replica i).recon.coord.engine.gangBook := by
  have hlegal : (fleet.restrict Heeds).Legal replicas heeded := by decide +kernel
  have hmarked : ∀ i, "team/gang" ∈ (heeded.foldl fleet.next replicas).marked i := by decide +kernel
  have hcheck : ∀ i, ¬ ((heeded.foldl fleet.next replicas).replica i).check.Releases
      "team/gang" := by
    decide +kernel
  exact ⟨_, hlegal.run, fun i => ⟨hmarked i,
    ((failed_gangs_stay_out (fun _ => rfl) hlegal.run).1 i _ (hmarked i) (hcheck i)).1⟩⟩

end AdScheduler.FailedGangs
