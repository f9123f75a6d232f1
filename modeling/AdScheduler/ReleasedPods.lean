import AdScheduler.CriticalSections
import AdScheduler.Informers

/-! Pods whose deletion has been processed, or whose booking was collected because they are
gone, against the calls that are still to come for them: a rebuild books a copy of the tracked
pods, and the collection leaves the tracked pods alone. -/
namespace AdScheduler.ReleasedPods
open KeyedMap Resources Manager EngineCore LedgerTree Runs Requests TreeAssembly CoordinatorCore
open CriticalSections
open BookingPaths (Posting)
open Informers (boundPod)

/-- The coordinator with its loops and with the pod handlers that have come past their first
section. The last field records the pods that are released and not heard of since. -/
structure Threads (V : Type*) [CommRing V] [LinearOrder V] where
  coord : Coordinator V
  rebuild : Rebuild V
  gc : Gc
  tracking : List (String × TrackedPod V)
  observing : List (Posting V)
  deleting : List String
  released : Finset String

inductive Step (V : Type*) [CommRing V] [LinearOrder V]
  | upsert (pod : Pod V)
  | route (i : ℕ)
  | observe (i : ℕ)
  | delete (pod : Pod V)
  | unbook (i : ℕ)
  | rebuild (orders : Orders)
  | gc (order : List String)
  | stores (pods : List (Pod V)) (podGroups : List (PodGroup V)) (queues : List (QueueCR V))
      (quotas : List (ResourceQuota V))

section Machine
variable {V : Type*} [CommRing V] [LinearOrder V]

/-- No handler and no loop is under way. -/
def start (c : Coordinator V) : Threads V := ⟨c, .idle, .idle, [], [], [], ∅⟩

def Step.pod? : Step V → Option String
  | .upsert pod | .delete pod => some pod.uid
  | _ => none

namespace Threads

def setEngine (s : Threads V) (e : Engine V) : Threads V :=
  { s with coord := { s.coord with engine := e } }

/-- A deletion is delivered. It is processed at once if there is nothing to release. -/
def delete (s : Threads V) (pod : Pod V) : Threads V :=
  match (deleteSection s.coord pod).2 with
  | none => { s with coord := (deleteSection s.coord pod).1, released := insert pod.uid s.released }
  | some uid =>
    { s with
      coord := (deleteSection s.coord pod).1
      deleting := uid :: s.deleting
      released := s.released.erase pod.uid }

/-- The bookings that a section of the collection releases because the pod is gone. -/
def collected (s : Threads V) (order : List String) : Finset String :=
  (s.coord.engine.book.keys \ (s.gc.step s.coord order).1.engine.book.keys) \
    livePods s.coord.pods

/-- One critical section of a handler or a loop, or a change of the informers' stores. -/
def next (s : Threads V) : Step V → Threads V
  | .upsert pod =>
    if pod.nodeName = "" then { s with released := s.released.erase pod.uid }
    else if pod.terminal then s.delete pod
    else
      { s with
        coord := (upsertSection s.coord pod).1
        tracking := (upsertSection s.coord pod).2.toList ++ s.tracking
        released := s.released.erase pod.uid }
  | .route i =>
    match s.tracking[i]? with
    | none => s
    | some entry =>
      { s with
        tracking := s.tracking.eraseIdx i
        observing := (routeSection s.coord entry).toList ++ s.observing }
  | .observe i =>
    match s.observing[i]? with
    | none => s
    | some p =>
      { s.setEngine (observed s.coord.engine p) with observing := s.observing.eraseIdx i }
  | .delete pod => s.delete pod
  | .unbook i =>
    match s.deleting[i]? with
    | none => s
    | some uid =>
      { s.setEngine (s.coord.engine.observeDeleted uid) with
        deleting := s.deleting.eraseIdx i
        released := insert uid s.released }
  | .rebuild orders =>
    { s with
      coord := (s.rebuild.step s.coord orders).1
      rebuild := (s.rebuild.step s.coord orders).2 }
  | .gc order =>
    { s with
      coord := (s.gc.step s.coord order).1
      gc := (s.gc.step s.coord order).2
      released := s.released ∪ s.collected order }
  | .stores pods podGroups queues quotas =>
    { s with coord := { s.coord with
        pods := pods, podGroups := podGroups, queues := queues, quotas := quotas } }

def Enabled (s : Threads V) : Step V → Prop
  | .rebuild orders => s.rebuild.Ordered s.coord orders
  | .gc order => s.gc.Ordered s.coord order
  | _ => True

instance (s : Threads V) : ∀ step, Decidable (s.Enabled step)
  | .rebuild orders => inferInstanceAs (Decidable (s.rebuild.Ordered s.coord orders))
  | .gc order => inferInstanceAs (Decidable (s.gc.Ordered s.coord order))
  | .upsert _ | .route _ | .observe _ | .delete _ | .unbook _ | .stores _ _ _ _ =>
    inferInstanceAs (Decidable True)

/-- The rebuild is still to book the pod on a leaf of its tree. -/
def Reseeds (uid : String) : Rebuild V → Prop
  | .reseeding mgr left => ∃ entry ∈ left, entry.1 = uid ∧ (homeLeaf mgr entry.2).isSome = true
  | _ => False

/-- A handler or the rebuild is still to book the pod. -/
def Pending (s : Threads V) (uid : String) : Prop :=
  (∃ entry ∈ s.tracking, entry.1 = uid) ∨ (∃ p ∈ s.observing, p.uid = uid) ∨
    Reseeds uid s.rebuild

/-- No call that is still to come books a released pod. -/
def Clear (s : Threads V) : Prop := ∀ uid, s.Pending uid → uid ∉ s.released

/-- A deletion that is processed at once is of a pod that nothing is still to book. -/
def DeletesSettled (s : Threads V) (pod : Pod V) : Prop :=
  (∀ tp ∈ s.coord.tracked.lookup pod.uid, (tp.ours && !tp.gang) = false) → ¬ s.Pending pod.uid

/-- What the collection releases as gone is of pods that nothing is still to book. -/
def CollectsSettled (s : Threads V) : Gc → Prop
  | .listedPods live => s.coord.engine.tree.isSome = true →
    ∀ uid ∈ s.coord.engine.book.keys, uid ∉ live → uid ∉ livePods s.coord.pods → ¬ s.Pending uid
  | _ => True

/-- A rebuild copies no released pod that its tree routes. -/
def CopiesSettled (s : Threads V) : Rebuild V → Prop
  | .published mgr => ∀ uid ∈ s.coord.tracked.keys, ∀ tp ∈ s.coord.tracked.lookup uid,
    (homeLeaf mgr tp).isSome = true → uid ∉ s.released
  | _ => True

/-- A pod is released only when nothing is still to book it, and no released pod is copied. -/
def Settled (s : Threads V) : Step V → Prop
  | .upsert pod => pod.nodeName ≠ "" → pod.terminal = true → s.DeletesSettled pod
  | .delete pod => s.DeletesSettled pod
  | .unbook i => ∀ uid ∈ s.deleting[i]?, ¬ s.Pending uid
  | .gc _ => s.CollectsSettled s.gc
  | .rebuild _ => s.CopiesSettled s.rebuild
  | _ => True

instance (uid : String) : ∀ rebuild : Rebuild V, Decidable (Reseeds uid rebuild)
  | .reseeding _ _ => inferInstanceAs (Decidable (∃ _ ∈ _, _))
  | .idle | .assembled _ | .published _ | .restoring _ _ => inferInstanceAs (Decidable False)

instance (s : Threads V) (uid : String) : Decidable (s.Pending uid) :=
  inferInstanceAs (Decidable (_ ∨ _))

instance (s : Threads V) (pod : Pod V) : Decidable (s.DeletesSettled pod) :=
  inferInstanceAs (Decidable (_ → _))

instance (s : Threads V) : ∀ gc : Gc, Decidable (s.CollectsSettled gc)
  | .listedPods _ => inferInstanceAs (Decidable (_ → ∀ _ ∈ _, _))
  | .idle | .releasedBookings | .listedGroups _ => inferInstanceAs (Decidable True)

instance (s : Threads V) : ∀ rebuild : Rebuild V, Decidable (s.CopiesSettled rebuild)
  | .published _ => inferInstanceAs (Decidable (∀ _ ∈ _, _))
  | .idle | .assembled _ | .reseeding _ _ | .restoring _ _ => inferInstanceAs (Decidable True)

instance (s : Threads V) : ∀ step, Decidable (s.Settled step)
  | .upsert pod =>
    inferInstanceAs (Decidable (pod.nodeName ≠ "" → pod.terminal = true → s.DeletesSettled pod))
  | .delete pod => inferInstanceAs (Decidable (s.DeletesSettled pod))
  | .unbook i => inferInstanceAs (Decidable (∀ uid ∈ s.deleting[i]?, ¬ s.Pending uid))
  | .gc _ => inferInstanceAs (Decidable (s.CollectsSettled s.gc))
  | .rebuild _ => inferInstanceAs (Decidable (s.CopiesSettled s.rebuild))
  | .route _ | .observe _ | .stores _ _ _ _ => inferInstanceAs (Decidable True)

end Threads

/-- Every interleaving of the handlers and the loops. -/
def sections : Machine (Threads V) (Step V) := ⟨Threads.Enabled, Threads.next⟩

instance (s : Threads V) (step : Step V) : Decidable (sections.enabled s step) :=
  inferInstanceAs (Decidable (s.Enabled step))

instance (s : Threads V) (step : Step V) :
    Decidable ((sections.restrict Threads.Settled).enabled s step) :=
  inferInstanceAs (Decidable (s.Enabled step ∧ s.Settled step))

section Pending
variable {s s' : Threads V}

lemma Threads.Clear.mono (h : s.Clear) (hpending : ∀ uid, s'.Pending uid → s.Pending uid)
    (hreleased : s'.released ⊆ s.released) : s'.Clear :=
  fun uid hp hin => h uid (hpending uid hp) (hreleased hin)

lemma Threads.Clear.insert_iff (h : s.Clear) {uid : String}
    (hpending : ∀ u, s'.Pending u ↔ s.Pending u) (hreleased : s'.released = insert uid s.released) :
    s'.Clear ↔ ¬ s.Pending uid := by
  constructor
  · intro h' hp
    refine h' uid ((hpending uid).mpr hp) ?_
    rw [hreleased]
    exact Finset.mem_insert_self _ _
  · intro hno u hp hin
    rw [hreleased] at hin
    have hold := (hpending u).mp hp
    rcases Finset.mem_insert.mp hin with rfl | hin'
    · exact hno hold
    · exact h u hold hin'

lemma clear_delete_iff (h : s.Clear) (pod : Pod V) :
    (s.delete pod).Clear ↔ s.DeletesSettled pod := by
  unfold Threads.delete Threads.DeletesSettled
  rw [← deleteSection_eq_none]
  cases hsection : (deleteSection s.coord pod).2 with
  | none =>
    simp only [forall_const]
    exact h.insert_iff (fun _ => Iff.rfl) rfl
  | some uid =>
    refine iff_of_true (h.mono (fun _ hp => hp) (Finset.erase_subset _ _)) fun hnone => ?_
    cases hnone

lemma clear_upsert_iff (h : s.Clear) (pod : Pod V) :
    (s.next (.upsert pod)).Clear ↔ s.Settled (.upsert pod) := by
  by_cases hnode : pod.nodeName = ""
  · simp only [Threads.next, if_pos hnode]
    exact iff_of_true (h.mono (fun _ hp => hp) (Finset.erase_subset _ _))
      fun hne => absurd hnode hne
  · simp only [Threads.next, if_neg hnode]
    by_cases hterm : pod.terminal = true
    · rw [if_pos hterm, clear_delete_iff h]
      exact ⟨fun hd _ _ => hd, fun hd => hd hnode hterm⟩
    · rw [if_neg hterm]
      refine iff_of_true (fun uid hp hin => ?_) fun _ ht => absurd ht hterm
      obtain ⟨hne, hold⟩ := Finset.mem_erase.mp hin
      refine h uid ?_ hold
      rcases hp with ⟨entry, hentry, rfl⟩ | hp
      · rcases List.mem_append.mp hentry with hnew | hwas
        · exact absurd (upsertSection_uid s.coord (Option.mem_toList.mp hnew)) hne
        · exact .inl ⟨entry, hwas, rfl⟩
      · exact .inr hp

lemma clear_route (h : s.Clear) (i : ℕ) : (s.next (.route i)).Clear := by
  cases hi : s.tracking[i]? with
  | none => simpa only [Threads.next, hi] using h
  | some entry =>
    simp only [Threads.next, hi]
    refine h.mono (fun uid hp => ?_) subset_rfl
    rcases hp with ⟨x, hx, rfl⟩ | ⟨p, hp, rfl⟩ | hp
    · exact .inl ⟨x, List.mem_of_mem_eraseIdx hx, rfl⟩
    · rcases List.mem_append.mp hp with hnew | hwas
      · obtain ⟨t, _, hleaf⟩ := Option.bind_eq_some_iff.mp (Option.mem_toList.mp hnew)
        obtain ⟨leaf, _, rfl⟩ := Option.map_eq_some_iff.mp hleaf
        exact .inl ⟨entry, List.mem_of_getElem? hi, rfl⟩
      · exact .inr (.inl ⟨p, hwas, rfl⟩)
    · exact .inr (.inr hp)

lemma clear_observe (h : s.Clear) (i : ℕ) : (s.next (.observe i)).Clear := by
  cases hi : s.observing[i]? with
  | none => simpa only [Threads.next, hi] using h
  | some p =>
    simp only [Threads.next, hi]
    refine h.mono (fun uid hp => ?_) subset_rfl
    rcases hp with hp | ⟨p', hp', rfl⟩ | hp
    · exact .inl hp
    · exact .inr (.inl ⟨p', List.mem_of_mem_eraseIdx hp', rfl⟩)
    · exact .inr (.inr hp)

lemma clear_unbook_iff (h : s.Clear) (i : ℕ) :
    (s.next (.unbook i)).Clear ↔ s.Settled (.unbook i) := by
  cases hi : s.deleting[i]? with
  | none =>
    simp only [Threads.next, Threads.Settled, hi]
    exact iff_of_true h fun uid hnone => by cases hnone
  | some uid =>
    simp only [Threads.next, Threads.Settled, hi, Option.mem_def, Option.some.injEq, forall_eq']
    exact h.insert_iff (fun _ => Iff.rfl) rfl

lemma reseeds_snapshot {orders : Orders} (ho : Visits orders.tracked s.coord.tracked)
    (mgr : QueueManager V) (uid : String) :
    Threads.Reseeds uid (Rebuild.step s.coord orders (.published mgr)).2 ↔
      ∃ tp, s.coord.tracked.lookup uid = some tp ∧ (homeLeaf mgr tp).isSome = true := by
  constructor
  · rintro ⟨⟨u, tp⟩, hentry, rfl, hleaf⟩
    exact ⟨tp, (mem_entries_iff ho).mp (List.mem_filter.mp hentry).1, hleaf⟩
  · rintro ⟨tp, htp, hleaf⟩
    obtain ⟨leaf, hsome⟩ := Option.isSome_iff_exists.mp hleaf
    exact ⟨(uid, tp), List.mem_filter.mpr ⟨(mem_entries_iff ho).mpr htp, homeLeaf_mine hsome⟩, rfl,
      hleaf⟩

lemma reseeds_step {orders : Orders} {rebuild : Rebuild V}
    (hstage : ∀ mgr, rebuild ≠ .published mgr) {uid : String}
    (h : Threads.Reseeds uid (rebuild.step s.coord orders).2) : Threads.Reseeds uid rebuild := by
  cases rebuild with
  | idle =>
    cases hassemble : assemble s.coord.queues s.coord.quotas <;>
      simp [Rebuild.step, hassemble, Threads.Reseeds] at h
  | assembled mgr => exact absurd h id
  | published mgr => exact absurd rfl (hstage mgr)
  | reseeding mgr left =>
    cases left with
    | nil => exact absurd h id
    | cons entry left =>
      obtain ⟨x, hx, huid, hleaf⟩ := h
      exact ⟨x, List.mem_cons_of_mem _ hx, huid, hleaf⟩
  | restoring mgr left => cases left <;> exact absurd h id

lemma clear_rebuild_iff (h : s.Clear) {orders : Orders}
    (ho : s.rebuild.Ordered s.coord orders) :
    (s.next (.rebuild orders)).Clear ↔ s.Settled (.rebuild orders) := by
  have hclear : (s.next (.rebuild orders)).Clear ↔
      ∀ uid, Threads.Reseeds uid (s.rebuild.step s.coord orders).2 → uid ∉ s.released := by
    constructor
    · exact fun h' uid hre => h' uid (.inr (.inr hre))
    · rintro hre uid (hp | hp | hp)
      · exact h uid (.inl hp)
      · exact h uid (.inr (.inl hp))
      · exact hre uid hp
  rw [hclear, Threads.Settled]
  cases hstage : s.rebuild with
  | idle | assembled | reseeding | restoring =>
    refine iff_of_true (fun uid hre => h uid (.inr (.inr ?_))) trivial
    rw [hstage]
    exact reseeds_step (fun _ => by simp) hre
  | published mgr =>
    rw [hstage] at ho
    simp only [reseeds_snapshot ho]
    constructor
    · exact fun hx uid _ tp htp hleaf => hx uid ⟨tp, htp, hleaf⟩
    · rintro hx uid ⟨tp, htp, hleaf⟩
      exact hx uid (Finmap.mem_keys.mpr (Finmap.mem_of_lookup_eq_some htp)) tp htp hleaf

lemma mem_collected {order : List String} (ho : s.gc.Ordered s.coord order) (uid : String) :
    uid ∈ s.collected order ↔
      match s.gc with
      | .listedPods live => s.coord.engine.tree.isSome = true ∧ uid ∈ s.coord.engine.book.keys ∧
        uid ∉ live ∧ uid ∉ livePods s.coord.pods
      | _ => False := by
  unfold Threads.collected
  rw [Finset.mem_sdiff, Finset.mem_sdiff, Finmap.mem_keys, Finmap.mem_keys]
  cases hstage : s.gc with
  | idle | releasedBookings => simp [Gc.step]
  | listedGroups live => simp [Gc.step, gcGangs_book]
  | listedPods live =>
    rw [hstage] at ho
    simp only [Gc.step]
    rw [mem_book_gcBookings _ _ ho, Option.isSome_iff_ne_none]
    tauto

lemma clear_gc_iff (h : s.Clear) {order : List String} (ho : s.gc.Ordered s.coord order) :
    (s.next (.gc order)).Clear ↔ s.Settled (.gc order) := by
  have hclear : (s.next (.gc order)).Clear ↔ ∀ uid ∈ s.collected order, ¬ s.Pending uid := by
    constructor
    · exact fun h' uid hin hp => h' uid hp (Finset.mem_union_right _ hin)
    · intro hno uid hp hin
      rcases Finset.mem_union.mp hin with hold | hnew
      · exact h uid hp hold
      · exact hno uid hnew hp
  rw [hclear]
  simp only [mem_collected ho, Threads.Settled]
  cases s.gc with
  | idle | releasedBookings | listedGroups => exact iff_of_true (fun _ hin => hin.elim) trivial
  | listedPods live =>
    simp only [and_imp]
    exact ⟨fun hx htree uid hin hlive hstored => hx uid htree hin hlive hstored,
      fun hx uid htree hin hlive hstored => hx htree uid hin hlive hstored⟩

lemma clear_next_iff (h : s.Clear) {step : Step V} (henabled : s.Enabled step) :
    (s.next step).Clear ↔ s.Settled step := by
  cases step with
  | upsert pod => exact clear_upsert_iff h pod
  | route i => exact iff_of_true (clear_route h i) trivial
  | observe i => exact iff_of_true (clear_observe h i) trivial
  | delete pod => exact clear_delete_iff h pod
  | unbook i => exact clear_unbook_iff h i
  | rebuild orders => exact clear_rebuild_iff h henabled
  | gc order => exact clear_gc_iff h henabled
  | stores pods podGroups queues quotas => exact iff_of_true h trivial

end Pending

section Creation
variable {s : Threads V} {uid : String}

lemma delete_engine (s : Threads V) (pod : Pod V) :
    (s.delete pod).coord.engine = s.coord.engine := by
  unfold Threads.delete
  split <;> exact deleteSection_engine s.coord pod

lemma rebuild_creates {orders : Orders} (ho : s.rebuild.Ordered s.coord orders)
    (hin : uid ∈ (s.rebuild.step s.coord orders).1.engine.book) :
    uid ∈ s.coord.engine.book ∨ Threads.Reseeds uid s.rebuild := by
  cases hstage : s.rebuild with
  | idle =>
    rw [hstage, rebuild_step_idle] at hin
    exact .inl hin
  | assembled mgr =>
    rw [hstage] at ho hin
    obtain ⟨rec, hrec⟩ := Finmap.mem_iff.mp hin
    have hkept := (rebuild_book _ mgr _ ho.1 uid).symm.trans hrec
    exact .inl (Finmap.mem_of_lookup_eq_some (Option.filter_eq_some_iff.mp hkept).1)
  | published mgr =>
    rw [hstage] at hin
    exact .inl hin
  | reseeding mgr left =>
    rw [hstage] at hin
    cases left with
    | nil => exact .inl hin
    | cons entry left =>
      rcases (mem_book_bookTracked mgr s.coord.engine entry.1 entry.2 uid).mp hin with
        hold | ⟨rfl, t, leaf, _, hleaf, _⟩
      · exact .inl hold
      · exact .inr ⟨entry, List.mem_cons_self, rfl, by simp [hleaf]⟩
  | restoring mgr left =>
    rw [hstage] at hin
    cases left with
    | nil => exact .inl hin
    | cons pg left =>
      change uid ∈ (recoverGang mgr s.coord.engine pg).book at hin
      rw [recoverGang_book] at hin
      exact .inl hin

lemma gc_creates_nothing {order : List String} (ho : s.gc.Ordered s.coord order)
    (hin : uid ∈ (s.gc.step s.coord order).1.engine.book) : uid ∈ s.coord.engine.book := by
  cases hstage : s.gc with
  | idle | releasedBookings =>
    rw [hstage] at hin
    exact hin
  | listedPods live =>
    rw [hstage] at ho hin
    exact ((mem_book_gcBookings _ _ ho uid).mp hin).1
  | listedGroups live =>
    rw [hstage] at hin
    change uid ∈ (s.coord.engine.gcGangs live order).1.book at hin
    rwa [gcGangs_book] at hin

lemma creates_pending {step : Step V} (henabled : s.Enabled step)
    (hin : uid ∈ (s.next step).coord.engine.book) :
    uid ∈ s.coord.engine.book ∨ s.Pending uid := by
  cases step with
  | upsert pod =>
    have hengine : (s.next (.upsert pod)).coord.engine = s.coord.engine := by
      simp only [Threads.next]
      split_ifs
      · rfl
      · exact delete_engine s pod
      · exact upsertSection_engine s.coord pod
    rw [hengine] at hin
    exact .inl hin
  | route i =>
    left
    cases hi : s.tracking[i]? <;> simpa only [Threads.next, hi] using hin
  | observe i =>
    cases hi : s.observing[i]? with
    | none => exact .inl (by simpa only [Threads.next, hi] using hin)
    | some p =>
      simp only [Threads.next, hi] at hin
      rcases (mem_book_observeBound s.coord.engine p.uid p.leaf p.req uid).mp hin with
        hold | ⟨rfl, _⟩
      · exact .inl hold
      · exact .inr (.inr (.inl ⟨p, List.mem_of_getElem? hi, rfl⟩))
  | delete pod =>
    change uid ∈ (s.delete pod).coord.engine.book at hin
    rw [delete_engine] at hin
    exact .inl hin
  | unbook i =>
    cases hi : s.deleting[i]? with
    | none => exact .inl (by simpa only [Threads.next, hi] using hin)
    | some u =>
      simp only [Threads.next, hi] at hin
      exact .inl ((mem_book_observeDeleted s.coord.engine u uid).mp hin).2
  | rebuild orders =>
    exact (rebuild_creates henabled hin).imp id fun hre => .inr (.inr hre)
  | gc order => exact .inl (gc_creates_nothing henabled hin)
  | stores pods podGroups queues quotas => exact .inl hin

lemma mem_released_delete (hin : uid ∈ s.released) {pod : Pod V} (hne : pod.uid ≠ uid) :
    uid ∈ (s.delete pod).released := by
  unfold Threads.delete
  split
  · exact Finset.mem_insert_of_mem hin
  · exact Finset.mem_erase.mpr ⟨hne.symm, hin⟩

lemma mem_released_next (hin : uid ∈ s.released) {step : Step V} (hstep : step.pod? ≠ some uid) :
    uid ∈ (s.next step).released := by
  cases step with
  | upsert pod =>
    have hne : pod.uid ≠ uid := fun he => hstep (congrArg some he)
    have herase : uid ∈ s.released.erase pod.uid := Finset.mem_erase.mpr ⟨hne.symm, hin⟩
    simp only [Threads.next]
    split_ifs
    · exact herase
    · exact mem_released_delete hin hne
    · exact herase
  | route i => cases hi : s.tracking[i]? <;> simpa only [Threads.next, hi] using hin
  | observe i =>
    cases hi : s.observing[i]? with
    | none => simpa only [Threads.next, hi] using hin
    | some p =>
      simp only [Threads.next, hi]
      exact hin
  | delete pod => exact mem_released_delete hin fun he => hstep (congrArg some he)
  | unbook i =>
    cases hi : s.deleting[i]? with
    | none => simpa only [Threads.next, hi] using hin
    | some u =>
      simp only [Threads.next, hi]
      exact Finset.mem_insert_of_mem hin
  | rebuild orders => exact hin
  | gc order => exact Finset.mem_union_left _ hin
  | stores pods podGroups queues quotas => exact hin

end Creation

/-- In every interleaving whose steps meet the condition, once a pod is released no later step
books it, up to the next event of the pod. From each state of such a run, a step leaves no
booking of a released pod to come exactly when it meets the condition. -/
theorem released_pods_stay_released {c : Coordinator V} {before after : List (Step V)}
    {s t : Threads V} {uid : String}
    (h : Run (sections.restrict Threads.Settled) (start c) before s)
    (hreleased : uid ∈ s.released) (h' : Run (sections.restrict Threads.Settled) s after t)
    (hquiet : ∀ step ∈ after, step.pod? ≠ some uid) :
    uid ∈ t.released ∧ (uid ∈ t.coord.engine.book → uid ∈ s.coord.engine.book) ∧
      ∀ step, t.Enabled step → ((t.next step).Clear ↔ t.Settled step) := by
  have hs : s.Clear := by
    refine h.invariant (fun _ _ => Finset.notMem_empty _) fun r step hr henabled => ?_
    exact (clear_next_iff hr henabled.1).mpr henabled.2
  have hrun : (∀ step ∈ after, step.pod? ≠ some uid) →
      t.Clear ∧ uid ∈ t.released ∧ (uid ∈ t.coord.engine.book → uid ∈ s.coord.engine.book) := by
    refine h'.invariant_history (I := fun steps r => (∀ step ∈ steps, step.pod? ≠ some uid) →
      r.Clear ∧ uid ∈ r.released ∧ (uid ∈ r.coord.engine.book → uid ∈ s.coord.engine.book))
      (fun _ => ⟨hs, hreleased, id⟩) fun steps r step ih henabled hno => ?_
    obtain ⟨hclear, hrel, hbook⟩ := ih fun x hx => hno x (List.mem_append_left _ hx)
    refine ⟨(clear_next_iff hclear henabled.1).mpr henabled.2,
      mem_released_next hrel (hno step (by simp)), fun hin => ?_⟩
    rcases creates_pending henabled.1 hin with hold | hpending
    · exact hbook hold
    · exact absurd hrel (hclear uid hpending)
  obtain ⟨hclear, hrel, hbook⟩ := hrun hquiet
  exact ⟨hrel, hbook, fun step henabled => clear_next_iff hclear henabled⟩

end Machine

def oneQueue : Coordinator ℤ :=
  { newCoordinator (newEngine 60) with queues := [bareQueue "team" "jobs" 10 ["runner"]] }

def booked : List (Step ℤ) :=
  List.replicate 5 (.rebuild ⟨[], [], []⟩) ++ [.upsert (boundPod 2), .route 0, .observe 0]

/-- The pod is deleted after a rebuild has copied the tracked pods; or it is collected while it
is tracked, before a rebuild. The rebuild then books it. -/
theorem released_pod_booked_again :
    let overlap : List (Step ℤ) := [.rebuild ⟨[], [], []⟩, .rebuild ⟨["pod"], [], []⟩,
      .rebuild ⟨[], [], ["pod"]⟩, .delete (boundPod 2), .unbook 0]
    let missed : List (Step ℤ) := [.gc [], .gc ["pod"], .rebuild ⟨[], [], []⟩,
      .rebuild ⟨[], [], []⟩, .rebuild ⟨[], [], ["pod"]⟩]
    ∀ steps ∈ [overlap, missed],
      let s := (booked ++ steps).foldl Threads.next (start oneQueue)
      Run sections (start oneQueue) (booked ++ steps) s ∧ s.Enabled (.rebuild ⟨[], [], []⟩) ∧
        "pod" ∈ s.released ∧ "pod" ∉ s.coord.engine.book ∧
        "pod" ∈ (s.next (.rebuild ⟨[], [], []⟩)).coord.engine.book := by
  intro overlap missed
  have hlegal : ∀ steps ∈ [overlap, missed], sections.Legal (start oneQueue) (booked ++ steps) := by
    decide +kernel
  have hfacts : ∀ steps ∈ [overlap, missed],
      let s := (booked ++ steps).foldl Threads.next (start oneQueue)
      s.Enabled (.rebuild ⟨[], [], []⟩) ∧ "pod" ∈ s.released ∧ "pod" ∉ s.coord.engine.book ∧
        "pod" ∈ (s.next (.rebuild ⟨[], [], []⟩)).coord.engine.book := by decide +kernel
  intro steps hsteps s
  exact ⟨(hlegal steps hsteps).run, hfacts steps hsteps⟩

theorem deleted_pod_not_booked_again :
    let deletion : List (Step ℤ) := [.delete (boundPod 2), .unbook 0]
    let second : List (Step ℤ) := List.replicate 5 (.rebuild ⟨[], [], []⟩)
    let s := (booked ++ deletion).foldl Threads.next (start oneQueue)
    "pod" ∈ (booked.foldl Threads.next (start oneQueue)).coord.engine.book ∧ "pod" ∈ s.released ∧
      "pod" ∈ (second.foldl Threads.next s).released ∧
      "pod" ∉ (second.foldl Threads.next s).coord.engine.book := by
  intro deletion second s
  have hbefore : (sections.restrict Threads.Settled).Legal (start oneQueue)
      (booked ++ deletion) := by decide +kernel
  have hafter : (sections.restrict Threads.Settled).Legal s second := by decide +kernel
  have hreleased : "pod" ∈ s.released := by decide +kernel
  have hgone : "pod" ∉ s.coord.engine.book := by decide +kernel
  have hall := released_pods_stay_released hbefore.run hreleased hafter.run (by decide +kernel)
  exact ⟨by decide +kernel, hreleased, hall.1, fun hin => hgone (hall.2.1 hin)⟩

end AdScheduler.ReleasedPods
