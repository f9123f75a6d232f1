import AdScheduler.CoordinatorCore
import AdScheduler.LedgerTree

/-! What a full rebuild of the coordinator leaves in the ledger and in the tree, compared
with a recomputation from the tracked pods. -/
namespace AdScheduler.RebuildRecompute
open KeyedMap Resources QueueTree Manager Conservation EngineCore LedgerTree Requests Placement
open TreeAssembly CoordinatorCore Outcomes

variable {V : Type*} [CommRing V] [LinearOrder V]

/-- The engine has a live tree with the given queues, in agreement with its ledger. -/
structure Live (ix : Index V) (e : Engine V) : Prop where
  tree : ∃ t, e.tree = some t ∧ t.index = ix
  balanced : Balanced e

/-- What is left of a booking once its pod has been seen bound: it is committed where it
is, and a pod without one is booked on the given leaf. -/
def settle (leaf : String) (req : Resource V) : Option (BookRec V) → Option (BookRec V)
  | none => some ⟨.committed, leaf, req⟩
  | some rec => some { rec with state := .committed }

lemma observeBound_lookup {ix : Index V} {e : Engine V} (h : Live ix e) {uid leaf : String}
    (req : Resource V) (hin : leaf ∈ ix) :
    (e.observeBound uid leaf req).book.lookup uid = settle leaf req (e.book.lookup uid) := by
  obtain ⟨t, ht, rfl⟩ := h.tree
  rw [Engine.observeBound, ht]
  cases hrec : e.book.lookup uid with
  | none =>
    dsimp only
    rw [if_pos hin]
    exact Finmap.lookup_insert _
  | some rec =>
    obtain ⟨state, l, r⟩ := rec
    cases state with
    | reserved =>
      dsimp only
      rw [if_pos rfl]
      exact Finmap.lookup_insert _
    | committed =>
      dsimp only
      rw [if_neg (by simp), hrec]
      rfl

lemma observeBound_lookup_ne (e : Engine V) {uid leaf k : String} (req : Resource V)
    (hk : k ≠ uid) : (e.observeBound uid leaf req).book.lookup k = e.book.lookup k := by
  unfold Engine.observeBound
  repeat' split
  all_goals first
    | rfl
    | exact Finmap.lookup_insert_of_ne _ hk

lemma observeBound_live {ix : Index V} {e : Engine V} (h : Live ix e) (uid leaf : String)
    (req : Resource V) : Live ix (e.observeBound uid leaf req) := by
  refine ⟨?_, balanced_observeBound h.balanced uid leaf req⟩
  obtain ⟨t, ht, rfl⟩ := h.tree
  rw [Engine.observeBound, ht]
  cases e.book.lookup uid with
  | none =>
    dsimp only
    split_ifs
    · exact ⟨_, rfl, mutate_index _ _ _⟩
    · exact ⟨t, ht, rfl⟩
  | some rec =>
    dsimp only
    split_ifs
    · exact ⟨_, rfl, mutate_index _ _ _⟩
    · exact ⟨t, ht, rfl⟩

lemma bookTracked_live {mgr : QueueManager V} {e : Engine V} (h : Live mgr.index e)
    (entry : String × TrackedPod V) : Live mgr.index (bookTracked mgr e entry) := by
  rw [show bookTracked mgr e entry = _ from bookTracked_eq mgr e entry.1 entry.2]
  cases homeLeaf mgr entry.2 with
  | none => exact h
  | some leaf => exact observeBound_live h _ _ _

/-- What the reseed makes of the booking of a tracked pod. -/
def settleTracked (mgr : QueueManager V) (tp : TrackedPod V) (old : Option (BookRec V)) :
    Option (BookRec V) :=
  (homeLeaf mgr tp).elim old fun leaf => settle leaf tp.req old

lemma reseed_book {mgr : QueueManager V} {e : Engine V} (h : Live mgr.index e)
    (c : Coordinator V) {order : List String} (ho : Visits order c.tracked) (uid : String) :
    (c.reseedQueueAllocation mgr order e).book.lookup uid =
      (c.tracked.lookup uid).elim (e.book.lookup uid) fun tp =>
        settleTracked mgr tp (e.book.lookup uid) := by
  refine loop_lookup Engine.book (I := Live mgr.index) (fun _ entry hi => bookTracked_live hi entry)
    ?_ ?_ ho h uid
  · intro e uid tp hi
    rw [bookTracked_eq, settleTracked]
    cases hleaf : homeLeaf mgr tp with
    | none => rfl
    | some leaf =>
      exact observeBound_lookup hi tp.req (mem_index_of_isLeafPath (homeLeaf_isLeafPath hleaf))
  · intro e uid tp k _ hk
    rw [bookTracked_eq]
    cases homeLeaf mgr tp with
    | none => rfl
    | some leaf => exact observeBound_lookup_ne e tp.req hk

lemma recoverGang_live (mgr : QueueManager V) {e : Engine V} {ix : Index V} (h : Live ix e)
    (pg : PodGroup V) : Live ix (recoverGang mgr e pg) := by
  rcases recoverGang_cases mgr e pg with ⟨_, _, he⟩ | ⟨_, he⟩
  swap
  · rwa [he]
  rw [he]
  have hstep := admitGang_step e pg.reservedQueue pg.key (fromQuantityMap pg.reservedResources)
  have hbook := admitGang_book e pg.reservedQueue pg.key (fromQuantityMap pg.reservedResources)
  refine ⟨?_, balanced_admitStep h.balanced hbook hstep⟩
  obtain ⟨t, ht, rfl⟩ := h.tree
  exact hstep.tree_index ht

lemma recoverGangs_live (mgr : QueueManager V) {e : Engine V} {ix : Index V} (h : Live ix e)
    (c : Coordinator V) : Live ix (c.recoverGangs mgr e) :=
  List.foldlRecOn _ _ h fun _ hx pg _ => recoverGang_live mgr hx pg

/-- The booking of a pod that a rebuild carries over to the new tree. -/
def carried (c : Coordinator V) (mgr : QueueManager V) (uid : String) : Option (BookRec V) :=
  (c.engine.book.lookup uid).filter fun rec => decide (rec.leaf ∈ mgr.index)

/-- A whole rebuild: the new tree is live, agrees with the ledger, and the ledger holds
the carried bookings, settled for the tracked pods. -/
lemma rebuild_spec {c : Coordinator V} {mgr : QueueManager V}
    (h : assemble c.queues c.quotas = .ok mgr) {bookOrder : List String}
    (hbo : Visits bookOrder c.engine.book) (gangOrder : List String) {trackedOrder : List String}
    (hto : Visits trackedOrder c.tracked) :
    Live mgr.index (c.rebuild bookOrder gangOrder trackedOrder).engine ∧
    ∀ uid, (c.rebuild bookOrder gangOrder trackedOrder).engine.book.lookup uid =
      (c.tracked.lookup uid).elim (carried c mgr uid) fun tp =>
        settleTracked mgr tp (carried c mgr uid) := by
  obtain ⟨spec, hspec⟩ := assemble_newManager h
  have hlive : Live mgr.index (c.engine.rebuild mgr bookOrder gangOrder) :=
    ⟨rebuild_index _ _ _ _, balanced_rebuild _ (newManager_fresh hspec) _ hbo⟩
  have hseed : Live mgr.index (c.reseedQueueAllocation mgr trackedOrder
      (c.engine.rebuild mgr bookOrder gangOrder)) :=
    List.foldlRecOn _ _ hlive fun _ hi entry _ => bookTracked_live hi entry
  rw [Coordinator.rebuild, h]
  refine ⟨recoverGangs_live mgr hseed c, fun uid => ?_⟩
  dsimp only
  rw [Coordinator.recoverGangs_book, reseed_book hlive c hto, rebuild_book _ _ _ hbo]
  rfl

/-- The tracked pod is booked by the reseed if it is not booked yet. -/
def isRouted (c : Coordinator V) (mgr : QueueManager V) (uid : String) : Bool :=
  (c.tracked.lookup uid).any fun tp => (homeLeaf mgr tp).isSome

/-- The live tree and the ledger are what a recomputation from the tracked pods gives:
each leaf is allocated the requests of the pods that belong on it, and each such pod is
booked there. -/
structure Recomputed (c : Coordinator V) (e : Engine V) : Prop where
  allocated : ∀ t, e.tree = some t → ∀ l, t.isLeafPath l = true → ∀ d,
    get (t.usage l).allocated d =
      total c.tracked fun _ tp => if homeLeaf t tp = some l then get tp.req d else 0
  booked : ∀ t, e.tree = some t → ∀ uid tp leaf, c.tracked.lookup uid = some tp →
    homeLeaf t tp = some leaf →
    ∃ rec, e.book.lookup uid = some rec ∧ rec.state = .committed ∧ rec.leaf = leaf

/-- The bookings that the new tree takes over are up to date: that of a tracked pod is on
the leaf where the pod now belongs, and on each leaf the bookings that end up committed
sum to the requests of the tracked pods that have one. -/
structure BookingsCurrent (c : Coordinator V) (mgr : QueueManager V) : Prop where
  leaf : ∀ uid rec tp leaf, c.engine.book.lookup uid = some rec → rec.leaf ∈ mgr.index →
    c.tracked.lookup uid = some tp → homeLeaf mgr tp = some leaf → rec.leaf = leaf
  sums : ∀ l, mgr.isLeafPath l = true → ∀ d,
    total c.engine.book (fun uid rec =>
      if rec.leaf = l ∧ (rec.state = .committed ∨ isRouted c mgr uid = true) then get rec.req d
      else 0) =
    total c.tracked fun uid tp =>
      if homeLeaf mgr tp = some l ∧ (carried c mgr uid).isSome = true then get tp.req d else 0

lemma share_balance {c : Coordinator V} {mgr : QueueManager V} {l : String} (hl : l ∈ mgr.index)
    (uid d : String) :
    (((c.tracked.lookup uid).elim (carried c mgr uid) fun tp =>
        settleTracked mgr tp (carried c mgr uid)).elim 0 fun rec =>
      if rec.state = .committed ∧ rec.leaf = l then get rec.req d else 0) +
    ((c.tracked.lookup uid).elim 0 fun tp =>
      if homeLeaf mgr tp = some l ∧ (carried c mgr uid).isSome = true then get tp.req d else 0) =
    ((c.tracked.lookup uid).elim 0 fun tp =>
      if homeLeaf mgr tp = some l then get tp.req d else 0) +
    (c.engine.book.lookup uid).elim 0 fun rec =>
      if rec.leaf = l ∧ (rec.state = .committed ∨ isRouted c mgr uid = true) then get rec.req d
      else 0 := by
  unfold isRouted carried
  cases hbook : c.engine.book.lookup uid with
  | none =>
    cases htp : c.tracked.lookup uid with
    | none => simp
    | some tp => cases hleaf : homeLeaf mgr tp <;> simp [settleTracked, hleaf, settle]
  | some rec =>
    by_cases hin : rec.leaf ∈ mgr.index
    · cases htp : c.tracked.lookup uid with
      | none => simp [Option.filter, hin, and_comm]
      | some tp =>
        cases hleaf : homeLeaf mgr tp with
        | none => simp [Option.filter, hin, settleTracked, hleaf, and_comm]
        | some leaf => simp [Option.filter, hin, settleTracked, hleaf, settle, add_comm]
    · have hne : rec.leaf ≠ l := fun h => hin (h ▸ hl)
      cases htp : c.tracked.lookup uid with
      | none => simp [Option.filter, hin, hne]
      | some tp =>
        cases hleaf : homeLeaf mgr tp <;>
          simp [Option.filter, hin, hne, settleTracked, hleaf, settle]

lemma committed_balance {c : Coordinator V} {mgr : QueueManager V} {book : Map String (BookRec V)}
    (hbook : ∀ uid, book.lookup uid = (c.tracked.lookup uid).elim (carried c mgr uid) fun tp =>
      settleTracked mgr tp (carried c mgr uid))
    {l : String} (hl : mgr.isLeafPath l = true) (d : String) :
    total book (fun _ rec => if rec.state = .committed ∧ rec.leaf = l then get rec.req d else 0) +
      total c.tracked (fun uid tp =>
        if homeLeaf mgr tp = some l ∧ (carried c mgr uid).isSome = true then get tp.req d else 0) =
    total c.tracked (fun _ tp => if homeLeaf mgr tp = some l then get tp.req d else 0) +
      total c.engine.book fun uid rec =>
        if rec.leaf = l ∧ (rec.state = .committed ∨ isRouted c mgr uid = true) then get rec.req d
        else 0 := by
  -- all four sums run over the keys of the three maps together
  let keys := book.keys ∪ c.tracked.keys ∪ c.engine.book.keys
  have hfinal : book.keys ⊆ keys := fun k hk => by simp [keys, hk]
  have htracked : c.tracked.keys ⊆ keys := fun k hk => by simp [keys, hk]
  have hold : c.engine.book.keys ⊆ keys := fun k hk => by simp [keys, hk]
  rw [total_eq_sum hfinal, total_eq_sum htracked, total_eq_sum htracked, total_eq_sum hold,
    ← Finset.sum_add_distrib, ← Finset.sum_add_distrib]
  refine Finset.sum_congr rfl fun uid _ => ?_
  rw [hbook]
  exact share_balance (mem_index_of_isLeafPath hl) uid d

/-- A rebuild equals a recomputation from the tracked pods exactly when the bookings it
carries over are current; it never moves one of them. -/
theorem rebuild_recomputes_iff {c : Coordinator V} {mgr : QueueManager V}
    (h : assemble c.queues c.quotas = .ok mgr) {bookOrder gangOrder trackedOrder : List String}
    (hbo : Visits bookOrder c.engine.book) (hto : Visits trackedOrder c.tracked) :
    Recomputed c (c.rebuild bookOrder gangOrder trackedOrder).engine ↔ BookingsCurrent c mgr := by
  obtain ⟨hlive, hbook⟩ := rebuild_spec h hbo gangOrder hto
  generalize (c.rebuild bookOrder gangOrder trackedOrder).engine = e at hlive hbook ⊢
  obtain ⟨t, ht, hix⟩ := hlive.tree
  have hhome : ∀ tp, homeLeaf t tp = homeLeaf mgr tp := homeLeaf_congr hix
  constructor
  · rintro ⟨hall, hbooked⟩
    refine ⟨fun uid rec tp leaf hrec hin htp hleaf => ?_, fun l hl d => ?_⟩
    · obtain ⟨rec', hrec', -, hl⟩ := hbooked t ht uid tp leaf htp ((hhome tp).trans hleaf)
      rw [hbook, htp, carried, hrec] at hrec'
      simp only [Option.elim_some, settleTracked, hleaf, Option.filter, hin, decide_true, if_true,
        settle, Option.some.injEq] at hrec'
      rw [← hl, ← hrec']
    · have halloc := hall t ht l ((isLeafPath_congr hix l).trans hl) d
      simp only [hhome] at halloc
      have hbal := committed_balance hbook hl d
      rw [← (hlive.balanced t ht).leaf_allocated ((isLeafPath_congr hix l).trans hl),
        halloc] at hbal
      exact (add_left_cancel hbal).symm
  · rintro ⟨hleaf, hsums⟩
    refine ⟨fun t' ht' l hl d => ?_, fun t' ht' uid tp leaf htp hhomeLeaf => ?_⟩
    · cases ht.symm.trans ht'
      have hl' : mgr.isLeafPath l = true := (isLeafPath_congr hix l).symm.trans hl
      have hbal := committed_balance hbook hl' d
      rw [← (hlive.balanced t ht).leaf_allocated hl, hsums l hl' d] at hbal
      simp only [hhome]
      exact add_right_cancel hbal
    · cases ht.symm.trans ht'
      rw [hhome] at hhomeLeaf
      rw [hbook, htp]
      simp only [Option.elim_some, settleTracked, hhomeLeaf]
      cases hc : carried c mgr uid with
      | none => exact ⟨_, rfl, rfl, rfl⟩
      | some rec =>
        obtain ⟨hrec, hin⟩ := Option.filter_eq_some_iff.mp hc
        exact ⟨_, rfl, rfl, hleaf uid rec tp leaf hrec (of_decide_eq_true hin) htp hhomeLeaf⟩

/-- Pod by pod: a booking that is or gets committed belongs to a tracked pod with the same
request that belongs on the leaf it is booked on. -/
def Faithful (c : Coordinator V) (mgr : QueueManager V) : Prop :=
  ∀ uid rec, c.engine.book.lookup uid = some rec → rec.leaf ∈ mgr.index →
    (rec.state = .committed ∨ isRouted c mgr uid = true) →
    ∃ tp, c.tracked.lookup uid = some tp ∧ homeLeaf mgr tp = some rec.leaf ∧ tp.req = rec.req

lemma Faithful.current {c : Coordinator V} {mgr : QueueManager V} (h : Faithful c mgr) :
    BookingsCurrent c mgr := by
  refine ⟨fun uid rec tp leaf hrec hin htp hleaf => ?_, fun l hl d => ?_⟩
  · obtain ⟨tp', htp', hleaf', -⟩ := h uid rec hrec hin (.inr (by simp [isRouted, htp, hleaf]))
    cases htp.symm.trans htp'
    exact Option.some.inj (hleaf'.symm.trans hleaf)
  · obtain ⟨q, hq, _⟩ := (isLeafPath_iff mgr l).mp hl
    have hbook : c.engine.book.keys ⊆ c.engine.book.keys ∪ c.tracked.keys :=
      Finset.subset_union_left
    have htracked : c.tracked.keys ⊆ c.engine.book.keys ∪ c.tracked.keys :=
      Finset.subset_union_right
    rw [total_eq_sum hbook, total_eq_sum htracked]
    refine Finset.sum_congr rfl fun uid _ => ?_
    cases hrec : c.engine.book.lookup uid with
    | none => cases c.tracked.lookup uid <;> simp [carried, hrec]
    | some rec =>
      by_cases hin : rec.leaf ∈ mgr.index
      · by_cases hcomm : rec.state = .committed ∨ isRouted c mgr uid = true
        · obtain ⟨tp, htp, hleaf, hreq⟩ := h uid rec hrec hin hcomm
          simp [htp, hleaf, hreq, hcomm, carried, hrec, hin, Option.filter]
        · have hnone : ∀ tp, c.tracked.lookup uid = some tp → homeLeaf mgr tp ≠ some l :=
            fun tp htp hleaf => hcomm (.inr (by simp [isRouted, htp, hleaf]))
          cases htp : c.tracked.lookup uid with
          | none => simp [hcomm]
          | some tp => simp [hcomm, hnone tp htp]
      · have hne : rec.leaf ≠ l := fun he => hin (he ▸ Finmap.mem_of_lookup_eq_some hq)
        cases c.tracked.lookup uid <;> simp [hne, carried, hrec, hin, Option.filter]

def twoQueues (first second : List String) : List (QueueCR ℤ) :=
  [bareQueue "team" "a" 10 first, bareQueue "team" "b" 10 second]

def runnerOnFirst : Coordinator ℤ :=
  let start := { newCoordinator (newEngine 60) with queues := twoQueues ["runner"] [] }
  (start.rebuild [] [] []).onPodUpsert
    { barePod "pod" "team" "runner" 2 with nodeName := "node", phase := .running }

/-- The runner's service account moves to the second queue and the first one stays: the
pod remains booked on the first. -/
theorem moved_pod_stays_on_old_leaf :
    let c := { runnerOnFirst with queues := twoQueues ["other"] ["runner"] }
    let e := (c.rebuild ["pod"] [] ["pod"]).engine
    ∃ t tp, e.tree = some t ∧ c.tracked.lookup "pod" = some tp ∧
      homeLeaf t tp = some "root.team.b" ∧
      get (t.usage "root.team.a").allocated "cpu" = 2 ∧
      get (t.usage "root.team.b").allocated "cpu" = 0 ∧
      (e.book.lookup "pod").map BookRec.leaf = some "root.team.a" ∧ ¬ Recomputed c e := by
  intro c e
  have hfacts : (e.tree.elim false fun t => (c.tracked.lookup "pod").elim false fun tp =>
      decide (homeLeaf t tp = some "root.team.b" ∧
        get (t.usage "root.team.a").allocated "cpu" = 2 ∧
        get (t.usage "root.team.b").allocated "cpu" = 0 ∧
        (e.book.lookup "pod").map BookRec.leaf = some "root.team.a")) = true := by decide +kernel
  cases ht : e.tree with
  | none => simp [ht] at hfacts
  | some t =>
    cases htp : c.tracked.lookup "pod" with
    | none => simp [ht, htp] at hfacts
    | some tp =>
      rw [ht, htp, Option.elim_some, Option.elim_some, decide_eq_true_eq] at hfacts
      obtain ⟨hleaf, ha, hb, hbook⟩ := hfacts
      refine ⟨t, tp, rfl, rfl, hleaf, ha, hb, hbook, fun h => ?_⟩
      obtain ⟨rec, hrec, -, hl⟩ := h.booked t ht "pod" tp _ htp hleaf
      rw [hrec, Option.map_some, hl] at hbook
      exact absurd (Option.some.inj hbook) (by decide)

theorem unmoved_pod_recomputed :
    let c := { runnerOnFirst with queues := twoQueues ["runner"] ["other"] }
    ∃ mgr, assemble c.queues c.quotas = .ok mgr ∧ Faithful c mgr ∧
      Recomputed c (c.rebuild ["pod"] [] ["pod"]).engine := by
  intro c
  obtain ⟨mgr, hm, hfacts⟩ : ∃ mgr, assemble c.queues c.quotas = .ok mgr ∧
      ((c.engine.book.lookup "pod").elim false fun rec =>
        (c.tracked.lookup "pod").elim false fun tp =>
          decide (c.engine.book.keys = {"pod"} ∧ homeLeaf mgr tp = some rec.leaf ∧
            tp.req = rec.req)) = true := exists_ok_of_any (by decide +kernel)
  have hfaithful : Faithful c mgr := by
    intro uid rec hrec _ _
    have hkey := Finmap.mem_keys.mpr (Finmap.mem_of_lookup_eq_some hrec)
    cases hpod : c.engine.book.lookup "pod" with
    | none => simp [hpod] at hfacts
    | some rec' =>
      cases htp : c.tracked.lookup "pod" with
      | none => simp [hpod, htp] at hfacts
      | some tp =>
        simp only [hpod, htp, Option.elim_some, decide_eq_true_eq] at hfacts
        obtain ⟨hkeys, hleaf, hreq⟩ := hfacts
        rw [hkeys, Finset.mem_singleton] at hkey
        subst hkey
        cases hpod.symm.trans hrec
        exact ⟨tp, htp, hleaf, hreq⟩
  exact ⟨mgr, hm, hfaithful, (rebuild_recomputes_iff hm (by decide +kernel)
    (by decide +kernel)).mpr hfaithful.current⟩

end AdScheduler.RebuildRecompute
