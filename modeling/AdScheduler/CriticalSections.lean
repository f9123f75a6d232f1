import AdScheduler.BookingPaths

/-! The loops and the pod handlers of the coordinator cut into their critical sections. No lock
is held from one section to the next, so that other goroutines may run in between; what a loop
has read so far is kept in the stage it has reached. -/
namespace AdScheduler.CriticalSections
open KeyedMap Manager EngineCore Requests TreeAssembly CoordinatorCore
open BookingPaths (Posting)

variable {V : Type*} [CommRing V] [LinearOrder V]

section Collection

/-- The pods of the store that still hold their bookings. -/
def livePods (pods : List (Pod V)) : Finset String :=
  ((pods.filter fun p => !p.terminal).map Pod.uid).toFinset

def liveGroups (groups : List (PodGroup V)) : Finset String := (groups.map PodGroup.key).toFinset

/-- How far a pass over the ledgers has come, with what it has listed. -/
inductive Gc
  | idle
  | listedPods (live : Finset String)
  | releasedBookings
  | listedGroups (live : Finset String)

/-- The next section of `gcStaleLedgers`; the order is that of the ledger's map. -/
def Gc.step (c : Coordinator V) (order : List String) : Gc → Coordinator V × Gc
  | .idle => (c, .listedPods (livePods c.pods))
  | .listedPods live => ({ c with engine := (c.engine.gcBookings live order).1 }, .releasedBookings)
  | .releasedBookings => (c, .listedGroups (liveGroups c.podGroups))
  | .listedGroups live => ({ c with engine := (c.engine.gcGangs live order).1 }, .idle)

/-- The loop visits every entry of the ledger it works on. -/
def Gc.Ordered (c : Coordinator V) (order : List String) : Gc → Prop
  | .listedPods _ => Visits order c.engine.book
  | .listedGroups _ => Visits order c.engine.gangBook
  | _ => True

instance (c : Coordinator V) (order : List String) : ∀ gc : Gc, Decidable (gc.Ordered c order)
  | .listedPods _ => inferInstanceAs (Decidable (Visits order c.engine.book))
  | .listedGroups _ => inferInstanceAs (Decidable (Visits order c.engine.gangBook))
  | .idle | .releasedBookings => inferInstanceAs (Decidable True)

/-- Four sections in a row are one pass. -/
theorem gcStaleLedgers_sections (c : Coordinator V) (bookOrder gangOrder o o' : List String) :
    let listed := Gc.idle.step c o
    let released := listed.2.step listed.1 bookOrder
    let groups := released.2.step released.1 o'
    groups.2.step groups.1 gangOrder = (c.gcStaleLedgers bookOrder gangOrder, .idle) :=
  rfl

end Collection

section Rebuilding

/-- How far a rebuild has come: its tree is assembled, or live, or its snapshot of the tracked
pods or its listing of the pod groups is taken and some of them are still to be booked. -/
inductive Rebuild (V : Type*) [CommRing V] [LinearOrder V]
  | idle
  | assembled (mgr : QueueManager V)
  | published (mgr : QueueManager V)
  | reseeding (mgr : QueueManager V) (left : List (String × TrackedPod V))
  | restoring (mgr : QueueManager V) (left : List (PodGroup V))

/-- The orders in which the loops of a rebuild visit their maps. -/
structure Orders where
  book : List String
  gang : List String
  tracked : List String

def Rebuild.step (c : Coordinator V) (orders : Orders) : Rebuild V → Coordinator V × Rebuild V
  | .idle =>
    match assemble c.queues c.quotas with
    | .error _ => (c, .idle)
    | .ok mgr => (c, .assembled mgr)
  | .assembled mgr =>
    ({ c with engine := c.engine.rebuild mgr orders.book orders.gang }, .published mgr)
  | .published mgr =>
    (c, .reseeding mgr ((entries orders.tracked c.tracked).filter fun entry =>
      entry.2.ours && !entry.2.gang))
  | .reseeding mgr (entry :: left) =>
    ({ c with engine := bookTracked mgr c.engine entry }, .reseeding mgr left)
  | .reseeding mgr [] => (c, .restoring mgr c.podGroups)
  | .restoring mgr (pg :: left) =>
    ({ c with engine := recoverGang mgr c.engine pg }, .restoring mgr left)
  | .restoring _ [] => (c, .idle)

lemma rebuild_step_idle (c : Coordinator V) (orders : Orders) :
    (Rebuild.idle.step c orders).1 = c := by
  cases h : assemble c.queues c.quotas <;> simp [Rebuild.step, h]

def Rebuild.Ordered (c : Coordinator V) (orders : Orders) : Rebuild V → Prop
  | .assembled _ => Visits orders.book c.engine.book ∧ Visits orders.gang c.engine.gangBook
  | .published _ => Visits orders.tracked c.tracked
  | .idle | .reseeding _ _ | .restoring _ _ => True

instance (c : Coordinator V) (orders : Orders) :
    ∀ rebuild : Rebuild V, Decidable (rebuild.Ordered c orders)
  | .assembled _ => inferInstanceAs
    (Decidable (Visits orders.book c.engine.book ∧ Visits orders.gang c.engine.gangBook))
  | .published _ => inferInstanceAs (Decidable (Visits orders.tracked c.tracked))
  | .idle | .reseeding _ _ | .restoring _ _ => inferInstanceAs (Decidable True)

lemma reseed_sections (orders : Orders) (mgr : QueueManager V) (left : List (String × TrackedPod V))
    (c : Coordinator V) :
    (fun p : Coordinator V × Rebuild V => p.2.step p.1 orders)^[left.length]
        (c, .reseeding mgr left) =
      ({ c with engine := left.foldl (bookTracked mgr) c.engine }, .reseeding mgr []) := by
  induction left generalizing c with
  | nil => rfl
  | cons entry left ih =>
    rw [List.length_cons, Function.iterate_succ_apply]
    exact ih { c with engine := bookTracked mgr c.engine entry }

lemma restore_sections (orders : Orders) (mgr : QueueManager V) (left : List (PodGroup V))
    (c : Coordinator V) :
    (fun p : Coordinator V × Rebuild V => p.2.step p.1 orders)^[left.length + 1]
        (c, .restoring mgr left) =
      ({ c with engine := left.foldl (recoverGang mgr) c.engine }, .idle) := by
  induction left generalizing c with
  | nil => rfl
  | cons pg left ih =>
    rw [List.length_cons, Function.iterate_succ_apply]
    exact ih { c with engine := recoverGang mgr c.engine pg }

lemma foldl_bookTracked_filter (mgr : QueueManager V) (l : List (String × TrackedPod V))
    (e : Engine V) :
    (l.filter fun entry => entry.2.ours && !entry.2.gang).foldl (bookTracked mgr) e =
      l.foldl (bookTracked mgr) e := by
  induction l generalizing e with
  | nil => rfl
  | cons entry l ih =>
    cases hmine : entry.2.ours && !entry.2.gang with
    | true => rw [List.filter_cons, if_pos hmine, List.foldl_cons, List.foldl_cons, ih]
    | false =>
      have hskip : bookTracked mgr e entry = e := by simp [bookTracked, hmine]
      rw [List.filter_cons, if_neg (by simp [hmine]), List.foldl_cons, ih, hskip]

/-- The sections of a rebuild in a row are a rebuild. -/
theorem rebuild_sections {c : Coordinator V} {mgr : QueueManager V}
    (h : assemble c.queues c.quotas = .ok mgr) (orders : Orders) :
    ∃ n, (fun p : Coordinator V × Rebuild V => p.2.step p.1 orders)^[n] (c, .idle) =
      (c.rebuild orders.book orders.gang orders.tracked, .idle) := by
  let published : Coordinator V :=
    { c with engine := c.engine.rebuild mgr orders.book orders.gang }
  let left := (entries orders.tracked c.tracked).filter fun entry => entry.2.ours && !entry.2.gang
  let reseeded : Coordinator V :=
    { published with engine := left.foldl (bookTracked mgr) published.engine }
  have hstart : (fun p : Coordinator V × Rebuild V => p.2.step p.1 orders)^[3] (c, .idle) =
      (published, .reseeding mgr left) := by
    simp only [Function.iterate_succ_apply, Function.iterate_zero, id, Rebuild.step, h]
    rfl
  have hlist : (fun p : Coordinator V × Rebuild V => p.2.step p.1 orders)^[1]
      (reseeded, .reseeding mgr []) = (reseeded, .restoring mgr c.podGroups) := rfl
  refine ⟨(c.podGroups.length + 1) + (1 + (left.length + 3)), ?_⟩
  rw [Function.iterate_add_apply _ (c.podGroups.length + 1), Function.iterate_add_apply _ 1,
    Function.iterate_add_apply _ left.length, hstart, reseed_sections, hlist, restore_sections,
    Coordinator.rebuild, h]
  dsimp only [reseeded, published, left]
  rw [foldl_bookTracked_filter]
  rfl

end Rebuilding

section Handlers
variable (c : Coordinator V)

/-- `onPodUpsert` of a bound pod that runs, up to its unlock: the pod is tracked unless it is
already. What is returned is still to be booked. -/
def upsertSection (pod : Pod V) : Coordinator V × Option (String × TrackedPod V) :=
  if pod.uid ∈ c.tracked then (c, none)
  else
    let tp := c.track pod
    ({ c with tracked := c.tracked.insert pod.uid tp, cache := c.cache.onPodBound pod },
      if tp.ours && !tp.gang then some (pod.uid, tp) else none)

/-- The handler reads the live tree and finds the pod's leaf in it. -/
def routeSection (entry : String × TrackedPod V) : Option (Posting V) :=
  c.engine.tree.bind fun t => (homeLeaf t entry.2).map fun leaf => ⟨entry.1, leaf, entry.2.req⟩

def observed (e : Engine V) (p : Posting V) : Engine V := e.observeBound p.uid p.leaf p.req

/-- `onPodDelete` up to its unlock: the pod is not tracked any more. What is returned is still
to be released. -/
def deleteSection (pod : Pod V) : Coordinator V × Option String :=
  match c.tracked.lookup pod.uid with
  | none => (c, none)
  | some tp =>
    ({ c with tracked := c.tracked.erase pod.uid, cache := c.cache.onPodDeleted pod },
      if tp.ours && !tp.gang then some pod.uid else none)

lemma upsertSection_engine (pod : Pod V) : (upsertSection c pod).1.engine = c.engine := by
  unfold upsertSection
  split_ifs <;> rfl

lemma deleteSection_engine (pod : Pod V) : (deleteSection c pod).1.engine = c.engine := by
  unfold deleteSection
  split <;> rfl

lemma upsertSection_uid {pod : Pod V} {entry : String × TrackedPod V}
    (h : (upsertSection c pod).2 = some entry) : entry.1 = pod.uid := by
  by_cases hin : pod.uid ∈ c.tracked
  · simp [upsertSection, hin] at h
  · simp only [upsertSection, if_neg hin, Option.ite_none_right_eq_some, Option.some.injEq] at h
    rw [← h.2]

lemma deleteSection_eq_none (pod : Pod V) : (deleteSection c pod).2 = none ↔
    ∀ tp ∈ c.tracked.lookup pod.uid, (tp.ours && !tp.gang) = false := by
  unfold deleteSection
  cases c.tracked.lookup pod.uid with
  | none => simp
  | some tp =>
    simp only [Option.mem_def, Option.some.injEq, forall_eq']
    cases tp.ours && !tp.gang <;> simp

/-- The sections of an update in a row are the update. -/
theorem onPodUpsert_sections {pod : Pod V} (hnode : pod.nodeName ≠ "")
    (hrun : pod.terminal = false) :
    c.onPodUpsert pod =
      let tracked := upsertSection c pod
      { tracked.1 with
        engine := (tracked.2.bind (routeSection tracked.1)).elim tracked.1.engine
          (observed tracked.1.engine) } := by
  by_cases hin : pod.uid ∈ c.tracked
  · rw [Coordinator.onPodUpsert, if_neg hnode, hrun, if_neg Bool.false_ne_true, if_pos hin]
    simp [upsertSection, hin]
  · rw [Coordinator.onPodUpsert_new c hnode hrun hin]
    simp only [upsertSection, if_neg hin]
    congr 1
    cases ht : c.engine.tree with
    | none => split_ifs <;> simp [routeSection, ht]
    | some t =>
      rw [Option.elim_some, bookTracked_eq]
      split_ifs with hmine
      · cases hleaf : homeLeaf t (c.track pod) <;> simp [routeSection, ht, hleaf, observed]
      · rw [homeLeaf, if_neg hmine]
        rfl

/-- The two sections of a deletion in a row are the deletion. -/
theorem onPodDelete_sections (pod : Pod V) :
    c.onPodDelete pod =
      let untracked := deleteSection c pod
      { untracked.1 with
        engine := untracked.2.elim untracked.1.engine untracked.1.engine.observeDeleted } := by
  unfold Coordinator.onPodDelete deleteSection
  cases c.tracked.lookup pod.uid with
  | none => rfl
  | some tp =>
    dsimp only
    split_ifs <;> rfl

end Handlers

end AdScheduler.CriticalSections
