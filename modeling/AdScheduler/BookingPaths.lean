import AdScheduler.LedgerTree
import AdScheduler.Plugins

/-! The two ways in which a pod comes to be booked: through a scheduling cycle of this
process, and through the informers of a process that starts up when the pod is already
bound. -/
namespace AdScheduler.BookingPaths
open KeyedMap Resources QueueTree TreeShape Manager Conservation EngineCore LedgerTree Runs
open Requests NodeCache Placement CoordinatorCore Plugins Outcomes

variable {V : Type*} [CommRing V] [LinearOrder V]

structure Posting (V : Type*) where
  uid : String
  leaf : String
  req : Resource V

/-- The engine with one more committed pod, whose request every queue above its leaf
carries. -/
structure Booked (e : Engine V) (x : Posting V) (e' : Engine V) : Prop where
  book : e'.book = e.book.insert x.uid ⟨.committed, x.leaf, x.req⟩
  tree : ∀ t, e.tree = some t → ∃ t', e'.tree = some t' ∧ t'.index = t.index ∧
    ∀ n d, get (t'.used n) d =
      get (t.used n) d + if Charges t.index x.leaf n then get x.req d else 0

lemma booked_cycle {e : Engine V} {t : QueueManager V} {uid leaf : String} (req : Resource V)
    (hnew : e.book.lookup uid = none) (ht : e.tree = some t) (hl : t.isLeafPath leaf = true) :
    Booked e ⟨uid, leaf, req⟩ ((e.reserve uid leaf req).commit uid) := by
  rw [reserve_booked req hnew ht hl, Engine.commit]
  simp only [Finmap.lookup_insert, ne_eq, not_true_eq_false, if_false, Option.map_some]
  refine ⟨?_, fun t₀ ht₀ => ⟨_, rfl, ?_, fun n d => ?_⟩⟩
  · exact Finmap.insert_insert _
  · cases ht.symm.trans ht₀
    exact mutate_index _ _ _
  · cases ht.symm.trans ht₀
    have hwalk : t.walkUp leaf (Usage.reserve req) = (t.mutate leaf (Usage.reserve req)).1 := by
      rcases mutate_cases t leaf (Usage.reserve req) with ⟨_, h⟩ | ⟨hl', _⟩
      · rw [h]
      · rw [hl] at hl'
        cases hl'
    rw [QueueManager.commit, mutate_used (moves_commit req), hwalk, mutate_used (moves_reserve req)]
    simp [usedHom]

lemma booked_observeBound {e : Engine V} {t : QueueManager V} {uid leaf : String}
    (req : Resource V) (hnew : e.book.lookup uid = none) (ht : e.tree = some t)
    (hl : t.isLeafPath leaf = true) :
    Booked e ⟨uid, leaf, req⟩ (e.observeBound uid leaf req) := by
  have hin : leaf ∈ t.index := mem_index_of_isLeafPath hl
  rw [Engine.observeBound, ht, hnew]
  dsimp only
  rw [if_pos hin]
  refine ⟨rfl, fun t₀ ht₀ => ⟨_, rfl, ?_, fun n d => ?_⟩⟩
  · cases ht.symm.trans ht₀
    exact mutate_index _ _ _
  · cases ht.symm.trans ht₀
    rw [QueueManager.allocate, mutate_used (moves_allocate req)]
    simp [usedHom]

inductive BookedAll (e : Engine V) : List (Posting V) → Engine V → Prop
  | nil : BookedAll e [] e
  | snoc {xs : List (Posting V)} {x : Posting V} {e' e'' : Engine V} (prior : BookedAll e xs e')
      (step : Booked e' x e'') : BookedAll e (xs ++ [x]) e''

lemma BookedAll.lookup {e e' : Engine V} {xs : List (Posting V)} (h : BookedAll e xs e')
    (hd : (xs.map Posting.uid).Nodup) {x : Posting V} (hx : x ∈ xs) :
    e'.book.lookup x.uid = some ⟨.committed, x.leaf, x.req⟩ := by
  induction h with
  | nil => cases hx
  | @snoc xs y _ _ _ step ih =>
    rw [List.map_append, List.nodup_append] at hd
    rw [step.book, lookup_insert_ite]
    rcases List.mem_append.mp hx with hx | hx
    · have hne : x.uid ≠ y.uid := hd.2.2 _ (List.mem_map_of_mem hx) _ (by simp)
      rw [if_neg hne]
      exact ih hd.1 hx
    · rw [List.mem_singleton.mp hx, if_pos rfl]

lemma BookedAll.lookup_other {e e' : Engine V} {xs : List (Posting V)} (h : BookedAll e xs e')
    {uid : String} (hu : uid ∉ xs.map Posting.uid) : e'.book.lookup uid = e.book.lookup uid := by
  induction h with
  | nil => rfl
  | snoc _ step ih =>
    rw [List.map_append, List.mem_append, not_or] at hu
    rw [step.book, lookup_insert_ite, if_neg (by simpa using hu.2)]
    exact ih hu.1

lemma BookedAll.tree {e e' : Engine V} {xs : List (Posting V)} (h : BookedAll e xs e')
    {t : QueueManager V} (ht : e.tree = some t) :
    ∃ t', e'.tree = some t' ∧ t'.index = t.index ∧ ∀ n d, get (t'.used n) d = get (t.used n) d +
      (xs.map fun x => if Charges t.index x.leaf n then get x.req d else 0).sum := by
  induction h with
  | nil => exact ⟨t, ht, rfl, by simp⟩
  | snoc _ step ih =>
    obtain ⟨t₁, ht₁, hix₁, hu₁⟩ := ih
    obtain ⟨t₂, ht₂, hix₂, hu₂⟩ := step.tree t₁ ht₁
    refine ⟨t₂, ht₂, hix₂.trans hix₁, fun n d => ?_⟩
    rw [hu₂, hu₁, hix₁, List.map_append, List.sum_append, ← add_assoc]
    simp

/-- A scheduling cycle: the pod, the store of the pod informer at that moment, and the
state PreFilter leaves. -/
structure Cycle (V : Type*) where
  pod : Pod V
  store : List (Pod V)
  state : PreFilterState V

/-- This process at work: pods of ours that are not gang members pass PreFilter, are
reserved and committed. -/
def cycles (cap : Capacity V) : Machine (Coordinator V) (Cycle V) where
  enabled c x :=
    cap.preFilter { c with pods := x.store } x.pod = .ok x.state ∧ x.pod.gang = false ∧
      c.cache.isOurs x.pod = true ∧ x.pod.uid ∉ c.engine.book
  next c x := Capacity.postBind (Capacity.reserve c (some x.state) x.pod).1 (some x.state) x.pod

def Cycle.posting (x : Cycle V) : Posting V := ⟨x.pod.uid, x.state.leaf, x.state.req⟩

/-- What is known of a pod that went through a cycle on a tree with the given queues. -/
structure Scheduled (cap : Capacity V) (name : String) (t : QueueManager V) (x : Cycle V) :
    Prop where
  leaf : resolve t x.pod.placementKey = .ok x.state.leaf
  req : cap.request x.pod = .ok x.state.req
  single : x.pod.gang = false
  ours : x.pod.schedulerName = name

lemma cycles_step {cap : Capacity V} {c : Coordinator V} {x : Cycle V} {t : QueueManager V}
    (h : (cycles cap).enabled c x) (ht : c.engine.tree = some t) :
    Booked c.engine x.posting ((cycles cap).next c x).engine ∧
      ((cycles cap).next c x).cache = c.cache ∧ Scheduled cap c.cache.schedulerName t x := by
  obtain ⟨hpass, hsingle, hours, hnew⟩ := h
  obtain ⟨t', hp⟩ := Capacity.preFilter_ok hpass
  cases ht.symm.trans hp.tree
  have hg : x.state.gang = false := hp.gang.trans hsingle
  refine ⟨?_, ?_, hp.leaf, hp.req, hsingle, by simpa [Cache.isOurs] using hours⟩
  · simpa [cycles, Capacity.reserve, Capacity.postBind, hg, Cycle.posting] using
      booked_cycle x.state.req (Finmap.lookup_eq_none.mpr hnew) ht (resolve_isLeafPath hp.leaf)
  · simp [cycles, Capacity.reserve, Capacity.postBind, hg]

lemma cycles_run {cap : Capacity V} {c c' : Coordinator V} {xs : List (Cycle V)}
    (h : Run (cycles cap) c xs c') {t : QueueManager V} (ht : c.engine.tree = some t) :
    BookedAll c.engine (xs.map Cycle.posting) c'.engine ∧ c'.cache = c.cache ∧
      (xs.map fun x => x.pod.uid).Nodup ∧ ∀ x ∈ xs, Scheduled cap c.cache.schedulerName t x := by
  induction h with
  | nil => exact ⟨.nil, rfl, List.nodup_nil, by simp⟩
  | @snoc xs c₁ x _ hen ih =>
    obtain ⟨hall, hcache, hnodup, hsched⟩ := ih
    obtain ⟨t₁, ht₁, hix, -⟩ := hall.tree ht
    obtain ⟨hstep, hcache₁, hx⟩ := cycles_step hen ht₁
    have hx' : Scheduled cap c.cache.schedulerName t x :=
      ⟨(resolve_congr hix _).symm.trans hx.leaf, hx.req, hx.single, hcache ▸ hx.ours⟩
    refine ⟨?_, hcache₁.trans hcache, ?_, ?_⟩
    · rw [List.map_append]
      exact hall.snoc hstep
    · rw [List.map_append, List.nodup_append]
      refine ⟨hnodup, List.nodup_singleton _, fun a ha b hb => ?_⟩
      obtain ⟨y, hy, rfl⟩ := List.mem_map.mp ha
      rw [List.mem_singleton.mp hb]
      intro (heq : y.pod.uid = x.pod.uid)
      -- an earlier cycle has booked its pod, so the same pod is not new
      have hmem := hall.lookup (by simpa [Function.comp_def, Cycle.posting] using hnodup)
        (List.mem_map_of_mem hy)
      exact hen.2.2.2 (heq ▸ Finmap.mem_of_lookup_eq_some hmem)
    · intro y hy
      rcases List.mem_append.mp hy with hy | hy
      · exact hsched y hy
      · rw [List.mem_singleton.mp hy]
        exact hx'

/-- The pod as it is stored once it runs on a node. -/
def bind (node : String) (pod : Pod V) : Pod V := { pod with nodeName := node, phase := .running }

/-- What a process of the given scheduler name remembers of a bound pod. -/
def trackAs (name : String) (pod : Pod V) : TrackedPod V :=
  ⟨decide (pod.schedulerName = name), pod.gang, pod.placementKey, effectiveRequest pod⟩

/-- The booking of a tracked pod on the leaf it belongs on. -/
def trackedPosting (t : QueueManager V) (entry : String × TrackedPod V) : Posting V :=
  ⟨entry.1, (homeLeaf t entry.2).getD "", entry.2.req⟩

lemma bookTracked_booked {e : Engine V} {t mgr : QueueManager V} {entry : String × TrackedPod V}
    (h : (homeLeaf mgr entry.2).isSome = true) (ht : e.tree = some t) (hix : t.index = mgr.index)
    (hnew : entry.1 ∉ e.book) : Booked e (trackedPosting mgr entry) (bookTracked mgr e entry) := by
  obtain ⟨leaf, hleaf⟩ := Option.isSome_iff_exists.mp h
  have hl : t.isLeafPath leaf = true :=
    homeLeaf_isLeafPath ((homeLeaf_congr hix entry.2).trans hleaf)
  rw [trackedPosting, show bookTracked mgr e entry = _ from bookTracked_eq mgr e entry.1 entry.2,
    hleaf]
  exact booked_observeBound _ (Finmap.lookup_eq_none.mpr hnew) ht hl

lemma bookTracked_all {e : Engine V} {t mgr : QueueManager V} (ht : e.tree = some t)
    (hix : t.index = mgr.index) {l : List (String × TrackedPod V)} (hd : (l.map Prod.fst).Nodup)
    (hl : ∀ entry ∈ l, (homeLeaf mgr entry.2).isSome = true ∧ entry.1 ∉ e.book) :
    BookedAll e (l.map (trackedPosting mgr)) (l.foldl (bookTracked mgr) e) := by
  induction l using List.reverseRecOn with
  | nil => exact .nil
  | append_singleton l entry ih =>
    rw [List.map_append, List.nodup_append] at hd
    have hprior := ih hd.1 fun x hx => hl x (List.mem_append_left _ hx)
    obtain ⟨t₁, ht₁, hix₁, -⟩ := hprior.tree ht
    obtain ⟨hb, hnew⟩ := hl entry (by simp)
    have hfresh : entry.1 ∉ (l.map (trackedPosting mgr)).map Posting.uid := by
      intro hmem
      rw [List.map_map] at hmem
      exact hd.2.2 _ hmem _ (by simp) rfl
    have hnew₁ : entry.1 ∉ (l.foldl (bookTracked mgr) e).book := by
      rw [← Finmap.lookup_eq_none, hprior.lookup_other hfresh, Finmap.lookup_eq_none]
      exact hnew
    rw [List.map_append, List.foldl_append]
    exact hprior.snoc (bookTracked_booked hb ht₁ (hix₁.trans hix) hnew₁)

/-- Pods that the informer delivers for the first time, each one running on a node. -/
structure Delivered (c : Coordinator V) (pods : List (Pod V)) : Prop where
  bound : ∀ p ∈ pods, p.nodeName ≠ "" ∧ p.terminal = false
  new : ∀ p ∈ pods, p.uid ∉ c.tracked
  nodup : (pods.map Pod.uid).Nodup

lemma Delivered.init {c : Coordinator V} {pods : List (Pod V)} {p : Pod V}
    (h : Delivered c (pods ++ [p])) : Delivered c pods where
  bound x hx := h.bound x (List.mem_append_left _ hx)
  new x hx := h.new x (List.mem_append_left _ hx)
  nodup := by
    have hd := h.nodup
    rw [List.map_append, List.nodup_append] at hd
    exact hd.1

/-- The coordinator remembers the delivered pods beside the ones it knew. -/
structure Tracks (c : Coordinator V) (pods : List (Pod V)) (c' : Coordinator V) : Prop where
  schedulerName : c'.cache.schedulerName = c.cache.schedulerName
  tracked : ∀ uid tp, c'.tracked.lookup uid = some tp ↔ c.tracked.lookup uid = some tp ∨
    (uid, tp) ∈ pods.map fun p => (p.uid, trackAs c.cache.schedulerName p)

lemma Tracks.track {c c' : Coordinator V} {pods : List (Pod V)} (h : Tracks c pods c')
    (p : Pod V) : c'.track p = trackAs c.cache.schedulerName p := by
  rw [← h.schedulerName]
  rfl

lemma Delivered.last_new {c c' : Coordinator V} {pods : List (Pod V)} {p : Pod V}
    (h : Delivered c (pods ++ [p])) (ht : Tracks c pods c') : p.uid ∉ c'.tracked := by
  intro hmem
  obtain ⟨tp, htp⟩ := Finmap.mem_iff.mp hmem
  rcases (ht.tracked p.uid tp).mp htp with hold | hnew
  · exact h.new p (by simp) (Finmap.mem_of_lookup_eq_some hold)
  · obtain ⟨x, hx, he⟩ := List.mem_map.mp hnew
    have hd := h.nodup
    rw [List.map_append, List.nodup_append] at hd
    exact hd.2.2 x.uid (List.mem_map_of_mem hx) p.uid (by simp) (congrArg Prod.fst he)

lemma upsert_tracks {c : Coordinator V} {pods : List (Pod V)} (h : Delivered c pods) :
    Tracks c pods (pods.foldl Coordinator.onPodUpsert c) := by
  induction pods using List.reverseRecOn with
  | nil => exact ⟨rfl, fun uid tp => by simp⟩
  | append_singleton pods p ih =>
    have hprior := ih h.init
    obtain ⟨hbound, hrun⟩ := h.bound p (by simp)
    rw [List.foldl_append, List.foldl_cons, List.foldl_nil,
      Coordinator.onPodUpsert_new _ hbound hrun (h.last_new hprior)]
    refine ⟨?_, fun uid tp => ?_⟩
    · exact (Cache.onPodBound_schedulerName _ _).trans hprior.schedulerName
    · have hlast := (h.last_new hprior : p.uid ∉ _)
      rw [lookup_insert_ite, hprior.track, List.map_append, List.mem_append, List.map_singleton,
        List.mem_singleton, Prod.mk.injEq, ← or_assoc, ← hprior.tracked]
      split_ifs with hu
      · rw [← hu, ← Finmap.lookup_eq_none] at hlast
        simp [hlast, hu, eq_comm]
      · simp [hu]

lemma upsert_engine {c : Coordinator V} {pods : List (Pod V)} (h : Delivered c pods)
    (ht : c.engine.tree = none) : (pods.foldl Coordinator.onPodUpsert c).engine = c.engine := by
  induction pods using List.reverseRecOn with
  | nil => rfl
  | append_singleton pods p ih =>
    have hprior := ih h.init
    obtain ⟨hbound, hrun⟩ := h.bound p (by simp)
    rw [List.foldl_append, List.foldl_cons, List.foldl_nil,
      Coordinator.onPodUpsert_new _ hbound hrun (h.last_new (upsert_tracks h.init))]
    dsimp only
    rw [hprior, ht]
    rfl

lemma upsert_booked {c : Coordinator V} {pods : List (Pod V)} (h : Delivered c pods)
    {t : QueueManager V} (ht : c.engine.tree = some t)
    (hp : ∀ p ∈ pods, (homeLeaf t (trackAs c.cache.schedulerName p)).isSome = true ∧
      p.uid ∉ c.engine.book) :
    BookedAll c.engine
      ((pods.map fun p => (p.uid, trackAs c.cache.schedulerName p)).map (trackedPosting t))
      (pods.foldl Coordinator.onPodUpsert c).engine := by
  induction pods using List.reverseRecOn with
  | nil => exact .nil
  | append_singleton pods p ih =>
    have hprior := ih h.init fun x hx => hp x (List.mem_append_left _ hx)
    have htracks := upsert_tracks h.init
    obtain ⟨hbound, hrun⟩ := h.bound p (by simp)
    obtain ⟨hb, hnew⟩ := hp p (by simp)
    obtain ⟨t₁, ht₁, hix₁, -⟩ := hprior.tree ht
    have hd := h.nodup
    rw [List.map_append, List.nodup_append] at hd
    have hfresh : p.uid ∉ ((pods.map fun p => (p.uid, trackAs c.cache.schedulerName p)).map
        (trackedPosting t)).map Posting.uid := by
      intro hmem
      rw [List.map_map, List.map_map] at hmem
      exact hd.2.2 _ hmem _ (by simp) rfl
    have hnew₁ : p.uid ∉ (pods.foldl Coordinator.onPodUpsert c).engine.book := by
      rw [← Finmap.lookup_eq_none, hprior.lookup_other hfresh, Finmap.lookup_eq_none]
      exact hnew
    have hhome := homeLeaf_congr hix₁ (trackAs c.cache.schedulerName p)
    rw [List.foldl_append, List.foldl_cons, List.foldl_nil,
      Coordinator.onPodUpsert_new _ hbound hrun (h.last_new htracks), List.map_append,
      List.map_append]
    dsimp only
    rw [ht₁, htracks.track]
    refine hprior.snoc ?_
    have hroutes : (homeLeaf t₁ (p.uid, trackAs c.cache.schedulerName p).2).isSome = true :=
      hhome ▸ hb
    have hstep := bookTracked_booked hroutes ht₁ rfl hnew₁
    simpa only [trackedPosting, hhome, Option.elim_some] using hstep

/-- A process that starts when the pods are bound. Either its tree is there and the
informer delivers the pods, or the pods are delivered first and a rebuild, which has
just published the tree, books the tracked ones. The two engines are those before and
after the pods are booked. -/
inductive Restart (ix : Index V) (name : String) (pods : List (Pod V)) :
    Engine V → Engine V → Prop
  | observed {c : Coordinator V} {t : QueueManager V} (tree : c.engine.tree = some t)
      (index : t.index = ix) (schedulerName : c.cache.schedulerName = name)
      (new : ∀ p ∈ pods, p.uid ∉ c.tracked ∧ p.uid ∉ c.engine.book) :
      Restart ix name pods c.engine (pods.foldl Coordinator.onPodUpsert c).engine
  | reseeded {c c' : Coordinator V} {mgr : QueueManager V}
      {bookOrder gangOrder order : List String} (tree : c.engine.tree = none)
      (schedulerName : c.cache.schedulerName = name) (tracked : c.tracked = ∅)
      (new : ∀ p ∈ pods, p.uid ∉ c.engine.book)
      (delivered : c' = pods.foldl Coordinator.onPodUpsert c) (index : mgr.index = ix)
      (visits : Visits bookOrder c'.engine.book) (visitsTracked : Visits order c'.tracked) :
      Restart ix name pods (c'.engine.rebuild mgr bookOrder gangOrder)
        (c'.reseedQueueAllocation mgr order (c'.engine.rebuild mgr bookOrder gangOrder))

lemma Restart.booked {name : String} {pods : List (Pod V)} {e e' : Engine V}
    {t : QueueManager V} (h : Restart t.index name pods e e')
    (hb : ∀ p ∈ pods, p.nodeName ≠ "" ∧ p.terminal = false) (hd : (pods.map Pod.uid).Nodup)
    (hp : ∀ p ∈ pods, (homeLeaf t (trackAs name p)).isSome = true) :
    ∃ t₀ xs, e.tree = some t₀ ∧ t₀.index = t.index ∧ BookedAll e xs e' ∧
      xs.Perm ((pods.map fun p => (p.uid, trackAs name p)).map (trackedPosting t)) := by
  have hposting : ∀ {m : QueueManager V}, m.index = t.index →
      trackedPosting m = trackedPosting t := by
    intro m hm
    funext entry
    simp only [trackedPosting, homeLeaf_congr hm]
  cases h with
  | @observed c t₁ tree index schedulerName new =>
    subst schedulerName
    refine ⟨t₁, _, tree, index, upsert_booked ⟨hb, fun p hp' => (new p hp').1, hd⟩ tree
      (fun p hp' => ⟨homeLeaf_congr index _ ▸ hp p hp', (new p hp').2⟩), ?_⟩
    rw [hposting index]
  | @reseeded c c' mgr bookOrder gangOrder order tree schedulerName tracked new delivered index
      visits visitsTracked =>
    have hdel : Delivered c pods := ⟨hb, fun p _ => tracked ▸ Finmap.notMem_empty, hd⟩
    have htracks := upsert_tracks hdel
    have hengine := upsert_engine hdel tree
    rw [← delivered] at htracks hengine
    subst schedulerName
    obtain ⟨t₁, ht₁, hix₁⟩ := rebuild_index c'.engine mgr bookOrder gangOrder
    have hperm : (entries order c'.tracked).Perm
        (pods.map fun p => (p.uid, trackAs c.cache.schedulerName p)) := by
      refine entries_perm visitsTracked ?_ fun uid tp => ?_
      · simpa [Function.comp_def] using hd
      · rw [htracks.tracked, tracked]
        simp
    have hnewbook : ∀ uid, uid ∉ c.engine.book →
        uid ∉ (c'.engine.rebuild mgr bookOrder gangOrder).book := by
      intro uid hu
      rw [← Finmap.lookup_eq_none, rebuild_book _ _ _ visits, hengine,
        Finmap.lookup_eq_none.mpr hu]
      rfl
    refine ⟨t₁, _, ht₁, hix₁.trans index, bookTracked_all ht₁ hix₁ (entries_nodup visitsTracked.1)
      fun entry hentry => ?_, ?_⟩
    · obtain ⟨p, hp', rfl⟩ := List.mem_map.mp (hperm.mem_iff.mp hentry)
      exact ⟨homeLeaf_congr index _ ▸ hp p hp', hnewbook _ (new p hp')⟩
    · rw [← hposting index]
      exact hperm.map _

lemma request_get {cap : Capacity V} {pod : Pod V} {req : Resource V}
    (h : cap.request pod = .ok req) (d : String) :
    get req d = get (effectiveRequest pod) d +
      ((deviceAsks pod cap.draClaims cap.draTemplates).map
        (ExactDeviceRequest.amount · d)).sum := by
  obtain ⟨devices, hdevices, hget⟩ := cap.get_request h
  rw [hget, podDeviceRequests_get hdevices d]

def bookedAt (e : Engine V) (uid d : String) : V :=
  (e.book.lookup uid).elim 0 fun rec => get rec.req d

/-- What counts against the maximum of a queue in one dimension. -/
def usedAt (e : Engine V) (n d : String) : V := e.tree.elim 0 fun t => get (t.used n) d

/-- Two processes book the pods with the same vectors and add the same amounts to the
used vector of every queue. -/
structure ChargedAlike (pods : List (Pod V)) (e e' r r' : Engine V) : Prop where
  bookings : ∀ p ∈ pods, ∀ d, bookedAt e' p.uid d = bookedAt r' p.uid d
  used : ∀ n d, usedAt e' n d - usedAt e n d = usedAt r' n d - usedAt r n d

lemma BookedAll.bookedAt {e e' : Engine V} {xs : List (Posting V)} (h : BookedAll e xs e')
    (hd : (xs.map Posting.uid).Nodup) {x : Posting V} (hx : x ∈ xs) (d : String) :
    bookedAt e' x.uid d = get x.req d := by
  rw [BookingPaths.bookedAt, h.lookup hd hx]
  rfl

lemma BookedAll.usedAt {e e' : Engine V} {xs : List (Posting V)} (h : BookedAll e xs e')
    {t : QueueManager V} (ht : e.tree = some t) (n d : String) :
    usedAt e' n d - usedAt e n d =
      (xs.map fun x => if Charges t.index x.leaf n then get x.req d else 0).sum := by
  obtain ⟨t', ht', -, hused⟩ := h.tree ht
  rw [BookingPaths.usedAt, BookingPaths.usedAt, ht, ht']
  exact sub_eq_of_eq_add' (hused n d)

/-- The booking a restarted process makes for the pod of a cycle. -/
def Cycle.observed (x : Cycle V) : Posting V := { x.posting with req := effectiveRequest x.pod }

lemma Scheduled.tracked {cap : Capacity V} {name : String} {t : QueueManager V} {x : Cycle V}
    (h : Scheduled cap name t x) (node : String) :
    homeLeaf t (trackAs name (bind node x.pod)) = some x.state.leaf ∧
      trackedPosting t ((bind node x.pod).uid, trackAs name (bind node x.pod)) = x.observed := by
  have hkey : (bind node x.pod).placementKey = x.pod.placementKey := rfl
  have hhome : homeLeaf t (trackAs name (bind node x.pod)) = some x.state.leaf := by
    have hours : (bind node x.pod).schedulerName = name := h.ours
    have hsingle : (bind node x.pod).gang = false := h.single
    simp [homeLeaf, trackAs, hours, hsingle, hkey, h.leaf]
  refine ⟨hhome, ?_⟩
  rw [trackedPosting, hhome]
  rfl

section Exact

lemma amount_nonneg (r : ExactDeviceRequest ℤ) (d : String) : 0 ≤ r.amount d := by
  unfold ExactDeviceRequest.amount
  split_ifs <;> omega

lemma amount_pos {r : ExactDeviceRequest ℤ} (h : r.countable = true) :
    0 < r.amount (draDimPrefix ++ r.deviceClassName) := by
  rw [ExactDeviceRequest.amount, if_pos ⟨h, rfl⟩]
  split_ifs <;> omega

lemma request_eq_iff {cap : Capacity ℤ} {pod : Pod ℤ} {req : Resource ℤ}
    (h : cap.request pod = .ok req) :
    (∀ d, get req d = get (effectiveRequest pod) d) ↔
      ∀ ask ∈ deviceAsks pod cap.draClaims cap.draTemplates, ask.countable = false := by
  constructor
  · intro heq ask hask
    by_contra hc
    have hpos := amount_pos (by simpa using hc)
    have hle := List.single_le_sum (l := (deviceAsks pod cap.draClaims cap.draTemplates).map
      (ExactDeviceRequest.amount · (draDimPrefix ++ ask.deviceClassName)))
      (fun x hx => by
        obtain ⟨r, _, rfl⟩ := List.mem_map.mp hx
        exact amount_nonneg r _) _ (List.mem_map_of_mem hask)
    have hget := request_get h (draDimPrefix ++ ask.deviceClassName)
    rw [heq] at hget
    omega
  · intro hnone d
    rw [request_get h d, List.sum_eq_zero, add_zero]
    intro x hx
    obtain ⟨r, hr, rfl⟩ := List.mem_map.mp hx
    simp [ExactDeviceRequest.amount, hnone r hr]

/-- A restart leaves every booking and every used vector as they were exactly when no
claim of the scheduled pods asks for a counted device: PreFilter charges the devices, the
informers only the containers. -/
theorem restart_charges_alike_iff {cap : Capacity ℤ} {c c' : Coordinator ℤ} {xs : List (Cycle ℤ)}
    (h : Run (cycles cap) c xs c') {t : QueueManager ℤ} (ht : c.engine.tree = some t)
    {node : String → String} (hnode : ∀ uid, node uid ≠ "") {r r' : Engine ℤ}
    (hr : Restart t.index c.cache.schedulerName
      (xs.map fun x => bind (node x.pod.uid) x.pod) r r') :
    ChargedAlike (xs.map Cycle.pod) c.engine c'.engine r r' ↔
      ∀ x ∈ xs, ∀ ask ∈ deviceAsks x.pod cap.draClaims cap.draTemplates, ask.countable = false := by
  obtain ⟨hall, -, hnodup, hsched⟩ := cycles_run h ht
  obtain ⟨t₀, ys, ht₀, hix₀, hall', hperm⟩ := hr.booked
    (fun p hp => by
      obtain ⟨x, _, rfl⟩ := List.mem_map.mp hp
      exact ⟨hnode _, rfl⟩)
    (by simpa [Function.comp_def, bind] using hnodup)
    (fun p hp => by
      obtain ⟨x, hx, rfl⟩ := List.mem_map.mp hp
      rw [((hsched x hx).tracked _).1]
      rfl)
  have hys : ys.Perm (xs.map Cycle.observed) := by
    refine hperm.trans (List.Perm.of_eq ?_)
    rw [List.map_map, List.map_map]
    exact List.map_congr_left fun x hx => ((hsched x hx).tracked _).2
  have hdx : ((xs.map Cycle.posting).map Posting.uid).Nodup := by
    simpa [Function.comp_def, Cycle.posting] using hnodup
  have hdy : (ys.map Posting.uid).Nodup := by
    rw [(hys.map _).nodup_iff]
    simpa [Function.comp_def, Cycle.observed, Cycle.posting] using hnodup
  have hbooked : ∀ x ∈ xs, ∀ d, bookedAt c'.engine x.pod.uid d = get x.state.req d ∧
      bookedAt r' x.pod.uid d = get (effectiveRequest x.pod) d := fun x hx d =>
    ⟨hall.bookedAt hdx (List.mem_map_of_mem hx) d,
      hall'.bookedAt hdy (hys.mem_iff.mpr (List.mem_map_of_mem hx)) d⟩
  constructor
  · intro halike x hx
    rw [← request_eq_iff (hsched x hx).req]
    intro d
    rw [← (hbooked x hx d).1, ← (hbooked x hx d).2]
    exact halike.bookings x.pod (List.mem_map_of_mem hx) d
  · intro hnone
    have heq : ∀ x ∈ xs, ∀ d, get x.state.req d = get (effectiveRequest x.pod) d := fun x hx =>
      (request_eq_iff (hsched x hx).req).mpr (hnone x hx)
    refine ⟨fun p hp d => ?_, fun n d => ?_⟩
    · obtain ⟨x, hx, rfl⟩ := List.mem_map.mp hp
      rw [(hbooked x hx d).1, (hbooked x hx d).2, heq x hx]
    · rw [hall.usedAt ht, hall'.usedAt ht₀, hix₀, (hys.map _).sum_eq, List.map_map, List.map_map]
      refine congrArg List.sum (List.map_congr_left fun x hx => ?_)
      by_cases hc : Charges t.index x.state.leaf n
      · simp [Cycle.observed, Cycle.posting, hc, heq x hx d]
      · simp [Cycle.observed, Cycle.posting, hc]

def oneDevice : Capacity ℤ where
  draClaims := some fun _ _ => .ok ⟨[⟨"accelerator", some ⟨"gpu", .exactCount, 1⟩, []⟩]⟩
  draTemplates := none
  draFailClosed := true
  sharedPool := false

/-- A pod whose claim counts one device is charged for it until the restart. -/
theorem device_lost_on_restart :
    let c : Coordinator ℤ := newCoordinator (engineOn 60 (treeOf (oneTenant 10) (by decide)))
    let pod := { barePod "pod" "team" "runner" 2 with resourceClaims := [⟨some "claim", none⟩] }
    let r' := (c.onPodUpsert (bind "node" pod)).engine
    ∃ s, oneDevice.preFilter c pod = .ok s ∧
      let e' := ((cycles oneDevice).next c ⟨pod, c.pods, s⟩).engine
      bookedAt e' "pod" "dra/gpu" = 1 ∧ bookedAt r' "pod" "dra/gpu" = 0 ∧
      usedAt e' "root.team.jobs" "dra/gpu" = 1 ∧ usedAt r' "root.team.jobs" "dra/gpu" = 0 ∧
      bookedAt e' "pod" "cpu" = 2 ∧ bookedAt r' "pod" "cpu" = 2 := by
  intro c pod r'
  exact exists_ok_of_any (by decide +kernel)

theorem plain_pod_charged_alike :
    let c : Coordinator ℤ := newCoordinator (engineOn 60 (treeOf (oneTenant 10) (by decide)))
    let pod := barePod "pod" "team" "runner" 2
    ∃ s, oneDevice.preFilter c pod = .ok s ∧
      ChargedAlike [pod] c.engine ((cycles oneDevice).next c ⟨pod, c.pods, s⟩).engine c.engine
        (c.onPodUpsert (bind "node" pod)).engine := by
  intro c pod
  obtain ⟨s, hpass⟩ : ∃ s, oneDevice.preFilter c pod = .ok s :=
    exists_ok_of_isOk (by decide +kernel)
  have hrun : Run (cycles oneDevice) c [⟨pod, c.pods, s⟩] _ :=
    .snoc .nil ⟨hpass, rfl, rfl, Finmap.notMem_empty⟩
  have hnode : ∀ uid, (fun _ : String => "node") uid ≠ "" := fun _ => by simp
  refine ⟨s, hpass, (restart_charges_alike_iff hrun rfl hnode
    (.observed rfl rfl rfl fun p hp => ?_)).mpr fun x hx ask hask => ?_⟩
  · obtain rfl := List.mem_singleton.mp hp
    exact ⟨Finmap.notMem_empty, Finmap.notMem_empty⟩
  · obtain rfl := List.mem_singleton.mp hx
    cases hask

end Exact

end AdScheduler.BookingPaths
