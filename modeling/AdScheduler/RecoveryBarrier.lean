import AdScheduler.BookingPaths
import AdScheduler.GangCover

/-! A process that starts up with pods already bound and gangs already admitted. Its first
rebuild publishes the tree in one step and fills in the usage afterwards, pod by pod and
gang by gang, while the plugins may be called in between. -/
namespace AdScheduler.RecoveryBarrier
open KeyedMap Resources QueueTree TreeShape Manager Conservation EngineCore LedgerTree
open GangAgreement Runs Requests TreeAssembly CoordinatorCore Plugins BookingPaths Outcomes
open GangCover (noDevices)

/-- How far the first rebuild has come: it has not begun, or its tree is published and the
listed pods and groups are still to be filled in. -/
inductive Progress
  | waiting
  | filling (mgr : QueueManager ℤ) (pods : List (String × TrackedPod ℤ))
      (groups : List (PodGroup ℤ))

/-- The rebuild is not between publishing its tree and restoring the last gang. -/
def Progress.idle : Progress → Bool
  | .waiting => true
  | .filling _ pods groups => pods.isEmpty && groups.isEmpty

/-- The coordinator, its rebuild, and the pods that have passed PreFilter. -/
structure Startup where
  coord : Coordinator ℤ
  progress : Progress
  passed : List (Pod ℤ × PreFilterState ℤ)

inductive Step
  | publish (bookOrder gangOrder trackedOrder : List String)
  | observe
  | recover
  | preFilter (pod : Pod ℤ)
  | reserve (pod : Pod ℤ) (state : PreFilterState ℤ)
  | preEnqueue (pod : Pod ℤ) (now : ℤ)

def start (c : Coordinator ℤ) : Startup := ⟨c, .waiting, []⟩

namespace Startup

def setEngine (s : Startup) (e : Engine ℤ) : Startup :=
  { s with coord := { s.coord with engine := e } }

/-- One critical section of the rebuild, or one call of a plugin. -/
def step (cap : Capacity ℤ) (s : Startup) : Step → Startup
  | .publish bookOrder gangOrder trackedOrder =>
    match assemble s.coord.queues s.coord.quotas with
    | .error _ => s
    | .ok mgr =>
      { s.setEngine (s.coord.engine.rebuild mgr bookOrder gangOrder) with
        progress := .filling mgr (entries trackedOrder s.coord.tracked) s.coord.podGroups }
  | .observe =>
    match s.progress with
    | .filling mgr (entry :: pods) groups =>
      { s.setEngine (bookTracked mgr s.coord.engine entry) with
        progress := .filling mgr pods groups }
    | _ => s
  | .recover =>
    match s.progress with
    | .filling mgr [] (pg :: groups) =>
      { s.setEngine (recoverGang mgr s.coord.engine pg) with progress := .filling mgr [] groups }
    | _ => s
  | .preFilter pod =>
    match cap.preFilter s.coord pod with
    | .error _ => s
    | .ok state => { s with passed := (pod, state) :: s.passed }
  | .reserve pod state => { s with coord := (Capacity.reserve s.coord (some state) pod).1 }
  | .preEnqueue pod now => { s with coord := (Gang.preEnqueue s.coord pod now).1 }

/-- The rebuild is entered once, its loops visit each entry once, and Reserve follows
PreFilter. -/
def Enabled (s : Startup) : Step → Prop
  | .publish bookOrder gangOrder trackedOrder =>
    s.progress = .waiting ∧ Visits bookOrder s.coord.engine.book ∧
      Visits gangOrder s.coord.engine.gangBook ∧ Visits trackedOrder s.coord.tracked
  | .reserve pod state => (pod, state) ∈ s.passed
  | _ => True

end Startup

/-- Every interleaving of the rebuild with the plugins. -/
def startup (cap : Capacity ℤ) : Machine Startup Step := ⟨Startup.Enabled, Startup.step cap⟩

lemma run_observe (cap : Capacity ℤ) (mgr : QueueManager ℤ) (groups : List (PodGroup ℤ))
    (passed : List (Pod ℤ × PreFilterState ℤ)) (pods : List (String × TrackedPod ℤ))
    (c : Coordinator ℤ) :
    ∃ as, Run (startup cap) ⟨c, .filling mgr pods groups, passed⟩ as
      ⟨{ c with engine := pods.foldl (bookTracked mgr) c.engine }, .filling mgr [] groups,
        passed⟩ := by
  induction pods generalizing c with
  | nil => exact ⟨[], .nil⟩
  | cons entry pods ih =>
    obtain ⟨as, h⟩ := ih { c with engine := bookTracked mgr c.engine entry }
    exact ⟨.observe :: as, .cons trivial h⟩

lemma run_recover (cap : Capacity ℤ) (mgr : QueueManager ℤ)
    (passed : List (Pod ℤ × PreFilterState ℤ)) (groups : List (PodGroup ℤ)) (c : Coordinator ℤ) :
    ∃ as, Run (startup cap) ⟨c, .filling mgr [] groups, passed⟩ as
      ⟨{ c with engine := groups.foldl (recoverGang mgr) c.engine }, .filling mgr [] [],
        passed⟩ := by
  induction groups generalizing c with
  | nil => exact ⟨[], .nil⟩
  | cons pg groups ih =>
    obtain ⟨as, h⟩ := ih { c with engine := recoverGang mgr c.engine pg }
    exact ⟨.recover :: as, .cons trivial h⟩

/-- Taken without interruption, the steps are a rebuild of the coordinator. -/
theorem rebuild_run (cap : Capacity ℤ) {c : Coordinator ℤ} {mgr : QueueManager ℤ}
    (h : assemble c.queues c.quotas = .ok mgr) {bookOrder gangOrder trackedOrder : List String}
    (hb : Visits bookOrder c.engine.book) (hg : Visits gangOrder c.engine.gangBook)
    (ht : Visits trackedOrder c.tracked) :
    ∃ as, Run (startup cap) (start c) as
      ⟨c.rebuild bookOrder gangOrder trackedOrder, .filling mgr [] [], []⟩ := by
  let published := c.engine.rebuild mgr bookOrder gangOrder
  let reseeded := c.reseedQueueAllocation mgr trackedOrder published
  obtain ⟨as, hpods⟩ := run_observe cap mgr c.podGroups [] (entries trackedOrder c.tracked)
    { c with engine := published }
  obtain ⟨bs, hgroups⟩ := run_recover cap mgr [] c.podGroups { c with engine := reseeded }
  have hpublish : (startup cap).next (start c) (.publish bookOrder gangOrder trackedOrder) =
      ⟨{ c with engine := published }, .filling mgr (entries trackedOrder c.tracked) c.podGroups,
        []⟩ := by
    simp only [startup, Startup.step, start, h]
    rfl
  refine ⟨.publish bookOrder gangOrder trackedOrder :: (as ++ bs),
    .cons ⟨rfl, hb, hg, ht⟩ (hpublish ▸ hpods.append ?_)⟩
  rw [Coordinator.rebuild, h]
  exact hgroups

/-- The status of the group records an admitted reservation. -/
def recorded (pg : PodGroup ℤ) : Bool := pg.admitted && decide (pg.reservedQueue ≠ "")

/-- The reservation that the group's status records, if its queue is a leaf of the tree. -/
def reservation (t : QueueManager ℤ) (pg : PodGroup ℤ) : Option (GangBooking ℤ) :=
  if recorded pg && t.isLeafPath pg.reservedQueue then
    some ⟨pg.reservedQueue, fromQuantityMap pg.reservedResources⟩
  else none

/-- The step lets new work in: a pod outside gangs passes PreFilter, or a gang that no
status records as admitted is admitted. -/
def LetsIn (cap : Capacity ℤ) (s : Startup) : Step → Prop
  | .preFilter pod => pod.gang = false ∧ ∃ state, cap.preFilter s.coord pod = .ok state
  | .preEnqueue pod now => ∃ key, key ∉ s.coord.engine.gangBook ∧
      key ∈ (Gang.preEnqueue s.coord pod now).1.engine.gangBook ∧
      ∀ pg ∈ s.coord.podGroups, pg.key = key → recorded pg = false
  | _ => False

def podShare (mgr : QueueManager ℤ) (n d : String) (entry : String × TrackedPod ℤ) : ℤ :=
  (homeLeaf mgr entry.2).elim 0 fun leaf =>
    if Charges mgr.index leaf n then get entry.2.req d else 0

def reservations (mgr : QueueManager ℤ) (groups : List (PodGroup ℤ)) :
    List (String × GangBooking ℤ) :=
  groups.filterMap fun pg => (reservation mgr pg).map fun gb => (pg.key, gb)

def gangShares (mgr : QueueManager ℤ) (groups : List (PodGroup ℤ)) (n d : String) : ℤ :=
  ((reservations mgr groups).map fun kv => gangShare mgr.index n d kv.2).sum

/-- What the tracked pods and the recorded gangs request from a queue together. -/
def demand (c : Coordinator ℤ) (mgr : QueueManager ℤ) (n d : String) : ℤ :=
  (total c.tracked fun uid tp => podShare mgr n d (uid, tp)) + gangShares mgr c.podGroups n d

/-- Every recorded gang can be restored in the tree: it has not failed, its reservation is
valid and within every maximum on the way to the root, and wherever it names a bounded
dimension, all tracked pods and recorded gangs stay within the maximum together. -/
def Restorable (c : Coordinator ℤ) (mgr : QueueManager ℤ) : Prop :=
  ∀ pg ∈ c.podGroups, ∀ gb ∈ reservation mgr pg,
    pg.phase ≠ .failed ∧ strictlyGtZero gb.minRes = true ∧
    mgr.fitsMax gb.leaf gb.minRes = true ∧
    ∀ n ∈ pathUp mgr.index gb.leaf, ∀ d ∈ gb.minRes.keys, d ∈ n.max.keys →
      demand c mgr n.path d ≤ get n.max d

instance (c : Coordinator ℤ) (mgr : QueueManager ℤ) : Decidable (Restorable c mgr) :=
  inferInstanceAs (Decidable (∀ pg ∈ c.podGroups, ∀ gb ∈ reservation mgr pg, _))

/-- The discipline that makes the barrier real: the plugins admit nothing while a rebuild
is filling in the usage of its tree, and the recorded gangs can be restored in the tree
that the rebuild publishes. -/
def Barred (s : Startup) : Step → Prop
  | .publish _ _ _ =>
    ∀ mgr, assemble s.coord.queues s.coord.quotas = .ok mgr → Restorable s.coord mgr
  | .preFilter _ | .preEnqueue _ _ => s.progress.idle = true
  | _ => True

lemma reservation_some {t : QueueManager ℤ} {pg : PodGroup ℤ} {gb : GangBooking ℤ}
    (h : reservation t pg = some gb) :
    pg.admitted = true ∧ pg.reservedQueue ≠ "" ∧ t.isLeafPath pg.reservedQueue = true ∧
      gb = ⟨pg.reservedQueue, fromQuantityMap pg.reservedResources⟩ := by
  unfold reservation at h
  split_ifs at h with hr
  simp only [recorded, Bool.and_eq_true, decide_eq_true_eq] at hr
  exact ⟨hr.1.1, hr.1.2, hr.2, (Option.some.inj h).symm⟩

lemma key_ne_empty (pg : PodGroup ℤ) : pg.key ≠ "" := by
  intro h
  have hlen := congrArg String.length h
  simp [PodGroup.key] at hlen

/-- Nothing that is booked gets lost, and the queues stay. -/
structure Grows (e e' : Engine ℤ) : Prop where
  tree : ∀ t, e.tree = some t → ∃ t', e'.tree = some t' ∧ t'.index = t.index
  book : ∀ uid rec, e.book.lookup uid = some rec → e'.book.lookup uid = some rec
  gangBook : ∀ g gb, e.gangBook.lookup g = some gb → e'.gangBook.lookup g = some gb

lemma Grows.refl (e : Engine ℤ) : Grows e e :=
  ⟨fun t ht => ⟨t, ht, rfl⟩, fun _ _ => id, fun _ _ => id⟩

lemma lookup_insert_new {K W : Type*} [DecidableEq K] {m : Map K W} {k j : K} {v w : W}
    (hnew : m.lookup k = none) (h : m.lookup j = some w) : (m.insert k v).lookup j = some w := by
  rw [lookup_insert_ite]
  split_ifs with hj
  · rw [hj, hnew] at h
    cases h
  · exact h

lemma sameGangs_tree {e e' : Engine ℤ} (h : SameGangs e e') {t : QueueManager ℤ}
    (ht : e.tree = some t) : ∃ t', e'.tree = some t' ∧ t'.index = t.index ∧ t'.gangs = t.gangs := by
  have hs := h.tree
  rw [ht] at hs
  obtain ⟨t', ht', hsk⟩ := Option.map_eq_some_iff.mp hs
  exact ⟨t', ht', congrArg Prod.fst hsk, congrArg Prod.snd hsk⟩

lemma grows_sameGangs {e e' : Engine ℤ} (h : SameGangs e e')
    (hbook : ∀ uid rec, e.book.lookup uid = some rec → e'.book.lookup uid = some rec) :
    Grows e e' := by
  refine ⟨fun t ht => ?_, hbook, fun g gb hgb => h.gangBook ▸ hgb⟩
  obtain ⟨t', ht', hix, -⟩ := sameGangs_tree h ht
  exact ⟨t', ht', hix⟩

lemma grows_reserve (e : Engine ℤ) (uid leaf : String) (req : Resource ℤ) :
    Grows e (e.reserve uid leaf req) := by
  refine grows_sameGangs (sameGangs_reserve e uid leaf req) fun k rec hk => ?_
  unfold Engine.reserve
  split_ifs with hin
  · exact hk
  repeat' split
  · exact hk
  · exact hk
  · exact lookup_insert_new (Finmap.lookup_eq_none.mpr hin) hk

lemma grows_admitStep {e e' : Engine ℤ} {leaf key : String} {minRes : Resource ℤ}
    (h : AdmitStep e e' leaf key minRes) (hbook : e'.book = e.book) : Grows e e' := by
  refine ⟨fun t ht => h.tree_index ht, fun _ _ hrec => hbook ▸ hrec, fun g gb hgb => ?_⟩
  rcases h with ⟨_, gangBook⟩ | ⟨_, _, new, _, _, gangBook'⟩ | ⟨_, _, new, _, _, gangBook'⟩
  · rw [gangBook]
    exact hgb
  · rw [gangBook']
    exact lookup_insert_new new hgb
  · rw [gangBook']
    exact lookup_insert_new new hgb

/-- Every tracked pod that the tree routes and every recorded gang is still on the list of
the rebuild or booked. -/
structure Filled (c : Coordinator ℤ) (mgr : QueueManager ℤ) (pods : List (String × TrackedPod ℤ))
    (groups : List (PodGroup ℤ)) (e : Engine ℤ) : Prop where
  tree : ∃ t, e.tree = some t ∧ t.index = mgr.index
  pods : ∀ uid tp leaf, c.tracked.lookup uid = some tp → homeLeaf mgr tp = some leaf →
    (uid, tp) ∈ pods ∨ e.book.lookup uid = some ⟨.committed, leaf, tp.req⟩
  gangs : ∀ pg ∈ c.podGroups, ∀ gb, reservation mgr pg = some gb →
    pg ∈ groups ∨ e.gangBook.lookup pg.key = some gb

/-- While there is work left, nobody else has booked anything: what is listed is in neither
ledger, and the used vectors lack exactly its share of the demand. -/
structure Outstanding (c : Coordinator ℤ) (mgr : QueueManager ℤ)
    (pods : List (String × TrackedPod ℤ)) (groups : List (PodGroup ℤ)) (e : Engine ℤ) : Prop where
  podsOnce : (pods.map Prod.fst).Nodup
  podsNew : ∀ entry ∈ pods, entry.1 ∉ e.book
  groupsOnce : (groups.map PodGroup.key).Nodup
  groupsNew : ∀ pg ∈ groups, pg.key ∉ e.gangBook ∧ ∀ t, e.tree = some t → pg.key ∉ t.gangs
  listed : ∀ pg ∈ groups, pg ∈ c.podGroups
  used : ∀ t, e.tree = some t → ∀ n d, get (t.used n) d +
    ((pods.map (podShare mgr n d)).sum + gangShares mgr groups n d) = demand c mgr n d

section Filling
variable {c : Coordinator ℤ} {mgr : QueueManager ℤ} {pods : List (String × TrackedPod ℤ)}
  {groups : List (PodGroup ℤ)} {e e' : Engine ℤ}

lemma Filled.grows (h : Filled c mgr pods groups e) (hg : Grows e e') :
    Filled c mgr pods groups e' := by
  obtain ⟨t, ht, hix⟩ := h.tree
  obtain ⟨t', ht', hix'⟩ := hg.tree t ht
  refine ⟨⟨t', ht', hix'.trans hix⟩, fun uid tp leaf htp hleaf => ?_, fun pg hpg gb hgb => ?_⟩
  · exact (h.pods uid tp leaf htp hleaf).imp id (hg.book _ _)
  · exact (h.gangs pg hpg gb hgb).imp id (hg.gangBook _ _)

lemma Filled.observed {entry : String × TrackedPod ℤ} (h : Filled c mgr (entry :: pods) groups e)
    (hg : Grows e e') (hentry : ∀ leaf, homeLeaf mgr entry.2 = some leaf →
      e'.book.lookup entry.1 = some ⟨.committed, leaf, entry.2.req⟩) :
    Filled c mgr pods groups e' := by
  have h' := h.grows hg
  refine ⟨h'.tree, fun uid tp leaf htp hleaf => ?_, h'.gangs⟩
  rcases h'.pods uid tp leaf htp hleaf with hmem | hbooked
  · rcases List.mem_cons.mp hmem with rfl | hmem
    · exact .inr (hentry leaf hleaf)
    · exact .inl hmem
  · exact .inr hbooked

lemma Filled.recovered {pg : PodGroup ℤ} (h : Filled c mgr pods (pg :: groups) e)
    (hg : Grows e e') (hpg : ∀ gb, reservation mgr pg = some gb →
      e'.gangBook.lookup pg.key = some gb) :
    Filled c mgr pods groups e' := by
  have h' := h.grows hg
  refine ⟨h'.tree, h'.pods, fun x hx gb hgb => ?_⟩
  rcases h'.gangs x hx gb hgb with hmem | hbooked
  · rcases List.mem_cons.mp hmem with rfl | hmem
    · exact .inr (hpg gb hgb)
    · exact .inl hmem
  · exact .inr hbooked

lemma Outstanding.tail_pods {entry : String × TrackedPod ℤ}
    (h : Outstanding c mgr (entry :: pods) groups e) (hg : SameGangs e e')
    (hbook : ∀ uid, uid ≠ entry.1 → uid ∉ e.book → uid ∉ e'.book)
    (hused : ∀ t t', e.tree = some t → e'.tree = some t' → ∀ n d,
      get (t'.used n) d = get (t.used n) d + podShare mgr n d entry)
    {t : QueueManager ℤ} (ht : e.tree = some t) : Outstanding c mgr pods groups e' := by
  obtain ⟨honce, hrest⟩ := List.nodup_cons.mp h.podsOnce
  obtain ⟨t₁, ht₁, -, hgangs⟩ := sameGangs_tree hg ht
  refine ⟨hrest, fun x hx => ?_, h.groupsOnce, fun pg hpg => ⟨?_, fun t' ht' => ?_⟩, h.listed,
    fun t' ht' n d => ?_⟩
  · refine hbook x.1 (fun heq => ?_) (h.podsNew x (List.mem_cons_of_mem _ hx))
    exact honce (heq ▸ List.mem_map_of_mem hx)
  · rw [hg.gangBook]
    exact (h.groupsNew pg hpg).1
  · cases ht₁.symm.trans ht'
    rw [hgangs]
    exact (h.groupsNew pg hpg).2 t ht
  · have hsum := h.used t ht n d
    rw [List.map_cons, List.sum_cons] at hsum
    rw [hused t t' ht ht' n d]
    omega

lemma observe_round {entry : String × TrackedPod ℤ} (hf : Filled c mgr (entry :: pods) groups e)
    (ho : Outstanding c mgr (entry :: pods) groups e) :
    Filled c mgr pods groups (bookTracked mgr e entry) ∧
      Outstanding c mgr pods groups (bookTracked mgr e entry) := by
  obtain ⟨t, ht, hix⟩ := hf.tree
  have hnew := ho.podsNew entry List.mem_cons_self
  have heq : bookTracked mgr e entry = _ := bookTracked_eq mgr e entry.1 entry.2
  cases hleaf : homeLeaf mgr entry.2 with
  | none =>
    rw [hleaf] at heq
    rw [show bookTracked mgr e entry = e from heq]
    refine ⟨hf.observed (.refl e) (by simp [hleaf]), ho.tail_pods (.refl e) (fun _ _ => id) ?_ ht⟩
    intro t₁ t₂ h₁ h₂ n d
    cases h₁.symm.trans h₂
    simp [podShare, hleaf]
  | some leaf =>
    have hb := bookTracked_booked (by simp [hleaf]) ht hix hnew
    rw [trackedPosting, hleaf, Option.getD_some] at hb
    have hsame : SameGangs e (bookTracked mgr e entry) := by
      rw [heq, hleaf]
      exact sameGangs_observeBound e entry.1 leaf entry.2.req
    refine ⟨hf.observed (grows_sameGangs hsame fun uid rec hrec => ?_) ?_,
      ho.tail_pods hsame (fun uid hne hout => ?_) (fun t₁ t₂ h₁ h₂ n d => ?_) ht⟩
    · rw [hb.book]
      exact lookup_insert_new (Finmap.lookup_eq_none.mpr hnew) hrec
    · intro l hl
      cases hleaf.symm.trans hl
      rw [hb.book]
      exact Finmap.lookup_insert _
    · rw [hb.book, Finmap.mem_insert]
      exact fun hor => hor.elim hne hout
    · obtain ⟨t', ht', -, hused⟩ := hb.tree t₁ h₁
      cases ht'.symm.trans h₂
      cases ht.symm.trans h₁
      rw [hused, podShare, hleaf, hix]
      rfl

lemma gangShares_cons (mgr : QueueManager ℤ) (pg : PodGroup ℤ) (groups : List (PodGroup ℤ))
    (n d : String) : gangShares mgr (pg :: groups) n d =
      (reservation mgr pg).elim 0 (gangShare mgr.index n d) + gangShares mgr groups n d := by
  rw [gangShares, reservations, List.filterMap_cons]
  cases reservation mgr pg with
  | none => exact (zero_add _).symm
  | some gb => rfl

lemma Outstanding.tail_groups {pg : PodGroup ℤ} (h : Outstanding c mgr pods (pg :: groups) e)
    (hbook : e'.book = e.book)
    (hgangs : ∀ g, g ≠ pg.key → g ∉ e.gangBook → g ∉ e'.gangBook)
    {t t' : QueueManager ℤ} (ht : e.tree = some t) (ht' : e'.tree = some t')
    (hheld : ∀ g, g ≠ pg.key → g ∉ t.gangs → g ∉ t'.gangs)
    (hused : ∀ n d, get (t'.used n) d =
      get (t.used n) d + (reservation mgr pg).elim 0 (gangShare mgr.index n d)) :
    Outstanding c mgr pods groups e' := by
  obtain ⟨honce, hrest⟩ := List.nodup_cons.mp h.groupsOnce
  have hne : ∀ x ∈ groups, x.key ≠ pg.key := fun x hx heq => honce (heq ▸ List.mem_map_of_mem hx)
  have hold : ∀ x ∈ groups, x ∈ pg :: groups := fun x => List.mem_cons_of_mem pg
  refine ⟨h.podsOnce, fun x hx => ?_, hrest, fun x hx => ⟨?_, fun t₁ ht₁ => ?_⟩,
    fun x hx => h.listed x (hold x hx), fun t₁ ht₁ n d => ?_⟩
  · rw [hbook]
    exact h.podsNew x hx
  · exact hgangs x.key (hne x hx) (h.groupsNew x (hold x hx)).1
  · cases ht'.symm.trans ht₁
    exact hheld x.key (hne x hx) ((h.groupsNew x (hold x hx)).2 t ht)
  · cases ht'.symm.trans ht₁
    have hsum := h.used t ht n d
    rw [gangShares_cons] at hsum
    rw [hused]
    omega

lemma recoverGang_skips {t : QueueManager ℤ} {pg : PodGroup ℤ} (ht : e.tree = some t)
    (hix : t.index = mgr.index) (hfresh : pg.key ∉ t.gangs) (hres : reservation mgr pg = none) :
    (recoverGang mgr e pg).tree = e.tree ∧ (recoverGang mgr e pg).gangBook = e.gangBook ∧
      (recoverGang mgr e pg).book = e.book := by
  rcases recoverGang_cases mgr e pg with ⟨hrec, _, he⟩ | ⟨_, he⟩
  swap
  · rw [he]
    exact ⟨rfl, rfl, rfl⟩
  rw [he]
  rcases admitGang_step e pg.reservedQueue pg.key (fromQuantityMap pg.reservedResources) with
    ⟨tree, gangBook⟩ | ⟨t₁, tree, _, admits, _, _⟩ | ⟨t₁, tree, _, held, _, _⟩
  · exact ⟨tree, gangBook, admitGang_book _ _ _ _⟩
  · -- an admission would need a leaf, and then the status does record a reservation
    cases ht.symm.trans tree
    have hl : mgr.isLeafPath pg.reservedQueue = true :=
      (isLeafPath_congr hix _).symm.trans admits.leaf_ok
    simp [reservation, recorded, hrec.admitted, hrec.queue, hl] at hres
  · cases ht.symm.trans tree
    exact absurd held hfresh

lemma recoverGang_restores {t : QueueManager ℤ} {pg : PodGroup ℤ} {gb : GangBooking ℤ}
    (ht : e.tree = some t) (hres : reservation mgr pg = some gb) (hlive : pg.phase ≠ .failed)
    (hnew : pg.key ∉ e.gangBook) (ha : Admits t gb.leaf pg.key gb.minRes) :
    recoverGang mgr e pg = { e with
      tree := some (admitted t gb.leaf pg.key gb.minRes)
      gangBook := e.gangBook.insert pg.key gb } := by
  obtain ⟨hadm, hq, hl, rfl⟩ := reservation_some hres
  have hrec : Recorded mgr pg :=
    ⟨hlive, hadm, hq, ha.positive, mem_index_of_isLeafPath hl⟩
  rcases recoverGang_cases mgr e pg with ⟨_, _, he⟩ | ⟨hin, _⟩
  · rw [he, admitGang_books (Finmap.lookup_eq_none.mpr hnew) ht ha]
  · exact absurd (of_decide_eq_true (hin hrec)) hnew

lemma Outstanding.admits {t : QueueManager ℤ} {pg : PodGroup ℤ} {gb : GangBooking ℤ}
    (h : Outstanding c mgr [] (pg :: groups) e) (hr : Restorable c mgr) (ht : e.tree = some t)
    (hix : t.index = mgr.index) (hres : reservation mgr pg = some gb) :
    Admits t gb.leaf pg.key gb.minRes := by
  obtain ⟨_, hpos, hmax, hroom⟩ := hr pg (h.listed pg List.mem_cons_self) gb hres
  obtain ⟨-, -, hl, hgb⟩ := reservation_some hres
  have hleaf : t.isLeafPath gb.leaf = true := by
    rw [isLeafPath_congr hix, hgb]
    exact hl
  have hrest : ∀ kv ∈ reservations mgr groups, strictlyGtZero kv.2.minRes = true := by
    intro kv hkv
    obtain ⟨x, hx, hkv⟩ := List.mem_filterMap.mp hkv
    obtain ⟨gb', hgb', rfl⟩ := Option.map_eq_some_iff.mp hkv
    exact (hr x (h.listed x (List.mem_cons_of_mem _ hx)) gb' hgb').2.1
  refine admits_of_room (key_ne_empty pg) hpos ((h.groupsNew pg List.mem_cons_self).2 t ht) hleaf
    ((fitsMax_congr hix _ _).trans hmax) hrest fun n hn d hd hbound => ?_
  have hsum := h.used t ht n.path d
  have hle := hroom n (hix ▸ hn) d hd hbound
  rw [gangShares_cons, hres, Option.elim_some, gangShares, List.map_nil, List.sum_nil] at hsum
  rw [hix]
  omega

lemma recover_round {pg : PodGroup ℤ} (hr : Restorable c mgr)
    (hf : Filled c mgr [] (pg :: groups) e) (ho : Outstanding c mgr [] (pg :: groups) e) :
    Filled c mgr [] groups (recoverGang mgr e pg) ∧
      Outstanding c mgr [] groups (recoverGang mgr e pg) := by
  obtain ⟨t, ht, hix⟩ := hf.tree
  obtain ⟨hnew, hfresh⟩ := ho.groupsNew pg List.mem_cons_self
  cases hres : reservation mgr pg with
  | none =>
    obtain ⟨htree, hgangs, hbook⟩ := recoverGang_skips ht hix (hfresh t ht) hres
    have hgrows := grows_sameGangs ⟨hgangs, congrArg _ htree⟩ fun _ _ hrec => hbook ▸ hrec
    refine ⟨hf.recovered hgrows (by simp [hres]),
      ho.tail_groups hbook (fun g _ hg => hgangs ▸ hg) ht (htree.trans ht) (fun _ _ => id) ?_⟩
    simp [hres]
  | some gb =>
    have ha := ho.admits hr ht hix hres
    have hlive := (hr pg (ho.listed pg List.mem_cons_self) gb hres).1
    have heq := recoverGang_restores ht hres hlive hnew ha
    have hstep : AdmitStep e (recoverGang mgr e pg) gb.leaf pg.key gb.minRes := by
      rw [heq]
      exact .booked t ht (Finmap.lookup_eq_none.mpr hnew) ha rfl rfl
    rw [heq] at hstep ⊢
    refine ⟨hf.recovered (grows_admitStep hstep rfl) ?_, ho.tail_groups rfl ?_ ht rfl ?_ ?_⟩
    · intro gb' hgb'
      cases hres.symm.trans hgb'
      exact Finmap.lookup_insert _
    · intro g hne hg hin
      exact (Finmap.mem_insert.mp hin).elim hne hg
    · intro g hne hg hin
      exact (Finmap.mem_insert.mp hin).elim hne hg
    · intro n d
      rw [admitted_used ha.leaf_ok, hres, hix]
      rfl

end Filling

lemma rebuild_cold {e : Engine ℤ} (hb : e.book = ∅) (hg : e.gangBook = ∅) (mgr : QueueManager ℤ)
    {bookOrder gangOrder : List String} (hbo : Visits bookOrder e.book)
    (hgo : Visits gangOrder e.gangBook) :
    e.rebuild mgr bookOrder gangOrder = { e with tree := some mgr } := by
  have hnil : ∀ {W : Type} {order : List String}, Visits order (∅ : Map String W) → order = [] :=
    fun h => List.eq_nil_iff_forall_not_mem.mpr fun k hk => Finmap.notMem_empty ((h.2 k).mp hk)
  rw [hb] at hbo
  rw [hg] at hgo
  rw [Engine.rebuild, hnil hbo, hnil hgo]
  rfl

lemma published {c : Coordinator ℤ} {mgr : QueueManager ℤ}
    (h : assemble c.queues c.quotas = .ok mgr) (hkeys : (c.podGroups.map PodGroup.key).Nodup)
    {trackedOrder : List String} (hto : Visits trackedOrder c.tracked) {e : Engine ℤ}
    (hb : e.book = ∅) (hg : e.gangBook = ∅) :
    Filled c mgr (entries trackedOrder c.tracked) c.podGroups { e with tree := some mgr } ∧
    Outstanding c mgr (entries trackedOrder c.tracked) c.podGroups
      { e with tree := some mgr } := by
  obtain ⟨spec, hspec⟩ := assemble_newManager h
  have hfresh := newManager_fresh hspec
  refine ⟨⟨⟨mgr, rfl, rfl⟩, fun uid tp leaf htp _ => .inl ((mem_entries_iff hto).mpr htp),
    fun pg hpg _ _ => .inl hpg⟩, ⟨?_, fun x _ => ?_, hkeys, fun pg _ => ⟨?_, ?_⟩,
    fun _ => id, ?_⟩⟩
  · exact entries_nodup hto.1
  · exact hb.symm ▸ Finmap.notMem_empty
  · exact hg.symm ▸ Finmap.notMem_empty
  · rintro t ⟨⟩
    exact hfresh.gangs.symm ▸ Finmap.notMem_empty
  · rintro t ⟨⟩ n d
    have hsum := sum_entries hto fun uid tp => podShare mgr n d (uid, tp)
    rw [hfresh.used, zero_add, demand, ← hsum]

lemma observe_all {c : Coordinator ℤ} {mgr : QueueManager ℤ} {groups : List (PodGroup ℤ)}
    {pods : List (String × TrackedPod ℤ)} {e : Engine ℤ} (hf : Filled c mgr pods groups e)
    (ho : Outstanding c mgr pods groups e) :
    Filled c mgr [] groups (pods.foldl (bookTracked mgr) e) ∧
      Outstanding c mgr [] groups (pods.foldl (bookTracked mgr) e) := by
  induction pods generalizing e with
  | nil => exact ⟨hf, ho⟩
  | cons entry pods ih =>
    obtain ⟨hf', ho'⟩ := observe_round hf ho
    exact ih hf' ho'

/-- The stages of a start-up under the discipline: no tree and nothing booked, the rebuild
alone at work, and everything booked with the plugins at work. -/
inductive Stage (c : Coordinator ℤ) (e : Engine ℤ) (passed : List (Pod ℤ × PreFilterState ℤ)) :
    Progress → Prop
  | waiting (tree : e.tree = none) (book : e.book = ∅) (gangBook : e.gangBook = ∅)
      (quiet : passed = []) : Stage c e passed .waiting
  | filling {mgr : QueueManager ℤ} {pods : List (String × TrackedPod ℤ)}
      {groups : List (PodGroup ℤ)} (restorable : Restorable c mgr)
      (filled : Filled c mgr pods groups e) (left : Outstanding c mgr pods groups e)
      (quiet : passed = []) : Stage c e passed (.filling mgr pods groups)
  | finished {mgr : QueueManager ℤ} (filled : Filled c mgr [] [] e) :
      Stage c e passed (.filling mgr [] [])

/-- What every state of a disciplined start-up satisfies; only the engine changes. -/
structure Inv (c : Coordinator ℤ) (s : Startup) : Prop where
  frame : s.coord = { c with engine := s.coord.engine }
  stage : Stage c s.coord.engine s.passed s.progress

lemma Stage.idle {c : Coordinator ℤ} {e : Engine ℤ} {passed : List (Pod ℤ × PreFilterState ℤ)}
    {p : Progress} (h : Stage c e passed p) (hp : p.idle = true) :
    (e.tree = none ∧ p = .waiting) ∨ ∃ mgr, p = .filling mgr [] [] ∧ Filled c mgr [] [] e := by
  cases h with
  | waiting tree => exact .inl ⟨tree, rfl⟩
  | filling _ filled =>
    simp only [Progress.idle, Bool.and_eq_true, List.isEmpty_iff] at hp
    obtain ⟨rfl, rfl⟩ := hp
    exact .inr ⟨_, rfl, filled⟩
  | finished filled => exact .inr ⟨_, rfl, filled⟩

lemma preEnqueue_none {c : Coordinator ℤ} (ht : c.engine.tree = none) (pod : Pod ℤ) (now : ℤ) :
    (Gang.preEnqueue c pod now).1 = c := by
  have heff := Gang.preEnqueue_effect c pod now
  generalize (Gang.preEnqueue c pod now).1 = c' at heff ⊢
  cases heff with
  | none => rfl
  | admission _ _ _ _ leaf_ok => simp [Gang.resolveLeaf, ht] at leaf_ok

lemma preEnqueue_grows (c : Coordinator ℤ) (pod : Pod ℤ) (now : ℤ) :
    Grows c.engine (Gang.preEnqueue c pod now).1.engine := by
  have heff := Gang.preEnqueue_effect c pod now
  generalize (Gang.preEnqueue c pod now).1 = c' at heff ⊢
  cases heff with
  | none => exact .refl _
  | admission => exact grows_admitStep (admitGangWW_step _ _ _ _ _ _) (admitGangWW_book _ _ _ _ _ _)

section Steps
variable {c : Coordinator ℤ} {s : Startup}

lemma inv_publish (cap : Capacity ℤ) (hkeys : (c.podGroups.map PodGroup.key).Nodup)
    (hi : Inv c s) {bookOrder gangOrder trackedOrder : List String}
    (he : s.Enabled (.publish bookOrder gangOrder trackedOrder))
    (hb : Barred s (.publish bookOrder gangOrder trackedOrder)) :
    Inv c (s.step cap (.publish bookOrder gangOrder trackedOrder)) := by
  obtain ⟨coord, progress, passed⟩ := s
  obtain ⟨rfl, hbo, hgo, hto⟩ := he
  obtain ⟨hframe, hstage⟩ := hi
  dsimp only at hframe hstage hbo hgo hto
  generalize coord.engine = e at hframe hstage hbo hgo
  subst hframe
  cases hstage with
  | waiting tree book gangBook quiet =>
    rw [Startup.step]
    split
    · exact ⟨rfl, .waiting tree book gangBook quiet⟩
    · rename_i mgr hmgr
      dsimp only [Startup.setEngine]
      rw [rebuild_cold book gangBook mgr hbo hgo]
      obtain ⟨hf, ho⟩ := published (show assemble c.queues c.quotas = .ok mgr from hmgr) hkeys hto
        book gangBook
      exact ⟨rfl, .filling (hb mgr hmgr) hf ho quiet⟩

lemma inv_observe (cap : Capacity ℤ) (hi : Inv c s) : Inv c (s.step cap .observe) := by
  obtain ⟨coord, progress, passed⟩ := s
  obtain ⟨hframe, hstage⟩ := hi
  dsimp only at hframe hstage
  cases hstage with
  | waiting tree book gangBook quiet => exact ⟨hframe, .waiting tree book gangBook quiet⟩
  | @filling mgr pods groups restorable filled left quiet =>
    cases pods with
    | nil => exact ⟨hframe, .filling restorable filled left quiet⟩
    | cons entry pods =>
      obtain ⟨hf, ho⟩ := observe_round filled left
      refine ⟨?_, .filling restorable hf ho quiet⟩
      rw [hframe]
      rfl
  | finished filled => exact ⟨hframe, .finished filled⟩

lemma inv_recover (cap : Capacity ℤ) (hi : Inv c s) : Inv c (s.step cap .recover) := by
  obtain ⟨coord, progress, passed⟩ := s
  obtain ⟨hframe, hstage⟩ := hi
  dsimp only at hframe hstage
  cases hstage with
  | waiting tree book gangBook quiet => exact ⟨hframe, .waiting tree book gangBook quiet⟩
  | @filling mgr pods groups restorable filled left quiet =>
    match pods, groups with
    | [], [] => exact ⟨hframe, .filling restorable filled left quiet⟩
    | _ :: _, _ => exact ⟨hframe, .filling restorable filled left quiet⟩
    | [], pg :: groups =>
      obtain ⟨hf, ho⟩ := recover_round restorable filled left
      refine ⟨?_, .filling restorable hf ho quiet⟩
      rw [hframe]
      rfl
  | finished filled => exact ⟨hframe, .finished filled⟩

lemma inv_preFilter (cap : Capacity ℤ) (hi : Inv c s) {pod : Pod ℤ}
    (hb : Barred s (.preFilter pod)) : Inv c (s.step cap (.preFilter pod)) := by
  rw [Startup.step]
  split
  · exact hi
  · rename_i state hpass
    obtain ⟨t, hp⟩ := Capacity.preFilter_ok hpass
    rcases hi.stage.idle hb with ⟨tree, -⟩ | ⟨mgr, hprog, hf⟩
    · cases tree.symm.trans hp.tree
    · refine ⟨hi.frame, ?_⟩
      dsimp only
      rw [hprog]
      exact .finished hf

lemma inv_reserve (cap : Capacity ℤ) (hi : Inv c s) {pod : Pod ℤ} {state : PreFilterState ℤ}
    (he : s.Enabled (.reserve pod state)) : Inv c (s.step cap (.reserve pod state)) := by
  obtain ⟨coord, progress, passed⟩ := s
  obtain ⟨hframe, hstage⟩ := hi
  have hne : passed ≠ [] := List.ne_nil_of_mem he
  dsimp only at hframe hstage
  cases hstage with
  | waiting _ _ _ quiet => exact absurd quiet hne
  | filling _ _ _ quiet => exact absurd quiet hne
  | finished filled =>
    cases hg : state.gang with
    | true =>
      simp only [Startup.step, Capacity.reserve, hg, if_true]
      exact ⟨hframe, .finished filled⟩
    | false =>
      simp only [Startup.step, Capacity.reserve, hg, Bool.false_eq_true, if_false]
      refine ⟨?_, .finished (filled.grows (grows_reserve _ _ _ _))⟩
      rw [hframe]

lemma inv_preEnqueue (cap : Capacity ℤ) (hi : Inv c s) {pod : Pod ℤ} {now : ℤ}
    (hb : Barred s (.preEnqueue pod now)) : Inv c (s.step cap (.preEnqueue pod now)) := by
  rw [Startup.step]
  rcases hi.stage.idle hb with ⟨tree, -⟩ | ⟨mgr, hprog, hf⟩
  · rw [preEnqueue_none tree]
    exact hi
  · have hgrows := preEnqueue_grows s.coord pod now
    refine ⟨?_, ?_⟩
    · dsimp only
      rw [Gang.preEnqueue_rest, hi.frame]
    · dsimp only
      rw [hprog]
      exact .finished (hf.grows hgrows)

lemma inv_step {cap : Capacity ℤ} (hkeys : (c.podGroups.map PodGroup.key).Nodup) (hi : Inv c s)
    {a : Step} (he : ((startup cap).restrict Barred).enabled s a) : Inv c (s.step cap a) := by
  cases a with
  | publish => exact inv_publish cap hkeys hi he.1 he.2
  | observe => exact inv_observe cap hi
  | recover => exact inv_recover cap hi
  | preFilter => exact inv_preFilter cap hi he.2
  | reserve => exact inv_reserve cap hi he.1
  | preEnqueue => exact inv_preEnqueue cap hi he.2

end Steps

end AdScheduler.RecoveryBarrier
