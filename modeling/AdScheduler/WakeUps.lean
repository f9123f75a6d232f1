import AdScheduler.CriticalSections
import AdScheduler.Informers
import AdScheduler.PodTrials

/-! Waking refused pods up, after `activatePending` of `pkg/framework/coordinator.go` and its
callers. A handler that frees headroom activates the pending pods only after the release; pods are
tried before and after, with a tree or a leaf that a call has read earlier, and a refused pod goes
to sleep only later. Unreserve frees headroom and activates nobody: that is left to the scheduler,
which may requeue pods of its own accord. -/
namespace AdScheduler.WakeUps
open KeyedMap Resources QueueTree TreeShape Manager Conservation EngineCore Runs Requests NodeCache
open Placement TreeAssembly CoordinatorCore Plugins PodGroupStatus Informers Headroom
open CriticalSections GangSections PodTrials
open BookingPaths (Posting)

/-- The coordinator and how far its loops and handlers have come: pods that are tracked and to be
routed, or routed and to be booked; pods and gangs that are forgotten and to be released. Then the
activations that are to be made, those that have listed their pods, whether something was unreserved
since, and the pods that the scheduler tries. -/
structure Site where
  recon : Reconciler ℤ
  rebuild : Rebuild ℤ
  gc : Gc
  freed : ℕ
  sync : Sync ℤ
  check : Check ℤ
  routing : List (String × TrackedPod ℤ)
  booking : List (Posting ℤ)
  releasing : List String
  disbanding : List String
  owed : ℕ
  listed : List (List String)
  unreserved : Bool
  trials : List Trial

/-- The informers' events and the sections of their handlers; the sections of the loops; an
activation lists the pending pods (`list`) and hands them to the scheduler (`activate`). The
scheduler tries pods, with the sections of PreFilter and PreEnqueue, puts a refused one to sleep,
and wakes one or all of them by itself (`wake`, `requeue`). -/
inductive Step
  | nodeUpsert (name : String) (allocatable : ResourceList ℤ) (inPool : Bool)
  | nodeDelete (name : String)
  | podUpsert (pod : Pod ℤ)
  | podDelete (pod : Pod ℤ)
  | route (i : ℕ)
  | book (i : ℕ)
  | release (i : ℕ)
  | groupUpsert (pg : PodGroup ℤ)
  | groupDelete (pg : PodGroup ℤ)
  | disband (i : ℕ)
  | rebuild (orders : Orders)
  | gcStaleLedgers (order : List String)
  | syncGangStatuses (now : ℤ)
  | checkGangTimeouts (now : ℤ) (order : List String)
  | reclaimed
  | list
  | activate (i : ℕ)
  | preFilter (pod : Pod ℤ)
  | turnAway (i : ℕ)
  | askRoom (i : ℕ)
  | preEnqueue (pod : Pod ℤ)
  | proceed (i : ℕ) (now : ℤ)
  | reserve (state : PreFilterState ℤ) (pod : Pod ℤ)
  | postBind (state : PreFilterState ℤ) (pod : Pod ℤ)
  | unreserve (pod : Pod ℤ)
  | sleep (i : ℕ)
  | wake (uid : String)
  | requeue
  | stores (pods : List (Pod ℤ)) (podGroups : List (PodGroup ℤ)) (queues : List (QueueCR ℤ))
      (quotas : List (ResourceQuota ℤ))

/-- The new tree is live, and the rebuild has still to activate the pending pods. -/
def swapped : Rebuild ℤ → Bool
  | .published _ | .reseeding _ _ | .restoring _ _ => true
  | .idle | .assembled _ => false

/-- The next section of a rebuild replaces the live tree. -/
def swapping : Rebuild ℤ → Bool
  | .assembled _ => true
  | _ => false

/-- The last section of a rebuild; `activatePending` follows. -/
def restored : Rebuild ℤ → Bool
  | .restoring _ [] => true
  | _ => false

/-- The number of ledger entries that a section of `gcStaleLedgers` releases. -/
def freedBy (c : Coordinator ℤ) (order : List String) : Gc → ℕ
  | .listedPods live => (c.engine.gcBookings live order).2
  | .listedGroups live => (c.engine.gcGangs live order).2
  | .idle | .releasedBookings => 0

/-- The section of `checkGangTimeouts` that releases a gang; `activatePending` follows. -/
def givesUp : Check ℤ → Bool
  | .releasing _ _ => true
  | _ => false

namespace Site

def coord (s : Site) : Coordinator ℤ := s.recon.coord

def engine (s : Site) : Engine ℤ := s.coord.engine

def setCoord (s : Site) (c : Coordinator ℤ) : Site :=
  { s with recon := { s.recon with coord := c } }

def setEngine (s : Site) (e : Engine ℤ) : Site := s.setCoord { s.coord with engine := e }

/-- `onPodDelete` up to its unlock. A gang member has nothing to release. -/
def forget (s : Site) (pod : Pod ℤ) : Site :=
  { s.setCoord (deleteSection s.coord pod).1 with
    releasing := s.releasing ++ (deleteSection s.coord pod).2.toList
    owed := s.owed + if (s.coord.tracked.lookup pod.uid).any fun tp => tp.ours && tp.gang
      then 1 else 0 }

/-- The sections of `gcStaleLedgers`: after the last one the pending pods are activated if the pass
has released anything. -/
def collect (s : Site) (order : List String) : Site :=
  let after := s.gc.step s.coord order
  let freed := s.freed + freedBy s.coord order s.gc
  match s.gc with
  | .listedGroups _ =>
    { s.setCoord after.1 with
      gc := after.2, freed := 0, owed := s.owed + if 0 < freed then 1 else 0 }
  | _ => { s.setCoord after.1 with gc := after.2, freed := freed }

/-- One of the trials goes on. -/
def advance (s : Site) (i : ℕ) (f : Trial → List Trial) : Site :=
  match s.trials[i]? with
  | none => s
  | some x => { s with trials := s.trials.eraseIdx i ++ f x }

/-- Of the pods of a lost node only the deletions are seen here, as deletions like others. -/
def next (cap : Capacity ℤ) (s : Site) : Step → Site
  | .nodeUpsert name allocatable inPool => s.setCoord (s.coord.onNodeUpsert name allocatable inPool)
  | .nodeDelete name => s.setCoord { s.coord with cache := s.coord.cache.removeNode name }
  | .podUpsert pod =>
    if pod.nodeName = "" then s
    else if pod.terminal then s.forget pod
    else
      { s.setCoord (upsertSection s.coord pod).1 with
        routing := s.routing ++ (upsertSection s.coord pod).2.toList }
  | .podDelete pod => s.forget pod
  | .route i =>
    match s.routing[i]? with
    | none => s
    | some entry =>
      { s with
        routing := s.routing.eraseIdx i
        booking := s.booking ++ (routeSection s.coord entry).toList }
  | .book i =>
    match s.booking[i]? with
    | none => s
    | some p => { s.setEngine (observed s.engine p) with booking := s.booking.eraseIdx i }
  | .release i =>
    match s.releasing[i]? with
    | none => s
    | some uid =>
      { s.setEngine (s.engine.observeDeleted uid) with
        releasing := s.releasing.eraseIdx i, owed := s.owed + 1 }
  | .groupUpsert pg => s.setCoord (s.coord.onPodGroupUpsert pg)
  | .groupDelete pg =>
    { s.setCoord { s.coord with gangs := s.coord.gangs.erase pg.key } with
      disbanding := s.disbanding ++ [pg.key] }
  | .disband i =>
    match s.disbanding[i]? with
    | none => s
    | some key =>
      { s.setEngine (s.engine.releaseGang key) with
        disbanding := s.disbanding.eraseIdx i, owed := s.owed + 1 }
  | .rebuild orders =>
    { s.setCoord (s.rebuild.step s.coord orders).1 with
      rebuild := (s.rebuild.step s.coord orders).2
      owed := s.owed + if restored s.rebuild then 1 else 0
      trials := if swapping s.rebuild then s.trials.map (Trial.outlive s.engine.tree)
        else s.trials }
  | .gcStaleLedgers order => s.collect order
  | .syncGangStatuses now =>
    { s with recon := (s.sync.step s.recon now).1.1, sync := (s.sync.step s.recon now).2 }
  | .checkGangTimeouts now order =>
    { s with
      recon := (s.check.step s.recon now order).1.1
      check := (s.check.step s.recon now order).2
      owed := s.owed + if givesUp s.check then 1 else 0 }
  | .reclaimed => { s with owed := s.owed + 1 }
  | .list =>
    { s with
      owed := s.owed - 1, listed := s.listed ++ [pendingUids s.coord], unreserved := false }
  | .activate i =>
    match s.listed[i]? with
    | none => s
    | some uids =>
      { s with
        listed := s.listed.eraseIdx i
        trials := s.trials.filterMap (Trial.wake fun uid => decide (uid ∈ uids)) }
  | .preFilter pod => { s with trials := s.trials ++ Trial.preFilter cap s.coord pod }
  | .turnAway i => s.advance i Trial.turnAway
  | .askRoom i => s.advance i (Trial.askRoom s.coord)
  | .preEnqueue pod => { s with trials := s.trials ++ Trial.preEnqueue s.coord pod }
  | .proceed i now =>
    match s.trials[i]? with
    | none => s
    | some x =>
      { s.setCoord (x.proceed s.coord now).1 with
        trials := s.trials.eraseIdx i ++ (x.proceed s.coord now).2 }
  | .reserve state pod => s.setCoord (Capacity.reserve s.coord (some state) pod).1
  | .postBind state pod => s.setCoord (Capacity.postBind s.coord (some state) pod)
  | .unreserve pod => { s.setCoord (Capacity.unreserve s.coord pod) with unreserved := true }
  | .sleep i => s.advance i Trial.sleep
  | .wake uid => { s with trials := s.trials.filterMap (Trial.wake fun uid' => uid' = uid) }
  | .requeue =>
    { s with trials := s.trials.filterMap (Trial.wake fun _ => true), unreserved := false }
  | .stores pods podGroups queues quotas =>
    let c := { s.coord with
      pods := pods, podGroups := podGroups, queues := queues, quotas := quotas }
    { s.setCoord c with trials := s.trials.filterMap (Trial.review c) }

/-- Requests are not negative, and loops visit every entry once. -/
def Enabled (s : Site) : Step → Prop
  | .podUpsert pod => ∀ d, 0 ≤ get (effectiveRequest pod) d
  | .rebuild orders => s.rebuild.Ordered s.coord orders
  | .gcStaleLedgers order => s.gc.Ordered s.coord order
  | .checkGangTimeouts _ order => s.check.Ordered order
  | .list => 0 < s.owed
  | .reserve state _ => ∀ d, 0 ≤ get state.req d
  | _ => True

end Site

def site (cap : Capacity ℤ) : Machine Site Step := ⟨Site.Enabled, Site.next cap⟩

section Loops
variable {c : Coordinator ℤ}

lemma collect_quiet {A : Type*} {f : Engine ℤ × ℕ → A → Engine ℤ × ℕ}
    (hf : ∀ acc a, f acc a = acc ∨ (f acc a).2 = acc.2 + 1) (l : List A) (acc : Engine ℤ × ℕ) :
    acc.2 ≤ (l.foldl f acc).2 ∧ ((l.foldl f acc).2 = acc.2 → l.foldl f acc = acc) := by
  induction l generalizing acc with
  | nil => exact ⟨le_refl _, fun _ => rfl⟩
  | cons a rest ih =>
    obtain ⟨hle, hquiet⟩ := ih (f acc a)
    rw [List.foldl_cons]
    rcases hf acc a with hsame | hmore
    · rw [hsame] at hle hquiet ⊢
      exact ⟨hle, hquiet⟩
    · exact ⟨by omega, fun heq => by omega⟩

lemma gcBookings_quiet (e : Engine ℤ) (live : Finset String) (order : List String)
    (h : (e.gcBookings live order).2 = 0) : (e.gcBookings live order).1 = e := by
  unfold Engine.gcBookings at h ⊢
  cases ht : e.tree with
  | none => rfl
  | some t =>
    simp only [ht] at h
    have hloop := (collect_quiet (f := Engine.gcBookings.collect live) (fun acc a => by
      unfold Engine.gcBookings.collect
      split_ifs
      · exact .inl rfl
      · exact .inr rfl) (entries order e.book) (e, 0)).2 h
    exact congrArg Prod.fst hloop

lemma gcGangs_quiet (e : Engine ℤ) (live : Finset String) (order : List String)
    (h : (e.gcGangs live order).2 = 0) : (e.gcGangs live order).1 = e := by
  have hloop := (collect_quiet (f := Engine.gcGangs.collect live) (fun acc a => by
    unfold Engine.gcGangs.collect
    split_ifs
    · exact .inl rfl
    · exact .inr rfl) (entries order e.gangBook) (e, 0)).2 h
  exact congrArg Prod.fst hloop

lemma gc_step_quiet {gc : Gc} {order : List String} (h : freedBy c order gc = 0) :
    (gc.step c order).1.engine = c.engine := by
  cases gc with
  | idle | releasedBookings => rfl
  | listedPods live => exact gcBookings_quiet _ _ _ h
  | listedGroups live => exact gcGangs_quiet _ _ _ h

lemma rebuild_step_quiet {rebuild : Rebuild ℤ} {orders : Orders}
    (h : swapped (rebuild.step c orders).2 = false) (hrestored : restored rebuild = false) :
    (rebuild.step c orders).1.engine = c.engine := by
  cases rebuild with
  | idle => rw [rebuild_step_idle]
  | assembled | published => cases h
  | reseeding mgr left => cases left <;> cases h
  | restoring mgr left =>
    cases left with
    | nil => cases hrestored
    | cons => cases h

lemma swapped_step {rebuild : Rebuild ℤ} (orders : Orders) (h : swapped rebuild = true)
    (hrestored : restored rebuild = false) : swapped (rebuild.step c orders).2 = true := by
  cases rebuild with
  | idle | assembled => cases h
  | published => rfl
  | reseeding mgr left => cases left <;> rfl
  | restoring mgr left =>
    cases left with
    | nil => cases hrestored
    | cons => rfl

lemma check_step_quiet {r : Reconciler ℤ} {check : Check ℤ} {now : ℤ} {order : List String}
    (h : givesUp check = false) :
    (check.step r now order).1.1.coord.engine = r.coord.engine := by
  cases check with
  | idle | copied | counted | latching => rfl
  | judging cands => cases cands <;> rfl
  | releasing => cases h

end Loops

section Stores
variable {c c' : Coordinator ℤ}

lemma pendingUids_congr (hpods : c'.pods = c.pods)
    (hname : c'.cache.schedulerName = c.cache.schedulerName) : pendingUids c' = pendingUids c := by
  rw [pendingUids, pendingUids, pendingPods, pendingPods, hpods, hname]

lemma pendingUids_deleteSection (c : Coordinator ℤ) (pod : Pod ℤ) :
    pendingUids (deleteSection c pod).1 = pendingUids c := by
  unfold deleteSection
  split
  · rfl
  · exact pendingUids_congr rfl (Cache.onNode_schedulerName _ _ _)

lemma pendingUids_upsertSection (c : Coordinator ℤ) (pod : Pod ℤ) :
    pendingUids (upsertSection c pod).1 = pendingUids c := by
  unfold upsertSection
  split_ifs
  · rfl
  · exact pendingUids_congr rfl (Cache.onPodBound_schedulerName _ _)

lemma pendingUids_rebuild (c : Coordinator ℤ) (rebuild : Rebuild ℤ) (orders : Orders) :
    pendingUids (rebuild.step c orders).1 = pendingUids c := by
  cases rebuild with
  | idle => rw [rebuild_step_idle]
  | assembled | published => rfl
  | reseeding mgr left => cases left <;> rfl
  | restoring mgr left => cases left <;> rfl

lemma pendingUids_gc (c : Coordinator ℤ) (gc : Gc) (order : List String) :
    pendingUids (gc.step c order).1 = pendingUids c := by
  cases gc <;> rfl

lemma pendingUids_check (r : Reconciler ℤ) (check : Check ℤ) (now : ℤ) (order : List String) :
    pendingUids (check.step r now order).1.1.coord = pendingUids r.coord := by
  cases check with
  | idle | copied | counted | latching | releasing => rfl
  | judging cands => cases cands <;> rfl

end Stores

section Result
variable {cap : Capacity ℤ} {s s' : Site} {x y : Trial}

/-- An activation is to be made: its handler or loop has come to it, or has released something and
will come to it. -/
def Promised (s : Site) : Prop := 0 < s.owed ∨ 0 < s.freed ∨ swapped s.rebuild = true

/-- An activation has listed the pod, or one is to be made, or something was unreserved. -/
def Due (s : Site) (uid : String) : Prop :=
  (∃ uids ∈ s.listed, uid ∈ uids) ∨ Promised s ∨ s.unreserved = true

/-- The pod is pending, and what its trial has found holds or a wake-up is due, unless the trial was
overtaken. -/
structure Attended (s : Site) (x : Trial) : Prop where
  pending : x.overtaken = false ∨ x.isCall = false → x.pod.uid ∈ pendingUids s.coord
  holds : x.overtaken = false → x.Holds s.engine ∨ Due s x.pod.uid

def Bookable (s : Site) : Prop :=
  (∀ entry ∈ s.routing, ∀ d, 0 ≤ get entry.2.req d) ∧ ∀ p ∈ s.booking, ∀ d, 0 ≤ get p.req d

structure Waiting (s : Site) : Prop where
  attended : ∀ x ∈ s.trials, Attended s x
  bookable : Bookable s

def Untouched (s s' : Site) : Prop :=
  s'.trials = s.trials ∧ s'.listed = s.listed ∧ s'.unreserved = s.unreserved

lemma Due.keep {uid : String} (h : Due s uid) (hlisted : s'.listed = s.listed)
    (hunreserved : s'.unreserved = s.unreserved) (hpromised : Promised s → Promised s') :
    Due s' uid := by
  rcases h with hin | hdue | hun
  · exact .inl (hlisted ▸ hin)
  · exact .inr (.inl (hpromised hdue))
  · exact .inr (.inr (hunreserved.trans hun))

lemma Waiting.keep (h : Waiting s) (hsame : Untouched s s')
    (hpending : pendingUids s'.coord = pendingUids s.coord) (hbookable : Bookable s')
    (hfuller : Fuller s.engine s'.engine) (hpromised : Promised s → Promised s') :
    Waiting s' := by
  obtain ⟨htrials, hlisted, hunreserved⟩ := hsame
  refine ⟨fun x hx => ?_, hbookable⟩
  have hx' := h.attended x (htrials ▸ hx)
  refine ⟨fun hlive => hpending ▸ hx'.pending hlive, fun hon => ?_⟩
  exact (hx'.holds hon).imp (·.fuller hfuller) (·.keep hlisted hunreserved hpromised)

lemma Waiting.read (h : Waiting s) (hsame : Untouched s s')
    (hpending : pendingUids s'.coord = pendingUids s.coord) (hbookable : Bookable s')
    (hengine : s'.engine = s.engine) (hpromised : Promised s → Promised s') : Waiting s' :=
  h.keep hsame hpending hbookable (hengine ▸ .refl _) hpromised

lemma Waiting.promise (h : Waiting s) (hkin : ∀ y ∈ s'.trials, ∃ x ∈ s.trials, Trial.Kin x y)
    (hpending : pendingUids s'.coord = pendingUids s.coord) (hbookable : Bookable s')
    (hpromised : Promised s') : Waiting s' := by
  refine ⟨fun y hy => ?_, hbookable⟩
  obtain ⟨x, hx, hpod, hovertaken, hcall⟩ := hkin y hy
  refine ⟨fun hlive => ?_, fun _ => .inr (.inr (.inl hpromised))⟩
  rw [hpending, hpod]
  exact (h.attended x hx).pending (hovertaken ▸ hcall ▸ hlive)

lemma Waiting.owe (h : Waiting s) (htrials : s'.trials = s.trials)
    (hpending : pendingUids s'.coord = pendingUids s.coord) (hbookable : Bookable s')
    (howed : 0 < s'.owed) : Waiting s' :=
  h.promise (fun y hy => ⟨y, htrials ▸ hy, Trial.kin_refl y⟩) hpending hbookable (.inl howed)

lemma Waiting.retry (h : Waiting s) {trials : List Trial} (htrials : ∀ y ∈ trials, Attended s y) :
    Waiting { s with trials := trials } :=
  ⟨fun y hy => ⟨(htrials y hy).pending, (htrials y hy).holds⟩, h.bookable⟩

lemma Waiting.add (h : Waiting s) {trials : List Trial} (htrials : ∀ y ∈ trials, Attended s y) :
    Waiting { s with trials := s.trials ++ trials } :=
  h.retry fun y hy => (List.mem_append.mp hy).elim (h.attended y) (htrials y)

lemma Waiting.replace (h : Waiting s) (i : ℕ) {trials : List Trial}
    (htrials : ∀ y ∈ trials, Attended s y) :
    Waiting { s with trials := s.trials.eraseIdx i ++ trials } :=
  h.retry fun y hy => (List.mem_append.mp hy).elim
    (fun hold => h.attended y (List.mem_of_mem_eraseIdx hold)) (htrials y)

lemma Waiting.advance (h : Waiting s) (i : ℕ) {f : Trial → List Trial}
    (hf : ∀ x, Attended s x → ∀ y ∈ f x, Attended s y) : Waiting (s.advance i f) := by
  unfold Site.advance
  split
  · exact h
  rename_i x hi
  exact h.replace i (hf x (h.attended x (List.mem_of_getElem? hi)))

lemma Attended.overtake (h : Attended s x) (hcoord : s'.coord = s.coord) :
    Attended s' { x with overtaken := true } := by
  refine ⟨fun hlive => ?_, nofun⟩
  rw [hcoord]
  exact h.pending (hlive.imp_left nofun)

lemma Promised.owe (h : Promised s) (howed : s.owed ≤ s'.owed)
    (hfreed : s'.freed = s.freed) (hrebuild : s'.rebuild = s.rebuild) : Promised s' := by
  rcases h with h | h | h
  · exact .inl (h.trans_le howed)
  · exact .inr (.inl (hfreed ▸ h))
  · exact .inr (.inr (hrebuild ▸ h))

lemma waiting_forget (h : Waiting s) (pod : Pod ℤ) : Waiting (s.forget pod) :=
  h.read ⟨rfl, rfl, rfl⟩ (pendingUids_deleteSection s.coord pod) h.bookable
    (deleteSection_engine s.coord pod) fun hp => hp.owe (Nat.le_add_right _ _) rfl rfl

lemma waiting_podUpsert (h : Waiting s) {pod : Pod ℤ} (ha : s.Enabled (.podUpsert pod)) :
    Waiting (s.next cap (.podUpsert pod)) := by
  simp only [Site.next]
  split_ifs with hnode hterminal
  · exact h
  · exact waiting_forget h pod
  refine h.read ⟨rfl, rfl, rfl⟩ (pendingUids_upsertSection s.coord pod)
    ⟨fun entry hentry => ?_, h.bookable.2⟩ (upsertSection_engine s.coord pod) id
  rcases List.mem_append.mp hentry with hentry | hentry
  · exact h.bookable.1 entry hentry
  · by_cases htracked : pod.uid ∈ s.coord.tracked
    · simp [upsertSection, htracked] at hentry
    · simp only [upsertSection, if_neg htracked, Option.mem_toList,
        Option.ite_none_right_eq_some, Option.some.injEq] at hentry
      rw [← hentry.2]
      exact ha

lemma waiting_route (h : Waiting s) (i : ℕ) : Waiting (s.next cap (.route i)) := by
  simp only [Site.next]
  split
  · exact h
  rename_i entry hi
  refine h.read ⟨rfl, rfl, rfl⟩ rfl ⟨fun e he => ?_, fun p hp => ?_⟩ rfl id
  · exact h.bookable.1 e (List.mem_of_mem_eraseIdx he)
  · rcases List.mem_append.mp hp with hp | hp
    · exact h.bookable.2 p hp
    · obtain ⟨t, -, hleaf⟩ := Option.bind_eq_some_iff.mp (Option.mem_toList.mp hp)
      obtain ⟨leaf, -, rfl⟩ := Option.map_eq_some_iff.mp hleaf
      exact h.bookable.1 entry (List.mem_of_getElem? hi)

lemma waiting_book (h : Waiting s) (i : ℕ) : Waiting (s.next cap (.book i)) := by
  simp only [Site.next]
  split
  · exact h
  rename_i p hi
  refine h.keep ⟨rfl, rfl, rfl⟩ rfl ⟨h.bookable.1, fun q hq => ?_⟩ ?_ id
  · exact h.bookable.2 q (List.mem_of_mem_eraseIdx hq)
  · exact fuller_observeBound _ _ _ (h.bookable.2 p (List.mem_of_getElem? hi))

lemma swapped_of_swapping (c : Coordinator ℤ) {rebuild : Rebuild ℤ} (orders : Orders)
    (h : swapping rebuild = true) : swapped (rebuild.step c orders).2 = true := by
  cases rebuild with
  | assembled => rfl
  | idle | published | reseeding | restoring => cases h

lemma kin_rebuild (cap : Capacity ℤ) (s : Site) (orders : Orders) :
    ∀ y ∈ (s.next cap (.rebuild orders)).trials, ∃ x ∈ s.trials, Trial.Kin x y := by
  intro y hy
  simp only [Site.next] at hy
  split_ifs at hy
  · obtain ⟨x, hx, rfl⟩ := List.mem_map.mp hy
    exact ⟨x, hx, Trial.kin_outlive _ x⟩
  · exact ⟨y, hy, Trial.kin_refl y⟩

lemma waiting_rebuild (h : Waiting s) (orders : Orders) :
    Waiting (s.next cap (.rebuild orders)) := by
  have hpending := pendingUids_rebuild s.coord s.rebuild orders
  have hkin := kin_rebuild cap s orders
  cases hrestored : restored s.rebuild with
  | true =>
    refine h.promise hkin hpending h.bookable (.inl ?_)
    simp [Site.next, hrestored]
  | false =>
    have howed : (s.next cap (.rebuild orders)).owed = s.owed := by simp [Site.next, hrestored]
    cases hswapped : swapped (s.rebuild.step s.coord orders).2 with
    | true => exact h.promise hkin hpending h.bookable (.inr (.inr hswapped))
    | false =>
      have htrials : (s.next cap (.rebuild orders)).trials = s.trials := by
        refine if_neg fun hswapping => ?_
        rw [swapped_of_swapping s.coord orders hswapping] at hswapped
        cases hswapped
      refine h.read ⟨htrials, rfl, rfl⟩ hpending h.bookable
        (rebuild_step_quiet hswapped hrestored) fun hp => ?_
      rcases hp with hp | hp | hp
      · exact .inl (howed ▸ hp)
      · exact .inr (.inl hp)
      · rw [swapped_step orders hp hrestored] at hswapped
        cases hswapped

lemma collect_eq (s : Site) (order : List String) :
    (s.collect order).recon = { s.recon with coord := (s.gc.step s.coord order).1 } ∧
      Untouched s (s.collect order) ∧ (s.collect order).rebuild = s.rebuild ∧
      (s.collect order).routing = s.routing ∧ (s.collect order).booking = s.booking ∧
      s.owed ≤ (s.collect order).owed ∧
      (0 < s.freed + freedBy s.coord order s.gc →
        0 < (s.collect order).owed ∨ 0 < (s.collect order).freed) := by
  unfold Site.collect
  cases s.gc with
  | listedGroups live =>
    refine ⟨rfl, ⟨rfl, rfl, rfl⟩, rfl, rfl, rfl, Nat.le_add_right _ _, fun hfreed => .inl ?_⟩
    simp only [if_pos hfreed]
    omega
  | idle | listedPods | releasedBookings =>
    exact ⟨rfl, ⟨rfl, rfl, rfl⟩, rfl, rfl, rfl, le_rfl, .inr⟩

lemma waiting_collect (h : Waiting s) (order : List String) : Waiting (s.collect order) := by
  obtain ⟨hrecon, hsame, hrebuild, hrouting, hbooking, howed, hfreed⟩ := collect_eq s order
  have hcoord : (s.collect order).coord = (s.gc.step s.coord order).1 := by
    rw [Site.coord, hrecon]
  have hpending : pendingUids (s.collect order).coord = pendingUids s.coord := by
    rw [hcoord, pendingUids_gc]
  have hbookable : Bookable (s.collect order) := by
    rw [Bookable, hrouting, hbooking]
    exact h.bookable
  rcases Nat.eq_zero_or_pos (s.freed + freedBy s.coord order s.gc) with hzero | hpos
  · obtain ⟨hold, hnone⟩ := Nat.add_eq_zero_iff.mp hzero
    refine h.read hsame hpending hbookable ?_ fun hp => ?_
    · rw [Site.engine, hcoord]
      exact gc_step_quiet hnone
    · rcases hp with hp | hp | hp
      · exact .inl (hp.trans_le howed)
      · omega
      · exact .inr (.inr (hrebuild ▸ hp))
  · exact h.promise (fun y hy => ⟨y, hsame.1 ▸ hy, Trial.kin_refl y⟩) hpending hbookable
      ((hfreed hpos).imp_right .inl)

lemma waiting_check (h : Waiting s) (now : ℤ) (order : List String) :
    Waiting (s.next cap (.checkGangTimeouts now order)) := by
  have hpending := pendingUids_check s.recon s.check now order
  cases hgives : givesUp s.check with
  | true =>
    refine h.owe rfl hpending h.bookable ?_
    simp [Site.next, hgives]
  | false =>
    refine h.read ⟨rfl, rfl, rfl⟩ hpending h.bookable (check_step_quiet hgives) fun hp => ?_
    exact hp.owe (Nat.le_add_right _ _) rfl rfl

lemma waiting_list (h : Waiting s) : Waiting (s.next cap .list) := by
  refine ⟨fun x hx => ⟨(h.attended x hx).pending, fun hon => ?_⟩, h.bookable⟩
  have hin := (h.attended x hx).pending (.inl hon)
  exact .inr (.inl ⟨pendingUids s.coord, List.mem_append_right _ (List.mem_singleton_self _), hin⟩)

lemma waiting_activate (h : Waiting s) (i : ℕ) : Waiting (s.next cap (.activate i)) := by
  simp only [Site.next]
  split
  · exact h
  rename_i uids hi
  refine ⟨fun y hy => ?_, h.bookable⟩
  obtain ⟨x, hx, hwake⟩ := List.mem_filterMap.mp hy
  have hx' := h.attended x hx
  rcases Trial.wake_eq_some hwake with ⟨rfl, hout⟩ | ⟨rfl, -⟩
  · refine ⟨hx'.pending, fun hon => (hx'.holds hon).imp_right fun hdue => ?_⟩
    refine hdue.imp_left ?_
    rintro ⟨l, hl, hin⟩
    obtain ⟨j, hj⟩ := List.mem_iff_getElem?.mp hl
    have hne : j ≠ i := by
      rintro rfl
      rw [hi] at hj
      exact of_decide_eq_false hout (Option.some.inj hj ▸ hin)
    exact ⟨l, List.mem_eraseIdx_iff_getElem?.mpr ⟨j, hne, hj⟩, hin⟩
  · exact hx'.overtake rfl

lemma attended_preFilter (cap : Capacity ℤ) (s : Site) (pod : Pod ℤ) :
    ∀ y ∈ Trial.preFilter cap s.coord pod, Attended s y := by
  intro y hy
  unfold Trial.preFilter at hy
  split at hy
  · rename_i answer hread
    obtain ⟨hpending, w, hw, rfl⟩ := Trial.mem_refuse hy
    exact ⟨fun _ => hpending, fun _ => .inl (readTree_refused hread hw)⟩
  · rename_i hread
    rw [List.mem_singleton] at hy
    subst hy
    refine ⟨fun hlive => ?_, fun _ => .inl ⟨rfl, readTree_goesOn hread⟩⟩
    simpa [Trial.isPending, Trial.isCall] using hlive

lemma attended_askRoom (hx : Attended s x) : ∀ y ∈ x.askRoom s.coord, Attended s y := by
  intro y hy
  unfold Trial.askRoom at hy
  split at hy
  · rename_i leaf req replaced hprogress
    obtain ⟨hpending, w, hw, rfl⟩ := Trial.mem_refuse hy
    refine ⟨fun _ => hpending, fun hon => (hx.holds hon).imp_left fun hholds => ?_⟩
    simp only [Trial.Holds, hprogress] at hholds
    obtain ⟨rfl, t, ht, hleaf⟩ := hholds
    rw [Option.none_or, show s.coord.engine.tree = some t from ht, Option.bind_some] at hw
    obtain ⟨hroute, hfull⟩ := askRoom_refused hw
    exact Stands.roomFor ⟨t, ht, hroute ▸ hleaf⟩ (by rw [ht, Option.any_some, hfull])
  · rw [List.mem_singleton.mp hy]
    exact hx

lemma attended_preEnqueue (s : Site) (pod : Pod ℤ) :
    ∀ y ∈ Trial.preEnqueue s.coord pod, Attended s y := by
  intro y hy
  unfold Trial.preEnqueue at hy
  split at hy
  · simp at hy
  rename_i key name _
  split at hy
  · simp at hy
  rename_i stage hstage
  rw [List.mem_singleton] at hy
  subst hy
  refine ⟨fun hlive => by simpa [Trial.isPending, Trial.isCall] using hlive, fun _ => .inl ?_⟩
  intro p hp
  rw [place?_readRegistry hstage] at hp
  cases hp

lemma attended_proceed (hx : Attended s x) (now : ℤ) :
    ∀ y ∈ (x.proceed s.coord now).2, Attended s y := by
  intro y hy
  unfold Trial.proceed at hy
  split at hy
  · rename_i key stage hprogress
    dsimp only at hy
    split at hy
    · rename_i stage' hstep
      rw [List.mem_singleton] at hy
      subst hy
      refine ⟨fun hlive => hx.pending (hlive.imp_right fun hfalse => ?_),
        fun hon => (hx.holds hon).imp_left fun hholds p hp => ?_⟩
      · simp [Trial.isCall] at hfalse
      simp only [Trial.Holds, hprogress] at hholds
      exact (step_goesOn hstep hp).elim (hholds p) id
    · rename_i answer hstep
      obtain ⟨hpending, w, hw, rfl⟩ := Trial.mem_refuse hy
      refine ⟨fun _ => hpending, fun hon => (hx.holds hon).imp_left fun hholds => ?_⟩
      simp only [Trial.Holds, hprogress] at hholds
      rcases gangWish_full hstep hw with hroom | ⟨p, hp, hroute, hfull⟩
      · exact hroom
      · exact Stands.roomFor (hroute ▸ hholds p hp) hfull
  · rw [List.mem_singleton.mp hy]
    exact hx

lemma attended_sleep (hx : Attended s x) : ∀ y ∈ x.sleep, Attended s y := by
  intro y hy
  unfold Trial.sleep at hy
  split at hy
  · rename_i wish hprogress
    rw [List.mem_singleton.mp hy]
    refine ⟨fun _ => hx.pending (.inr (by simp [Trial.isCall, hprogress])), fun hon => ?_⟩
    have hholds := hx.holds hon
    simp only [Trial.Holds, hprogress] at hholds
    exact hholds
  · rw [List.mem_singleton.mp hy]
    exact hx

lemma attended_turnAway (hx : Attended s x) : ∀ y ∈ x.turnAway, Attended s y := by
  intro y hy
  unfold Trial.turnAway at hy
  split at hy
  · simp at hy
  · rw [List.mem_singleton.mp hy]
    exact hx

lemma waiting_proceed (h : Waiting s) (i : ℕ) (now : ℤ) :
    Waiting (s.next cap (.proceed i now)) := by
  simp only [Site.next]
  split
  · exact h
  rename_i x hi
  have hx := h.attended x (List.mem_of_getElem? hi)
  exact (h.replace i (attended_proceed hx now)).keep ⟨rfl, rfl, rfl⟩
    (pendingUids_proceed s.coord now x) h.bookable (fuller_proceed s.coord now x) id

lemma waiting_reserve (h : Waiting s) {state : PreFilterState ℤ} {pod : Pod ℤ}
    (ha : s.Enabled (.reserve state pod)) : Waiting (s.next cap (.reserve state pod)) := by
  refine h.keep ⟨rfl, rfl, rfl⟩ ?_ h.bookable ?_ id
  all_goals
    simp only [Site.next, Site.setCoord, Site.coord, Site.engine, Capacity.reserve]
    split_ifs
  · rfl
  · rfl
  · exact .refl _
  · exact fuller_reserve _ _ _ ha

lemma waiting_postBind (h : Waiting s) (state : PreFilterState ℤ) (pod : Pod ℤ) :
    Waiting (s.next cap (.postBind state pod)) := by
  refine h.keep ⟨rfl, rfl, rfl⟩ ?_ h.bookable ?_ id
  all_goals
    simp only [Site.next, Site.setCoord, Site.coord, Site.engine, Capacity.postBind]
    split_ifs
  · rfl
  · rfl
  · exact .refl _
  · exact fuller_commit _ _

lemma waiting_stores (h : Waiting s) (pods : List (Pod ℤ)) (podGroups : List (PodGroup ℤ))
    (queues : List (QueueCR ℤ)) (quotas : List (ResourceQuota ℤ)) :
    Waiting (s.next cap (.stores pods podGroups queues quotas)) := by
  refine ⟨fun y hy => ?_, h.bookable⟩
  obtain ⟨x, hx, hreview⟩ := List.mem_filterMap.mp hy
  rcases Trial.review_eq_some hreview with ⟨rfl, hpending⟩ | ⟨rfl, hcall⟩
  · exact ⟨fun _ => hpending, (h.attended _ hx).holds⟩
  · refine ⟨fun hlive => ?_, nofun⟩
    rcases hlive with hfalse | hfalse
    · cases hfalse
    · cases hcall.symm.trans hfalse

lemma Waiting.woken (h : Waiting s) (woken : String → Bool) :
    Waiting { s with trials := s.trials.filterMap (Trial.wake woken) } := by
  refine h.retry fun y hy => ?_
  obtain ⟨x, hx, hwake⟩ := List.mem_filterMap.mp hy
  rcases Trial.wake_eq_some hwake with ⟨rfl, -⟩ | ⟨rfl, -⟩
  · exact h.attended _ hx
  · exact (h.attended x hx).overtake rfl

lemma waiting_requeue (h : Waiting s) : Waiting (s.next cap .requeue) := by
  refine ⟨fun y hy => ?_, h.bookable⟩
  obtain ⟨x, hx, hwake⟩ := List.mem_filterMap.mp hy
  rcases Trial.wake_eq_some hwake with ⟨-, hfalse⟩ | ⟨rfl, -⟩
  · cases hfalse
  · exact (h.attended x hx).overtake rfl

lemma waiting_step (h : Waiting s) {a : Step} (ha : s.Enabled a) : Waiting (s.next cap a) := by
  cases a with
  | nodeUpsert | nodeDelete | groupUpsert | groupDelete =>
    exact h.read ⟨rfl, rfl, rfl⟩ rfl h.bookable rfl id
  | podUpsert pod => exact waiting_podUpsert h ha
  | podDelete pod => exact waiting_forget h pod
  | route i => exact waiting_route h i
  | book i => exact waiting_book h i
  | release i =>
    simp only [Site.next]
    split
    · exact h
    · exact h.owe rfl rfl h.bookable (Nat.succ_pos _)
  | disband i =>
    simp only [Site.next]
    split
    · exact h
    · exact h.owe rfl rfl h.bookable (Nat.succ_pos _)
  | rebuild orders => exact waiting_rebuild h orders
  | gcStaleLedgers order => exact waiting_collect h order
  | syncGangStatuses now =>
    have hcoord := Sync.step_coord s.recon now s.sync
    exact h.read ⟨rfl, rfl, rfl⟩ (congrArg pendingUids hcoord) h.bookable
      (congrArg Coordinator.engine hcoord) id
  | checkGangTimeouts now order => exact waiting_check h now order
  | reclaimed => exact h.owe rfl rfl h.bookable (Nat.succ_pos _)
  | list => exact waiting_list h
  | activate i => exact waiting_activate h i
  | preFilter pod => exact h.add (attended_preFilter cap s pod)
  | turnAway i => exact h.advance i fun _ => attended_turnAway
  | askRoom i => exact h.advance i fun _ => attended_askRoom
  | preEnqueue pod => exact h.add (attended_preEnqueue s pod)
  | proceed i now => exact waiting_proceed h i now
  | reserve state pod => exact waiting_reserve h ha
  | postBind state pod => exact waiting_postBind h state pod
  | unreserve pod =>
    exact ⟨fun x hx => ⟨(h.attended x hx).pending, fun _ => .inr (.inr (.inr rfl))⟩, h.bookable⟩
  | sleep i => exact h.advance i fun _ => attended_sleep
  | wake uid => exact h.woken _
  | requeue => exact waiting_requeue h
  | stores pods podGroups queues quotas => exact waiting_stores h pods podGroups queues quotas

/-- Nobody is tried or asleep, and no booking is on its way. -/
def Quiet (s : Site) : Prop := s.trials = [] ∧ s.routing = [] ∧ s.booking = []

lemma Quiet.waiting (h : Quiet s) : Waiting s := by
  obtain ⟨htrials, hrouting, hbooking⟩ := h
  exact ⟨by simp [htrials], by simp [Bookable, hrouting, hbooking]⟩

lemma Waiting.awake (h : Waiting s) (cap : Capacity ℤ) {i : ℕ}
    (hlisted : s.listed[i]? = some (pendingUids s.coord)) :
    ∀ x ∈ (s.next cap (.activate i)).trials, x.isAsleep = false := by
  intro y hy
  simp only [Site.next, hlisted] at hy
  obtain ⟨x, hx, hwake⟩ := List.mem_filterMap.mp hy
  rcases Trial.wake_eq_some hwake with ⟨rfl, hout⟩ | ⟨rfl, hawake⟩
  · by_contra hasleep
    rw [Bool.not_eq_false] at hasleep
    refine of_decide_eq_false hout ((h.attended _ hx).pending (.inr ?_))
    exact Trial.isCall_of_isAsleep hasleep
  · exact hawake

/-- In every interleaving of the handlers, the loops, the sections of the plugins, the activations
and the scheduler, a sleeping pod whose trial was not overtaken has no room, or an activation has
listed it, or one is to be made and the pod is pending, or something was unreserved and no
activation has listed its pods since. An activation that is made then leaves no pod asleep. -/
theorem no_wake_up_is_lost {t : Site} {steps : List Step} (hs : Quiet s)
    (hrun : Run (site cap) s steps t) :
    (∀ x ∈ t.trials, ∀ wish, x.asleepFor = some wish → x.overtaken = false →
      roomFor t.engine wish = false ∨ (∃ uids ∈ t.listed, x.pod.uid ∈ uids) ∨
      Promised t ∧ x.pod.uid ∈ pendingUids t.coord ∨ t.unreserved = true) ∧
    ∀ x ∈ ((t.next cap .list).next cap (.activate t.listed.length)).trials,
      x.isAsleep = false := by
  have hwaiting : Waiting t :=
    hrun.invariant (I := Waiting) hs.waiting fun u a hu ha => waiting_step hu ha
  refine ⟨fun x hx wish hwish hon => ?_, ?_⟩
  · have hpending := (hwaiting.attended x hx).pending (.inl hon)
    have hholds := (hwaiting.attended x hx).holds hon
    simp only [Trial.Holds, Trial.progress_of_asleepFor hwish] at hholds
    rcases hholds with h | h | h | h
    · exact .inl h
    · exact .inr (.inl h)
    · exact .inr (.inr (.inl ⟨h, hpending⟩))
    · exact .inr (.inr (.inr h))
  · exact (waiting_list hwaiting).awake cap (by simp [Site.next, Site.coord])

def fullLeaf : Site :=
  let c := newCoordinator (engineOn 60 (treeOf (oneTenant 10) oneTenant_isOk))
  { recon := ⟨({ c with pods := [barePod "late" "team" "runner" 4] }).onPodUpsert (boundPod 8),
      ∅, ∅⟩
    rebuild := .idle, gc := .idle, freed := 0, sync := .idle, check := .idle
    routing := [], booking := [], releasing := [], disbanding := [], owed := 0, listed := []
    unreserved := false, trials := [] }

def lateRelease : List Step :=
  [.preFilter (barePod "late" "team" "runner" 4), .askRoom 0, .podDelete (boundPod 8), .sleep 0,
    .release 0]

theorem late_release_wakes :
    let cap : Capacity ℤ := ⟨none, none, false, false⟩
    let t := lateRelease.foldl (site cap).next fullLeaf
    (∃ x ∈ t.trials, x.pod.uid = "late" ∧ ∃ wish, x.asleepFor = some wish ∧
      roomFor t.engine wish = true) ∧ Promised t ∧
      ∀ x ∈ ((t.next cap .list).next cap (.activate t.listed.length)).trials,
        x.isAsleep = false := by
  intro cap t
  have hlate : t.trials.map (fun x => (x.pod.uid, x.overtaken)) = [("late", false)] := by
    decide +kernel
  have hrooms : (t.trials.all fun x => x.asleepFor.any (roomFor t.engine)) = true := by
    decide +kernel
  have hlisted : t.listed = [] := by decide +kernel
  have hkept : t.unreserved = false := by decide +kernel
  have hrun : Run (site cap) fullLeaf lateRelease t :=
    Machine.Legal.run ⟨trivial, trivial, trivial, trivial, trivial, trivial⟩
  obtain ⟨hall, hwakes⟩ := no_wake_up_is_lost ⟨rfl, rfl, rfl⟩ hrun
  obtain ⟨x, hx, huid⟩ := List.mem_map.mp (hlate ▸ List.mem_singleton_self ("late", false))
  have hon : x.overtaken = false := congrArg Prod.snd huid
  obtain ⟨wish, hwish, hroom⟩ := (Option.any_eq_true _ _).mp (List.all_eq_true.mp hrooms x hx)
  refine ⟨⟨x, hx, congrArg Prod.fst huid, wish, hwish, hroom⟩, ?_, hwakes⟩
  rcases hall x hx wish hwish hon with hnone | hin | hpromised | hun
  · cases hnone.symm.trans hroom
  · simp [hlisted] at hin
  · exact hpromised.1
  · cases hkept.symm.trans hun

end Result


end AdScheduler.WakeUps
