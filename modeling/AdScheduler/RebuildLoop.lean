import AdScheduler.Coalescing
import AdScheduler.QueueDrain
import AdScheduler.RebuildRecompute

/-! The loop that keeps the live tree up to date, after `Start`, `triggerRebuild`,
`queueSpecChanged`, `resourceQuotaHardChanged`, `rebuildLoop` and `rebuild` of
`pkg/framework/coordinator.go`. The store of an informer is ahead of its handlers, and the two
informers are independent of each other and of the loop. The channel of the loop has room for
one token. -/
namespace AdScheduler.RebuildLoop
open KeyedMap Resources QueueTree Manager Conservation LedgerTree EngineCore Requests TreeAssembly
open CoordinatorCore GangAgreement QueueDrain RebuildRecompute Runs Coalescing

inductive Notice (T : Type*)
  | added (new : T)
  | updated (old new : T)
  | deleted (old : T)

/-- The store and the notices that are not handled yet. -/
structure Informer (T : Type*) where
  store : List T
  notices : List (Notice T)

inductive Change (T : Type*)
  | put (new : T)
  | drop (id : String × String)

section Informer
variable {T : Type*} (ident : T → String × String)

/-- Put a version in the place of the one with its name, or at the end. -/
def upsert (new : T) : List T → List T × Notice T
  | [] => ([new], .added new)
  | old :: rest =>
    if ident old = ident new then (new :: rest, .updated old new)
    else (old :: (upsert new rest).1, (upsert new rest).2)

def remove (id : String × String) : List T → List T × List (Notice T)
  | [] => ([], [])
  | old :: rest =>
    if ident old = id then (rest, [.deleted old])
    else (old :: (remove id rest).1, (remove id rest).2)

namespace Informer

/-- The store after a change, and what the handlers will be told of it. -/
def effect (inf : Informer T) : Change T → List T × List (Notice T)
  | .put new => ((upsert ident new inf.store).1, [(upsert ident new inf.store).2])
  | .drop id => remove ident id inf.store

def apply (inf : Informer T) (c : Change T) : Informer T :=
  ⟨(inf.effect ident c).1, inf.notices ++ (inf.effect ident c).2⟩

def handled (inf : Informer T) : Informer T := { inf with notices := inf.notices.tail }

end Informer

variable {ident} {X : Type*}

lemma filterMap_upsert (f : T → Option X) {new : T} {l : List T} {old : T}
    (h : (upsert ident new l).2 = .updated old new) (hf : f old = f new) :
    (upsert ident new l).1.filterMap f = l.filterMap f := by
  induction l with
  | nil => simp [upsert] at h
  | cons x rest ih =>
    unfold upsert at h ⊢
    split_ifs at h ⊢ with hx
    · cases h
      simp [List.filterMap_cons, hf]
    · simp only [List.filterMap_cons, ih h]

lemma ident_of_updated {old new : T} {l : List T} (h : (upsert ident new l).2 = .updated old new) :
    ident old = ident new := by
  induction l with
  | nil => simp [upsert] at h
  | cons x rest ih =>
    unfold upsert at h
    split_ifs at h with hx
    · cases h
      exact hx
    · exact ih h

lemma upsert_notice (ident : T → String × String) (new : T) (l : List T) :
    (upsert ident new l).2 = .added new ∨ ∃ old, (upsert ident new l).2 = .updated old new := by
  induction l with
  | nil => exact .inl rfl
  | cons x rest ih =>
    unfold upsert
    split_ifs
    · exact .inr ⟨x, rfl⟩
    · exact ih

lemma remove_store (ident : T → String × String) (id : String × String) (l : List T) :
    (remove ident id l).1 = l ∨ ∃ old, .deleted old ∈ (remove ident id l).2 := by
  induction l with
  | nil => exact .inl rfl
  | cons x rest ih =>
    unfold remove
    split_ifs
    · exact .inr ⟨x, by simp⟩
    · exact ih.imp (fun h => by rw [h]) fun h => h

lemma effect_counts {f : T → Option X} {counts : Notice T → Bool} (inf : Informer T) (c : Change T)
    (hadded : ∀ new, counts (.added new) = true) (hdeleted : ∀ old, counts (.deleted old) = true)
    (hupdated : ∀ old new, c = .put new → (upsert ident new inf.store).2 = .updated old new →
      counts (.updated old new) = false → f old = f new)
    (h : (inf.effect ident c).1.filterMap f ≠ inf.store.filterMap f) :
    ∃ n ∈ (inf.effect ident c).2, counts n = true := by
  cases c with
  | put new =>
    refine ⟨_, List.mem_singleton_self _, ?_⟩
    rcases upsert_notice ident new inf.store with hn | ⟨old, hn⟩
    · rw [hn, hadded]
    · by_contra hc
      rw [hn, Bool.not_eq_true] at hc
      exact h (filterMap_upsert f hn (hupdated old new rfl hn hc))
  | drop id =>
    rcases remove_store ident id inf.store with hs | ⟨old, hold⟩
    · exact absurd (by simp only [Informer.effect, hs]) h
    · exact ⟨_, hold, hdeleted old⟩

end Informer

/-- A version of a Queue in the store of its informer. An object that does not convert is
malformed. -/
structure QueueVersion (V : Type*) where
  ns : String
  name : String
  uid : ℕ
  generation : ℕ
  converted : Option (QueueCR V)
  status : QueueStatus

/-- A version of a ResourceQuota, with exact quantities. -/
structure QuotaVersion where
  ns : String
  name : String
  specHard : Map String ℚ
  statusHard : Map String ℚ
  statusUsed : Map String ℚ

def QueueVersion.ident {V : Type*} (q : QueueVersion V) : String × String := (q.ns, q.name)

def QuotaVersion.ident (q : QuotaVersion) : String × String := (q.ns, q.name)

def queueSpecChanged {V : Type*} (old new : QueueVersion V) : Bool :=
  decide (old.generation ≠ new.generation)

def resourceListEqual (a b : Map String ℚ) : Bool :=
  decide (a.keys.card = b.keys.card) && decide (∀ k ∈ a.keys, k ∈ b.keys ∧ a.lookup k = b.lookup k)

def resourceQuotaHardChanged (old new : QuotaVersion) : Bool :=
  !resourceListEqual old.statusHard new.statusHard || !resourceListEqual old.specHard new.specHard

def queueTriggers {V : Type*} : Notice (QueueVersion V) → Bool
  | .added _ | .deleted _ => true
  | .updated old new => queueSpecChanged old new

def quotaTriggers : Notice QuotaVersion → Bool
  | .added _ | .deleted _ => true
  | .updated old new => resourceQuotaHardChanged old new

lemma resourceListEqual_eq {a b : Map String ℚ} (h : resourceListEqual a b = true) : a = b := by
  rw [resourceListEqual, Bool.and_eq_true, decide_eq_true_eq, decide_eq_true_eq] at h
  have hkeys : a.keys = b.keys :=
    Finset.eq_of_subset_of_card_le (fun k hk => (h.2 k hk).1) (le_of_eq h.1.symm)
  apply Finmap.ext_lookup
  intro k
  by_cases hk : k ∈ a.keys
  · exact (h.2 k hk).2
  · rw [Finmap.lookup_eq_none.mpr (mt Finmap.mem_keys.mpr hk),
      Finmap.lookup_eq_none.mpr (mt Finmap.mem_keys.mpr (hkeys ▸ hk))]

section Reading
variable {V : Type*} (quantity : ℚ → Quantity V)

def quantities (hard : Map String ℚ) : ResourceList V :=
  tabulate hard.keys fun k => quantity ((hard.lookup k).getD 0)

def QuotaVersion.read (q : QuotaVersion) : ResourceQuota V :=
  ⟨q.ns, quantities quantity q.specHard, quantities quantity q.statusHard⟩

/-- What a rebuild lists of the stores: malformed Queues are skipped. -/
def listQueues (store : List (QueueVersion V)) : List (QueueCR V) :=
  store.filterMap QueueVersion.converted

def listQuotas (store : List QuotaVersion) : List (ResourceQuota V) :=
  store.filterMap fun q => some (q.read quantity)

lemma read_of_hard_kept {old new : QuotaVersion} (hns : old.ns = new.ns)
    (h : resourceQuotaHardChanged old new = false) :
    old.read quantity = new.read quantity := by
  rw [resourceQuotaHardChanged, Bool.or_eq_false_iff, Bool.not_eq_false', Bool.not_eq_false'] at h
  simp only [QuotaVersion.read, hns, resourceListEqual_eq h.1, resourceListEqual_eq h.2]

end Reading

/-- The loop waits for the caches, for a token, or for the end of the debounce window; while
it rebuilds, it holds the Queues it has listed. -/
inductive Stage (V : Type*)
  | starting
  | idle
  | draining
  | listed (queues : List (QueueCR V))

/-- The coordinator, its informers and its loop. The queues and quotas in the coordinator are
those that the last rebuild listed. -/
structure Loop (V : Type*) [CommRing V] [LinearOrder V] where
  coord : Coordinator V
  queueInf : Informer (QueueVersion V)
  rqInf : Informer QuotaVersion
  synced : Bool
  rebuildCh : Bool
  stage : Stage V
  rebuilds : ℕ

inductive Label (V : Type*) [CommRing V] [LinearOrder V]
  | queue (c : Change (QueueVersion V))
  | quota (c : Change QuotaVersion)
  | handleQueue
  | handleQuota
  | sync
  | token
  | coalesce
  | list
  | rebuild (bookOrder gangOrder trackedOrder : List String)
  | call (c : Call V)

variable {V : Type*} [CommRing V] [LinearOrder V]

namespace Loop

/-- The two integer readings of an exact quantity are a parameter. -/
def next (quantity : ℚ → Quantity V) (s : Loop V) : Label V → Loop V
  | .queue c => { s with queueInf := s.queueInf.apply QueueVersion.ident c }
  | .quota c => { s with rqInf := s.rqInf.apply QuotaVersion.ident c }
  | .handleQueue =>
    { s with
      queueInf := s.queueInf.handled
      rebuildCh := s.rebuildCh || s.queueInf.notices.head?.any queueTriggers }
  | .handleQuota =>
    { s with
      rqInf := s.rqInf.handled
      rebuildCh := s.rebuildCh || s.rqInf.notices.head?.any quotaTriggers }
  | .sync => { s with synced := true }
  | .token => { s with rebuildCh := false, stage := .draining }
  | .coalesce => { s with rebuildCh := false }
  | .list => { s with stage := .listed (listQueues s.queueInf.store) }
  | .rebuild bookOrder gangOrder trackedOrder =>
    match s.stage with
    | .listed queues =>
      { s with
        coord := { s.coord with
          queues := queues
          quotas := listQuotas quantity s.rqInf.store }.rebuild bookOrder gangOrder trackedOrder
        stage := .idle
        rebuilds := s.rebuilds + 1 }
    | _ => s
  | .call c => { s with coord := { s.coord with engine := s.coord.engine.call c } }

/-- The API server raises the generation of an object with its spec. -/
def Enabled (s : Loop V) : Label V → Prop
  | .queue (.put new) => ∀ old, (upsert QueueVersion.ident new s.queueInf.store).2 =
    .updated old new →
      old.uid = new.uid → old.generation = new.generation → old.converted = new.converted
  | .queue (.drop _) | .quota _ => True
  | .handleQueue => s.queueInf.notices ≠ []
  | .handleQuota => s.rqInf.notices ≠ []
  | .sync => s.synced = false
  | .token => s.stage = .idle ∧ s.rebuildCh = true
  | .coalesce => s.stage = .draining ∧ s.rebuildCh = true
  | .list => s.stage = .draining ∨ s.stage = .starting ∧ s.synced = true
  | .rebuild bookOrder gangOrder trackedOrder =>
    (∃ queues, s.stage = .listed queues) ∧ Visits bookOrder s.coord.engine.book ∧
      Visits gangOrder s.coord.engine.gangBook ∧ Visits trackedOrder s.coord.tracked
  | .call c => Callable s.coord.engine c ∧ Server.ordinary c = true

/-- A Queue that is deleted and made again behind the informer's back does not come back with
the generation of the old one. -/
def Telling (s : Loop V) : Label V → Prop
  | .queue (.put new) => ∀ old, (upsert QueueVersion.ident new s.queueInf.store).2 =
    .updated old new →
      old.generation = new.generation → old.uid = new.uid
  | _ => True

/-- Nothing is on its way to the loop, and the loop waits for a token. -/
structure Quiet (s : Loop V) : Prop where
  stage : s.stage = .idle
  rebuildCh : s.rebuildCh = false
  queues : s.queueInf.notices = []
  quotas : s.rqInf.notices = []

structure Initial (s : Loop V) : Prop where
  stage : s.stage = .starting
  rebuilds : s.rebuilds = 0

def shape (s : Loop V) : Option (Index V) := s.coord.engine.tree.map QueueManager.index

end Loop

def loop (quantity : ℚ → Quantity V) : Machine (Loop V) (Label V) :=
  ⟨Loop.Enabled, Loop.next quantity⟩

section Watches

def Stage.ofQueues : Stage V → Phase (List (QueueCR V))
  | .starting | .draining => .armed
  | .idle => .idle
  | .listed queues => .holding queues

/-- The loop as the quota informer sees it: the quotas are read when the tree is built. -/
def Stage.ofQuotas : Stage V → Phase (List (ResourceQuota V))
  | .starting | .draining | .listed _ => .armed
  | .idle => .idle

namespace Loop

def queueWatch (s : Loop V) : Watch (List (QueueVersion V)) (List (QueueCR V))
    (Notice (QueueVersion V)) where
  source := s.queueInf.store
  notices := s.queueInf.notices
  flag := s.rebuildCh
  phase := s.stage.ofQueues
  used := if s.rebuilds = 0 then none else some s.coord.queues

def quotaWatch (s : Loop V) : Watch (List QuotaVersion) (List (ResourceQuota V))
    (Notice QuotaVersion) where
  source := s.rqInf.store
  notices := s.rqInf.notices
  flag := s.rebuildCh
  phase := s.stage.ofQuotas
  used := if s.rebuilds = 0 then none else some s.coord.quotas

end Loop

lemma rebuild_listed (c : Coordinator V) (bookOrder gangOrder trackedOrder : List String) :
    (c.rebuild bookOrder gangOrder trackedOrder).queues = c.queues ∧
      (c.rebuild bookOrder gangOrder trackedOrder).quotas = c.quotas := by
  rw [Coordinator.rebuild]
  split <;> exact ⟨rfl, rfl⟩

variable {quantity : ℚ → Quantity V} {s t : Loop V} {a : Label V} {as : List (Label V)}

lemma reaches_raised {S X N : Type*} {view : S → X} {counts : N → Bool}
    (w : Watch S X N) (b : Bool) :
    (watch view counts).Reaches w { w with flag := w.flag || b } := by
  cases b with
  | false =>
    rw [Bool.or_false]
    exact .refl _ w
  | true =>
    rw [Bool.or_true]
    exact .step (a := Step.poke) trivial

lemma queue_change {c : Change (QueueVersion V)} (he : s.Enabled (.queue c))
    (ht : s.Telling (.queue c)) :
    listQueues (s.queueInf.effect QueueVersion.ident c).1 ≠ listQueues s.queueInf.store →
      ∃ n ∈ (s.queueInf.effect QueueVersion.ident c).2, queueTriggers n = true := by
  refine effect_counts s.queueInf c (fun _ => rfl) (fun _ => rfl) ?_
  rintro old new rfl hn hc
  have hgen : old.generation = new.generation := by
    simpa [queueTriggers, queueSpecChanged] using hc
  exact he old hn (ht old hn hgen) hgen

lemma quota_change (c : Change QuotaVersion) :
    listQuotas quantity (s.rqInf.effect QuotaVersion.ident c).1 ≠
      listQuotas quantity s.rqInf.store →
      ∃ n ∈ (s.rqInf.effect QuotaVersion.ident c).2, quotaTriggers n = true := by
  refine effect_counts s.rqInf c (fun _ => rfl) (fun _ => rfl) ?_
  rintro old new rfl hn hc
  have hns : old.ns = new.ns := congrArg Prod.fst (ident_of_updated hn)
  exact congrArg some (read_of_hard_kept quantity hns hc)

lemma queueWatch_step (he : s.Enabled a) (ht : s.Telling a) :
    (watch listQueues queueTriggers).Reaches s.queueWatch (s.next quantity a).queueWatch := by
  cases a with
  | queue c => exact .step (a := Step.change _ _) (queue_change he ht)
  | quota c => exact .refl _ _
  | handleQueue => exact .step (a := Step.deliver) trivial
  | handleQuota => exact reaches_raised _ _
  | sync => exact .refl _ _
  | token =>
    have hphase : s.queueWatch.phase = .idle := by simp [Loop.queueWatch, he.1, Stage.ofQueues]
    exact .step (a := Step.arm) hphase
  | coalesce =>
    have hphase : s.queueWatch.phase = .armed := by simp [Loop.queueWatch, he.1, Stage.ofQueues]
    exact .step (a := Step.lower) hphase
  | list =>
    have hphase : s.queueWatch.phase = .armed := by
      rcases he with h | ⟨h, _⟩ <;> simp [Loop.queueWatch, h, Stage.ofQueues]
    exact .step (a := Step.read) hphase
  | rebuild bookOrder gangOrder trackedOrder =>
    obtain ⟨⟨queues, hstage⟩, _⟩ := he
    have hfinish : (s.next quantity (.rebuild bookOrder gangOrder trackedOrder)).queueWatch =
        s.queueWatch.next listQueues queueTriggers .finish := by
      simp [Loop.queueWatch, Loop.next, Watch.next, hstage, Stage.ofQueues,
        (rebuild_listed _ _ _ _).1]
    rw [hfinish]
    exact .step (a := Step.finish) trivial
  | call c => exact .refl _ _

lemma quotaWatch_step (he : s.Enabled a) :
    (watch (listQuotas quantity) quotaTriggers).Reaches s.quotaWatch
    (s.next quantity a).quotaWatch := by
  cases a with
  | queue c => exact .refl _ _
  | quota c => exact .step (a := Step.change _ _) (quota_change c)
  | handleQueue => exact reaches_raised _ _
  | handleQuota => exact .step (a := Step.deliver) trivial
  | sync => exact .refl _ _
  | token =>
    have hphase : s.quotaWatch.phase = .idle := by simp [Loop.quotaWatch, he.1, Stage.ofQuotas]
    exact .step (a := Step.arm) hphase
  | coalesce =>
    have hphase : s.quotaWatch.phase = .armed := by simp [Loop.quotaWatch, he.1, Stage.ofQuotas]
    exact .step (a := Step.lower) hphase
  | list =>
    have hphase : (s.next quantity .list).stage.ofQuotas = s.stage.ofQuotas := by
      rcases he with h | ⟨h, _⟩ <;> simp [Loop.next, h, Stage.ofQuotas]
    have hkept : (s.next quantity .list).quotaWatch = s.quotaWatch := by
      unfold Loop.quotaWatch
      rw [hphase]
      rfl
    rw [hkept]
    exact .refl _ _
  | rebuild bookOrder gangOrder trackedOrder =>
    obtain ⟨⟨queues, hstage⟩, _⟩ := he
    have hphase : s.quotaWatch.phase = .armed := by
      simp [Loop.quotaWatch, hstage, Stage.ofQuotas]
    have hread := Machine.Reaches.step (M := watch (listQuotas quantity) quotaTriggers)
      (s := s.quotaWatch)
      (a := Step.read) hphase
    have hfinish : (s.next quantity (.rebuild bookOrder gangOrder trackedOrder)).quotaWatch =
        (s.quotaWatch.next (listQuotas quantity) quotaTriggers .read).next (listQuotas quantity)
            quotaTriggers .finish := by
      simp [Loop.quotaWatch, Loop.next, Watch.next, hstage, Stage.ofQuotas,
        (rebuild_listed _ _ _ _).2]
    rw [hfinish]
    exact hread.trans (.step (a := Step.finish) trivial)
  | call c => exact .refl _ _

end Watches

section Tree
variable {quantity : ℚ → Quantity V} {s t : Loop V} {a : Label V} {as : List (Label V)}

lemma sameGangs_shape {e e' : Engine V} (h : SameGangs e e') :
    e'.tree.map QueueManager.index = e.tree.map QueueManager.index := by
  have hsk := congrArg (Option.map Prod.fst) h.tree
  rwa [Option.map_map, Option.map_map] at hsk

lemma releaseGang_shape (tree : Option (QueueManager V)) (key : String) :
    (tree.map fun t => t.releaseGang key).map QueueManager.index = tree.map QueueManager.index := by
  cases tree with
  | none => rfl
  | some t => exact congrArg some (releaseGang_index t key)

lemma call_shape (e : Engine V) {c : Call V} (hc : Server.ordinary c = true) :
    (e.call c).tree.map QueueManager.index = e.tree.map QueueManager.index := by
  cases c with
  | reserve uid leaf req => exact sameGangs_shape (sameGangs_reserve e uid leaf req)
  | unreserve uid => exact sameGangs_shape (sameGangs_unreserve e uid)
  | commit uid => exact sameGangs_shape (sameGangs_commit e uid)
  | observeBound uid leaf req => exact sameGangs_shape (sameGangs_observeBound e uid leaf req)
  | observeDeleted uid => exact sameGangs_shape (sameGangs_observeDeleted e uid)
  | gcBookings live order => exact sameGangs_shape (sameGangs_gcBookings e live order)
  | admitGang leaf key minRes => exact (admitGang_step e leaf key minRes).index
  | admitGangWW leaf key minRes wwkey now =>
    exact (admitGangWW_step e leaf key minRes wwkey now).index
  | releaseGang key =>
    simp only [Engine.call, Engine.releaseGang]
    split_ifs
    · exact releaseGang_shape e.tree key
    · rfl
  | gcGangs live order =>
    exact gcGangs_invariant (I := fun e' : Engine V =>
        e'.tree.map QueueManager.index = e.tree.map QueueManager.index) rfl
      (fun e' key h => (releaseGang_shape e'.tree key).trans h) live order
  | rebuild => cases hc

/-- The live tree has the queues that the last rebuild assembled, if it assembled any. -/
def Assembled (s : Loop V) : Prop :=
  s.rebuilds ≠ 0 → ∀ mgr, assemble s.coord.queues s.coord.quotas = .ok mgr →
    s.shape = some mgr.index

lemma assembled_step (h : Assembled s) (he : s.Enabled a) : Assembled (s.next quantity a) := by
  cases a with
  | queue | quota | handleQueue | handleQuota | sync | token | coalesce | list => exact h
  | rebuild bookOrder gangOrder trackedOrder =>
    obtain ⟨⟨queues, hstage⟩, hbook, _, htracked⟩ := he
    intro _ mgr hmgr
    simp only [Loop.next, hstage, Loop.shape] at hmgr ⊢
    rw [(rebuild_listed _ _ _ _).1, (rebuild_listed _ _ _ _).2] at hmgr
    obtain ⟨tree, htree, hindex⟩ := (rebuild_spec hmgr hbook gangOrder htracked).1.tree
    rw [htree, ← hindex]
    rfl
  | call c =>
    intro hne mgr hmgr
    rw [← h hne mgr hmgr]
    exact call_shape s.coord.engine he.2

/-- What holds of the loop at rest: the last rebuild listed the stores as they are, and the
live tree is made of them unless they do not assemble. -/
structure Current (quantity : ℚ → Quantity V) (s : Loop V) : Prop where
  queues : s.coord.queues = listQueues s.queueInf.store
  quotas : s.coord.quotas = listQuotas quantity s.rqInf.store
  tree : ∀ mgr, assemble (listQueues s.queueInf.store)
    (listQuotas quantity s.rqInf.store) = .ok mgr →
    s.shape = some mgr.index

lemma Loop.Initial.queues_told (h0 : s.Initial) :
    Told listQueues queueTriggers s.queueWatch :=
  .armed (by simp [Loop.queueWatch, h0.stage, Stage.ofQueues])

lemma Loop.Initial.quotas_told (h0 : s.Initial) :
    Told (listQuotas quantity) quotaTriggers s.quotaWatch :=
  .armed (by simp [Loop.quotaWatch, h0.stage, Stage.ofQuotas])

lemma current_of_quiet (h0 : s.Initial) (h : Run ((loop quantity).restrict Loop.Telling) s as t)
    (hq : t.Quiet) : Current quantity t := by
  have hqueues : (watch listQueues queueTriggers).Reaches s.queueWatch t.queueWatch :=
    h.invariant (I := fun u : Loop V => (watch listQueues queueTriggers).Reaches
      s.queueWatch u.queueWatch)
      (.refl _ _) fun u b hu he => hu.trans (queueWatch_step he.1 he.2)
  have hquotas : (watch (listQuotas quantity) quotaTriggers).Reaches s.quotaWatch t.quotaWatch :=
    h.invariant (I := fun u : Loop V => (watch (listQuotas quantity) quotaTriggers).Reaches
      s.quotaWatch u.quotaWatch)
      (.refl _ _) fun u b hu he => hu.trans (quotaWatch_step he.1)
  have hbuilt : Assembled t :=
    h.invariant (fun hne => absurd h0.rebuilds hne) fun u b hu he => assembled_step hu he.1
  have hidle : t.queueWatch.phase = .idle := by simp [Loop.queueWatch, hq.stage, Stage.ofQueues]
  have hidle' : t.quotaWatch.phase = .idle := by simp [Loop.quotaWatch, hq.stage, Stage.ofQuotas]
  have hused := used_eq_view h0.queues_told hqueues hidle hq.rebuildCh
    (by simp [Loop.queueWatch, hq.queues])
  have hused' := used_eq_view h0.quotas_told hquotas hidle' hq.rebuildCh
    (by simp [Loop.quotaWatch, hq.quotas])
  simp only [Loop.queueWatch, Loop.quotaWatch] at hused hused'
  split_ifs at hused hused' with hne
  rw [Option.some.injEq] at hused hused'
  refine ⟨hused, hused', fun mgr hmgr => hbuilt hne mgr ?_⟩
  rw [hused, hused', hmgr]

/-- No change is lost: whenever the loop is at rest, the last rebuild has listed the Queues and
the quotas that the stores hold now, however the changes, the handlers, the debounce window and
the rebuild itself were interleaved. -/
theorem quiet_loop_missed_nothing (h0 : s.Initial)
    (h : Run ((loop quantity).restrict Loop.Telling) s as t)
    (hq : t.Quiet) :
    t.coord.queues = listQueues t.queueInf.store ∧
      t.coord.quotas = listQuotas quantity t.rqInf.store ∧
      ∀ mgr, assemble (listQueues t.queueInf.store) (listQuotas quantity t.rqInf.store) = .ok mgr →
        t.shape = some mgr.index :=
  let hc := current_of_quiet h0 h hq
  ⟨hc.queues, hc.quotas, hc.tree⟩

end Tree

/-- A loop before its start, with these Queues in the store. -/
def startLoop (store : List (QueueVersion ℤ)) : Loop ℤ :=
  ⟨newCoordinator (newEngine 300), ⟨store, []⟩, ⟨[], []⟩, false, false, .starting, 0⟩

def soleQueue (uid generation : ℕ) (max : ℤ) : QueueVersion ℤ where
  ns := "team"
  name := "batch"
  uid := uid
  generation := generation
  converted := some (bareQueue "team" "batch" max ["runner"])
  status := ⟨"", none, false, false⟩

def wholeUnits (q : ℚ) : Quantity ℤ := ⟨q.num, 1000 * q.num⟩

def firstBuild : List (Label ℤ) := [.sync, .list, .rebuild [] [] []]

def builtLoop : Loop ℤ := firstBuild.foldl (loop wholeUnits).next (startLoop [soleQueue 1 1 4000])

def raiseTwice : List (Label ℤ) :=
  [.queue (.put (soleQueue 1 2 6000)), .handleQueue, .token, .queue (.put (soleQueue 1 3 8000)),
    .handleQueue, .coalesce, .list, .rebuild [] [] []]

lemma raiseTwice_run :
    Run ((loop wholeUnits).restrict Loop.Telling) (startLoop [soleQueue 1 1 4000])
      (firstBuild ++ raiseTwice)
      ((firstBuild ++ raiseTwice).foldl (loop wholeUnits).next
        (startLoop [soleQueue 1 1 4000])) := by
  refine Machine.Legal.run (M := (loop wholeUnits).restrict Loop.Telling)
    ⟨⟨rfl, trivial⟩, ⟨.inr ⟨rfl, rfl⟩, trivial⟩,
      ⟨⟨⟨_, rfl⟩, visits_empty, visits_empty, visits_empty⟩, trivial⟩, ⟨?_, ?_⟩,
      ⟨List.cons_ne_nil _ _, trivial⟩, ⟨⟨rfl, rfl⟩, trivial⟩, ⟨?_, ?_⟩,
      ⟨List.cons_ne_nil _ _, trivial⟩, ⟨⟨rfl, rfl⟩, trivial⟩, ⟨.inl rfl, trivial⟩,
      ⟨⟨⟨_, rfl⟩, by decide +kernel, by decide +kernel, by decide +kernel⟩, trivial⟩, trivial⟩
  · rintro old ⟨⟩ _ hgeneration
    exact absurd hgeneration (by decide)
  · rintro old ⟨⟩ hgeneration
    exact absurd hgeneration (by decide)
  · rintro old ⟨⟩ _ hgeneration
    exact absurd hgeneration (by decide)
  · rintro old ⟨⟩ hgeneration
    exact absurd hgeneration (by decide)

theorem first_build_missed_nothing :
    let t := (firstBuild ++ raiseTwice).foldl (loop wholeUnits).next
      (startLoop [soleQueue 1 1 4000])
    t.Quiet ∧ t.rebuilds = 2 ∧ t.coord.queues = [bareQueue "team" "batch" 8000 ["runner"]] := by
  intro t
  have hq : t.Quiet := ⟨rfl, rfl, rfl, rfl⟩
  exact ⟨hq, rfl, (quiet_loop_missed_nothing ⟨rfl, rfl⟩ raiseTwice_run hq).1⟩

/-- A Queue that was made again with another maximum while the informer did not watch comes as an
update between two versions of generation 1, and the loop rests with the old maximum. -/
theorem recreated_queue_is_missed :
    let s := startLoop [soleQueue 1 1 4000]
    let steps := firstBuild ++ [.queue (.put (soleQueue 2 1 8000)), .handleQueue]
    let t := steps.foldl (loop wholeUnits).next s
    Run (loop wholeUnits) s steps t ∧ t.Quiet ∧
      t.coord.queues = [bareQueue "team" "batch" 4000 ["runner"]] ∧
      listQueues t.queueInf.store = [bareQueue "team" "batch" 8000 ["runner"]] := by
  intro s steps t
  have hlegal : (loop wholeUnits).Legal s steps := by
    refine ⟨rfl, .inr ⟨rfl, rfl⟩, ⟨⟨_, rfl⟩, visits_empty, visits_empty, visits_empty⟩, ?_,
      List.cons_ne_nil _ _, trivial⟩
    rintro old ⟨⟩ huid
    exact absurd huid (by decide)
  exact ⟨hlegal.run, ⟨rfl, rfl, rfl, rfl⟩, (rebuild_listed _ _ _ _).1, rfl⟩

section Settling
variable {quantity : ℚ → Quantity V} {s t : Loop V} {a : Label V} {as : List (Label V)}

end Settling

section StatusTraffic
variable {quantity : ℚ → Quantity V} {s t : Loop V} {a : Label V} {as : List (Label V)}

/-- A change of a store is an update of a Queue that keeps its generation or of a quota that
keeps its hard limits. -/
def Loop.StatusOnly (s : Loop V) : Label V → Prop
  | .queue (.put new) => ∃ old, (upsert QueueVersion.ident new s.queueInf.store).2 =
    .updated old new ∧
      queueSpecChanged old new = false
  | .quota (.put new) => ∃ old, (upsert QuotaVersion.ident new s.rqInf.store).2 = .updated old new ∧
      resourceQuotaHardChanged old new = false
  | .queue (.drop _) | .quota (.drop _) => False
  | _ => True

/-- The loop waits, and nothing on its way to it counts. -/
structure Resting (s : Loop V) : Prop where
  stage : s.stage = .idle
  rebuildCh : s.rebuildCh = false
  queues : ∀ n ∈ s.queueInf.notices, queueTriggers n = false
  quotas : ∀ n ∈ s.rqInf.notices, quotaTriggers n = false

lemma head_any_eq_false {N : Type*} {p : N → Bool} {l : List N} (h : ∀ n ∈ l, p n = false) :
    l.head?.any p = false := by
  cases l with
  | nil => rfl
  | cons n rest => exact h n List.mem_cons_self

lemma resting_step (h : Resting s) (he : s.Enabled a) (hs : s.StatusOnly a) :
    Resting (s.next quantity a) ∧ (s.next quantity a).rebuilds = s.rebuilds ∧
      (s.next quantity a).shape = s.shape := by
  cases a with
  | queue c =>
    cases c with
    | drop id => cases hs
    | put new =>
      obtain ⟨old, hn, hkept⟩ := hs
      refine ⟨⟨h.stage, h.rebuildCh, fun n hmem => ?_, h.quotas⟩, rfl, rfl⟩
      simp only [Loop.next, Informer.apply, Informer.effect, List.mem_append,
        List.mem_singleton] at hmem
      rcases hmem with hmem | rfl
      · exact h.queues n hmem
      · rw [hn]
        exact hkept
  | quota c =>
    cases c with
    | drop id => cases hs
    | put new =>
      obtain ⟨old, hn, hkept⟩ := hs
      refine ⟨⟨h.stage, h.rebuildCh, h.queues, fun n hmem => ?_⟩, rfl, rfl⟩
      simp only [Loop.next, Informer.apply, Informer.effect, List.mem_append,
        List.mem_singleton] at hmem
      rcases hmem with hmem | rfl
      · exact h.quotas n hmem
      · rw [hn]
        exact hkept
  | handleQueue =>
    refine ⟨⟨h.stage, ?_, fun n hn => h.queues n (List.mem_of_mem_tail hn), h.quotas⟩, rfl, rfl⟩
    simp [Loop.next, h.rebuildCh, head_any_eq_false h.queues]
  | handleQuota =>
    refine ⟨⟨h.stage, ?_, h.queues, fun n hn => h.quotas n (List.mem_of_mem_tail hn)⟩, rfl, rfl⟩
    simp [Loop.next, h.rebuildCh, head_any_eq_false h.quotas]
  | sync => exact ⟨⟨h.stage, h.rebuildCh, h.queues, h.quotas⟩, rfl, rfl⟩
  | token => exact absurd he.2 (by simp [h.rebuildCh])
  | coalesce => exact absurd he.2 (by simp [h.rebuildCh])
  | list => rcases he with hst | ⟨hst, _⟩ <;> exact absurd hst (by simp [h.stage])
  | rebuild =>
    obtain ⟨⟨queues, hst⟩, _⟩ := he
    exact absurd hst (by simp [h.stage])
  | call c =>
    exact ⟨⟨h.stage, h.rebuildCh, h.queues, h.quotas⟩, rfl, call_shape s.coord.engine he.2⟩

/-- The status writers never wake the loop: from a state at rest, however many statuses are
written and quotas are used, no rebuild is made and the live tree keeps its queues. -/
theorem status_traffic_never_rebuilds (hq : s.Quiet)
    (h : Run ((loop quantity).restrict Loop.StatusOnly) s as t) :
    t.rebuilds = s.rebuilds ∧ t.shape = s.shape ∧ t.stage = .idle ∧ t.rebuildCh = false := by
  have hrest : Resting t ∧ t.rebuilds = s.rebuilds ∧ t.shape = s.shape := by
    refine h.invariant (I := fun u => Resting u ∧ u.rebuilds = s.rebuilds ∧ u.shape = s.shape)
      ⟨⟨hq.stage, hq.rebuildCh, by simp [hq.queues], by simp [hq.quotas]⟩, rfl, rfl⟩ ?_
    rintro u a ⟨hu, hcount, hshape⟩ ⟨he, hs⟩
    obtain ⟨hnext, hcount', hshape'⟩ := resting_step hu he hs
    exact ⟨hnext, hcount'.trans hcount, hshape'.trans hshape⟩
  exact ⟨hrest.2.1, hrest.2.2, hrest.1.stage, hrest.1.rebuildCh⟩

theorem status_write_never_rebuilds :
    let written := { soleQueue 1 1 4000 with status :=
      ⟨"root.team.batch", some .active, true, true⟩ }
    let steps : List (Label ℤ) := [.queue (.put written), .handleQueue]
    builtLoop.rebuilds = 1 ∧ (steps.foldl (loop wholeUnits).next builtLoop).rebuilds = 1 := by
  intro written steps
  have hrun : Run ((loop wholeUnits).restrict Loop.StatusOnly) builtLoop steps
      (steps.foldl (loop wholeUnits).next builtLoop) := by
    refine Machine.Legal.run (M := (loop wholeUnits).restrict Loop.StatusOnly) ⟨⟨?_, _, rfl, rfl⟩,
      ⟨List.cons_ne_nil _ _, trivial⟩, trivial⟩
    rintro old ⟨⟩ _ _
    rfl
  exact ⟨rfl, (status_traffic_never_rebuilds ⟨rfl, rfl, rfl, rfl⟩ hrun).1⟩

end StatusTraffic

end AdScheduler.RebuildLoop
