import AdScheduler.RecoveryBarrier
import AdScheduler.TerminalPhases

/-! The gang ledger across a restart: `syncGangStatuses` writes it to the status of the pod
groups, and the first rebuild of the next process reads it back. Before the restart anything
may have happened between two syncs, and the informer may lag behind the API server. -/
namespace AdScheduler.GangCheckpoint
open KeyedMap Resources QueueTree TreeShape Manager Conservation EngineCore GangAgreement
open TreeAssembly Runs Requests CoordinatorCore Plugins RecoveryBarrier PodGroupStatus

/-- The process, and the objects of the API server with all their versions so far. -/
structure Site where
  ctl : Reconciler ℤ
  api : Map String (Stored ℤ)
  versions : List (Stored ℤ)

/-- The critical sections of the process and what happens around it. A rebuild may be taken
as a whole, or only publish its tree with other calls between that and the rest. A write
names the objects that it does not reach. -/
inductive Step
  | call (c : Call ℤ)
  | publish (bookOrder gangOrder : List String)
  | rebuild (bookOrder gangOrder trackedOrder : List String)
  | preEnqueue (pod : Pod ℤ) (now : ℤ)
  | sync (now : ℤ) (lost : List String)
  | check (now : ℤ) (order lost : List String)
  | phases (lost : List String)
  | deliver (n : ℕ)
  | remove (pg : PodGroup ℤ)
  | put (pg : PodGroup ℤ)
  | delete (key : String)
  | queues (queues : List (QueueCR ℤ)) (quotas : List (ResourceQuota ℤ))
  | pods (event : Informers.Event ℤ)

namespace Site

def setCoord (s : Site) (c : Coordinator ℤ) : Site := { s with ctl := { s.ctl with coord := c } }

/-- The patches reach the server, except those for the objects that are named. -/
def write (s : Site) (patches : List (Patch ℤ)) (lost : List String) : Site :=
  let kept := patches.filter fun p => decide (p.key ∉ lost)
  let api := applyPatches s.api kept
  { s with api := api, versions := s.versions ++ kept.filterMap fun p => api.lookup p.key }

def store (s : Site) (o : Stored ℤ) : Site :=
  { s with api := s.api.insert o.group.key o, versions := s.versions ++ [o] }

def next (s : Site) : Step → Site
  | .call c => s.setCoord { s.ctl.coord with engine := s.ctl.coord.engine.call c }
  | .publish bookOrder gangOrder =>
    match assemble s.ctl.coord.queues s.ctl.coord.quotas with
    | .error _ => s
    | .ok mgr => s.setCoord { s.ctl.coord with
        engine := s.ctl.coord.engine.rebuild mgr bookOrder gangOrder }
  | .rebuild bookOrder gangOrder trackedOrder =>
    s.setCoord (s.ctl.coord.rebuild bookOrder gangOrder trackedOrder)
  | .preEnqueue pod now => s.setCoord (Gang.preEnqueue s.ctl.coord pod now).1
  | .sync now lost =>
    { s with ctl := (s.ctl.syncGangStatuses now).1 }.write (s.ctl.syncGangStatuses now).2 lost
  | .check now order lost =>
    { s with ctl := (s.ctl.checkGangTimeouts now order).1 }.write
      (s.ctl.checkGangTimeouts now order).2 lost
  | .phases lost => s.write s.ctl.syncPodGroupPhases lost
  | .deliver n =>
    match s.versions[n]? with
    | none => s
    | some o => { s with ctl := s.ctl.deliver o }
  | .remove pg => { s with ctl := s.ctl.remove pg }
  | .put pg =>
    match s.api.lookup pg.key with
    | none => s.store ⟨pg, ⟨0, 0⟩⟩
    | some o => s.store (TerminalPhases.respec o pg)
  | .delete key => { s with api := s.api.erase key }
  | .queues queues quotas => s.setCoord { s.ctl.coord with queues := queues, quotas := quotas }
  | .pods event => s.setCoord (Informers.deliver s.ctl.coord event)

/-- Loops over a ledger visit each entry once, and a tree is published only as assembled. -/
def Enabled (s : Site) : Step → Prop
  | .call (.rebuild _ _ _) => False
  | .call c => Callable s.ctl.coord.engine c
  | .publish bookOrder gangOrder =>
    Visits bookOrder s.ctl.coord.engine.book ∧ Visits gangOrder s.ctl.coord.engine.gangBook
  | .rebuild bookOrder gangOrder trackedOrder =>
    Visits bookOrder s.ctl.coord.engine.book ∧ Visits gangOrder s.ctl.coord.engine.gangBook ∧
      Visits trackedOrder s.ctl.coord.tracked
  | .check _ order _ => Visits order s.ctl.coord.engine.gangBook
  | _ => True

end Site

def site : Machine Site Step := ⟨Site.Enabled, Site.next⟩

def start (timeout : ℤ) : Site := ⟨⟨newCoordinator (newEngine timeout), ∅, ∅⟩, ∅, []⟩

def Keyed (api : Map String (Stored ℤ)) : Prop :=
  ∀ key o, api.lookup key = some o → o.group.key = key

/-- The store of an informer that has caught up. -/
structure Reflects (groups : List (PodGroup ℤ)) (api : Map String (Stored ℤ)) : Prop where
  once : (groups.map PodGroup.key).Nodup
  mem_iff : ∀ pg, pg ∈ groups ↔ ∃ o, api.lookup pg.key = some o ∧ o.group = pg

/-- The next process: the same queues, quotas and bound pods, and nothing in the ledgers. -/
def restart (c : Coordinator ℤ) (groups : List (PodGroup ℤ)) : Coordinator ℤ :=
  { newCoordinator (newEngine c.engine.gangScheduleTimeout) with
    tracked := c.tracked
    pods := c.pods
    podGroups := groups
    queues := c.queues
    quotas := c.quotas }

def SameBooking (gb gb' : GangBooking ℤ) : Prop :=
  gb.leaf = gb'.leaf ∧ ∀ d, get gb.minRes d = get gb'.minRes d

/-- The ledgers agree on every group that has not failed. -/
def SameLedger (groups : List (PodGroup ℤ)) (ledger ledger' : Map String (GangBooking ℤ)) : Prop :=
  ∀ pg ∈ groups, pg.phase ≠ .failed →
    Option.Rel SameBooking (ledger.lookup pg.key) (ledger'.lookup pg.key)

lemma SameLedger.amount {groups : List (PodGroup ℤ)} {ledger ledger' : Map String (GangBooking ℤ)}
    (h : SameLedger groups ledger ledger') {pg : PodGroup ℤ} (hpg : pg ∈ groups)
    (hlive : pg.phase ≠ .failed) (d : String) :
    (ledger.lookup pg.key).map (fun gb => get gb.minRes d) =
      (ledger'.lookup pg.key).map fun gb => get gb.minRes d := by
  have hrel := h pg hpg hlive
  cases hl : ledger.lookup pg.key with
  | none => cases hl' : ledger'.lookup pg.key <;> simp_all
  | some gb =>
    cases hl' : ledger'.lookup pg.key with
    | none => simp [hl, hl'] at hrel
    | some gb' =>
      rw [hl, hl', Option.rel_some_some] at hrel
      exact congrArg some (hrel.2 d)

def podUsage (c : Coordinator ℤ) (mgr : QueueManager ℤ) (n d : String) : ℤ :=
  total c.tracked fun uid tp => podShare mgr n d (uid, tp)

/-- The bound pods and all reservations together are within the maxima of the tree. -/
def Within (c : Coordinator ℤ) (mgr : QueueManager ℤ) : Prop :=
  ∀ key gb, c.engine.gangBook.lookup key = some gb → mgr.fitsMax gb.leaf gb.minRes = true ∧
    ∀ n ∈ pathUp mgr.index gb.leaf, ∀ d ∈ gb.minRes.keys, d ∈ n.max.keys →
      podUsage c mgr n.path d +
        (total c.engine.gangBook fun _ b => gangShare mgr.index n.path d b) ≤ get n.max d

/-- The informer's version already names the leaf, or there is none: nothing is written. -/
def Unwritten (c : Coordinator ℤ) (key leaf : String) : Prop :=
  ∀ pg ∈ c.podGroups, pg.key = key → pg.admitted = true ∧ pg.reservedQueue = leaf

instance (c : Coordinator ℤ) (key leaf : String) : Decidable (Unwritten c key leaf) := by
  unfold Unwritten; infer_instance

/-- The queue of the reservation is a leaf, and the status has the amounts of the reservation
where the sync does not write them: everywhere if it writes nothing, and in the dimensions
that the reservation lacks if it does. -/
def Checkpointed (c : Coordinator ℤ) (mgr : QueueManager ℤ) (pg : PodGroup ℤ)
    (gb : GangBooking ℤ) : Prop :=
  mgr.isLeafPath gb.leaf = true ∧
  if Unwritten c pg.key gb.leaf then
    pg.admitted = true ∧ pg.reservedQueue = gb.leaf ∧
      ∀ d, get (fromQuantityMap pg.reservedResources) d = get gb.minRes d
  else ∀ d, d ∉ gb.minRes → get (fromQuantityMap pg.reservedResources) d = 0

/-- The sync clears the status of a group without a reservation. -/
def Cleared (c : Coordinator ℤ) (key : String) : Prop :=
  ∃ pg ∈ c.podGroups, pg.key = key ∧ pg.admitted = true

/-- What the ledger reserves for a group that has not failed. -/
def ledgerShare (c : Coordinator ℤ) (mgr : QueueManager ℤ) (n d : String) (pg : PodGroup ℤ) : ℤ :=
  if pg.phase = .failed then 0
  else (c.engine.gangBook.lookup pg.key).elim 0 (gangShare mgr.index n d)

/-- There is room for a reservation beside the bound pods and the reservations of the groups
that are restored earlier. -/
def RoomBehind (c : Coordinator ℤ) (mgr : QueueManager ℤ) (earlier : List (PodGroup ℤ))
    (gb : GangBooking ℤ) : Prop :=
  mgr.fitsMax gb.leaf gb.minRes = true ∧
    ∀ n ∈ pathUp mgr.index gb.leaf, ∀ d ∈ gb.minRes.keys, d ∈ n.max.keys →
      podUsage c mgr n.path d + (earlier.map (ledgerShare c mgr n.path d)).sum +
        get gb.minRes d ≤ get n.max d

/-- The status of the group records a reservation that the next process would take over. -/
def Revives (c : Coordinator ℤ) (mgr : QueueManager ℤ) (earlier : List (PodGroup ℤ))
    (pg : PodGroup ℤ) : Prop :=
  ∃ gb, reservation mgr pg = some gb ∧ strictlyGtZero gb.minRes = true ∧
    RoomBehind c mgr earlier gb

/-- An object is as the sync assumes: the status of a reserved gang lacks nothing that is
not written, and a status that nobody clears revives nothing. -/
def Kept (c : Coordinator ℤ) (mgr : QueueManager ℤ) (earlier : List (PodGroup ℤ)) (key : String)
    (pg : PodGroup ℤ) : Prop :=
  match c.engine.gangBook.lookup key with
  | some gb => Checkpointed c mgr pg gb
  | none => Cleared c key ∨ ¬ Revives c mgr earlier pg

/-- Every object that has not failed is as the sync assumes. The next process goes through
the groups in the order of its store. -/
def Persisted (c : Coordinator ℤ) (mgr : QueueManager ℤ) (api : Map String (Stored ℤ))
    (groups : List (PodGroup ℤ)) : Prop :=
  ∀ key o, api.lookup key = some o → o.group.phase ≠ .failed →
    Kept c mgr (groups.takeWhile fun pg => decide (pg.key ≠ key)) key o.group

section Sync
variable {r : Reconciler ℤ} {api : Map String (Stored ℤ)} {now : ℤ}

lemma gangPatch_key {admitted : Map String (GangBooking ℤ)} {pg : PodGroup ℤ} {p : Patch ℤ}
    (h : gangPatch admitted pg = some p) : p.key = pg.key := by
  unfold gangPatch at h
  split at h
  all_goals
    split_ifs at h
    cases h
    rfl

lemma syncPatches_nodup (hkeys : (r.coord.podGroups.map PodGroup.key).Nodup) :
    ((r.syncGangStatuses now).2.map Patch.key).Nodup :=
  patches_nodup (fun _ _ hp => gangPatch_key hp) hkeys

lemma synced_lookup (api : Map String (Stored ℤ)) (now : ℤ)
    (hkeys : (r.coord.podGroups.map PodGroup.key).Nodup) (key : String) :
    (∃ pg ∈ r.coord.podGroups, ∃ p, pg.key = key ∧
      gangPatch r.coord.engine.gangBook pg = some p ∧
      (applyPatches api (r.syncGangStatuses now).2).lookup key =
        (api.lookup key).map fun o => p.change.apply o) ∨
    (∀ pg ∈ r.coord.podGroups, pg.key = key → gangPatch r.coord.engine.gangBook pg = none) ∧
      (applyPatches api (r.syncGangStatuses now).2).lookup key = api.lookup key := by
  by_cases htarget : ∃ p ∈ (r.syncGangStatuses now).2, p.key = key
  · obtain ⟨p, hp, rfl⟩ := htarget
    obtain ⟨pg, hpg, hpatch⟩ := List.mem_filterMap.mp hp
    exact .inl ⟨pg, hpg, p, (gangPatch_key hpatch).symm, hpatch,
      applyPatches_lookup_once (syncPatches_nodup hkeys) hp⟩
  · push Not at htarget
    refine .inr ⟨fun pg hpg hk => ?_, applyPatches_lookup_of_ne htarget⟩
    by_contra hsome
    obtain ⟨p, hpatch⟩ := Option.ne_none_iff_exists'.mp hsome
    exact htarget p (List.mem_filterMap.mpr ⟨pg, hpg, hpatch⟩) ((gangPatch_key hpatch).trans hk)

lemma stored_of_synced (hkeys : (r.coord.podGroups.map PodGroup.key).Nodup) {key : String}
    {o' : Stored ℤ} (h : (applyPatches api (r.syncGangStatuses now).2).lookup key = some o') :
    ∃ o, api.lookup key = some o := by
  rcases synced_lookup api now hkeys key with
    ⟨pg, hpg, p, hkey, hp, hlook⟩ | ⟨hnone, hlook⟩
  · rw [hlook] at h
    obtain ⟨o, ho, -⟩ := Option.map_eq_some_iff.mp h
    exact ⟨o, ho⟩
  · exact ⟨o', hlook.symm.trans h⟩

end Sync

section Turn
variable {c : Coordinator ℤ} {mgr : QueueManager ℤ} {groups earlier rest : List (PodGroup ℤ)}
  {pg : PodGroup ℤ} {e : Engine ℤ} {t : QueueManager ℤ} {gb gb' : GangBooking ℤ}

lemma SameBooking.share (h : SameBooking gb gb') (ix : Index ℤ) (n d : String) :
    gangShare ix n d gb = gangShare ix n d gb' := by
  rw [gangShare, gangShare, h.1, h.2 d]

lemma ledgerShare_le (hvalid : GangsValid c.engine) (n d : String) (pg : PodGroup ℤ) :
    ledgerShare c mgr n d pg ≤
      (c.engine.gangBook.lookup pg.key).elim 0 (gangShare mgr.index n d) := by
  rw [ledgerShare]
  split_ifs
  · cases hgb : c.engine.gangBook.lookup pg.key with
    | none => exact le_rfl
    | some gb => exact gangShare_nonneg (hvalid _ _ hgb).2 _ _ _
  · exact le_rfl

lemma ledgerShares_le (mgr : QueueManager ℤ) (hvalid : GangsValid c.engine)
    (hkeys : (earlier.map PodGroup.key).Nodup) (n d : String) :
    (earlier.map (ledgerShare c mgr n d)).sum ≤
      total c.engine.gangBook fun _ b => gangShare mgr.index n d b := by
  calc (earlier.map (ledgerShare c mgr n d)).sum
      ≤ (earlier.map fun pg =>
          (c.engine.gangBook.lookup pg.key).elim 0 (gangShare mgr.index n d)).sum :=
        List.sum_le_sum fun pg _ => ledgerShare_le hvalid n d pg
    _ = ((earlier.map PodGroup.key).map fun key =>
          (c.engine.gangBook.lookup key).elim 0 (gangShare mgr.index n d)).sum := by
        rw [List.map_map]
        rfl
    _ ≤ total c.engine.gangBook fun _ b => gangShare mgr.index n d b :=
        sum_lookup_le_total (fun _ _ hgb => gangShare_nonneg (hvalid _ _ hgb).2 _ _ _) hkeys

lemma room_of_within (hw : Within c mgr) (hvalid : GangsValid c.engine)
    (hkeys : ((earlier ++ [pg]).map PodGroup.key).Nodup) (hlive : pg.phase ≠ .failed)
    (hgb : c.engine.gangBook.lookup pg.key = some gb) (hres : reservation mgr pg = some gb')
    (hsame : SameBooking gb gb') :
    strictlyGtZero gb'.minRes = true ∧ RoomBehind c mgr earlier gb' := by
  obtain ⟨hmax, hroom⟩ := hw pg.key gb hgb
  have hdims : ∀ d ∈ gb'.minRes.keys, d ∈ gb.minRes.keys := by
    intro d hd
    obtain ⟨-, -, -, rfl⟩ := reservation_some hres
    exact mem_keys_of_get_ne_zero ((hsame.2 d).trans_ne (mem_prune_iff.mp hd))
  refine ⟨?_, ?_, fun n hn d hd hbound => ?_⟩
  · have hpos := strictlyGtZero_iff.mp (hvalid pg.key gb hgb).2
    simpa only [strictlyGtZero_iff, hsame.2] using hpos
  · rw [QueueManager.fitsMax, List.all_eq_true] at hmax ⊢
    intro n hn
    have hn' := hmax n (hsame.1 ▸ hn)
    rw [decide_eq_true_eq] at hn' ⊢
    exact fun d hd hbound => hsame.2 d ▸ hn' d (hdims d hd) hbound
  · have hle := hroom n (hsame.1 ▸ hn) d (hdims d hd) hbound
    have hshares := ledgerShares_le mgr hvalid hkeys n.path d
    have hown : ledgerShare c mgr n.path d pg = get gb'.minRes d := by
      obtain ⟨-, -, hleaf, hgb'⟩ := reservation_some hres
      rw [ledgerShare, if_neg hlive, hgb, Option.elim_some, hsame.share]
      refine if_pos ⟨?_, List.mem_map_of_mem hn⟩
      rw [hgb']
      exact hleaf
    rw [List.map_append, List.sum_append, List.map_singleton, List.sum_singleton, hown] at hshares
    omega

/-- Where the restore has come to: the groups of the rest are unknown to the new process,
which has booked what the ledger has for the others. -/
structure Restored (c : Coordinator ℤ) (mgr : QueueManager ℤ) (earlier rest : List (PodGroup ℤ))
    (e : Engine ℤ) (t : QueueManager ℤ) : Prop where
  tree : e.tree = some t
  index : t.index = mgr.index
  new : ∀ pg ∈ rest, pg.key ∉ e.gangBook ∧ pg.key ∉ t.gangs
  used : ∀ n d, get (t.used n) d =
    podUsage c mgr n d + (earlier.map (ledgerShare c mgr n d)).sum

lemma Restored.admits_iff (h : Restored c mgr earlier (pg :: rest) e t)
    (hres : reservation mgr pg = some gb) :
    Admits t gb.leaf pg.key gb.minRes ↔
      strictlyGtZero gb.minRes = true ∧ RoomBehind c mgr earlier gb := by
  have hmax : t.fitsMax gb.leaf gb.minRes = mgr.fitsMax gb.leaf gb.minRes :=
    fitsMax_congr h.index _ _
  have hfits : t.fits gb.leaf gb.minRes = true ↔
      ∀ n ∈ pathUp mgr.index gb.leaf, ∀ d ∈ gb.minRes.keys, d ∈ n.max.keys →
        podUsage c mgr n.path d + (earlier.map (ledgerShare c mgr n.path d)).sum +
          get gb.minRes d ≤ get n.max d := by
    simp only [QueueManager.fits, List.all_eq_true, decide_eq_true_eq, h.index, h.used, not_lt,
      le_sub_iff_add_le, add_comm (get gb.minRes _)]
  constructor
  · intro ha
    exact ⟨ha.positive, hmax ▸ ha.within, hfits.mp ha.fits⟩
  · rintro ⟨hpos, hwithin, hroom⟩
    obtain ⟨-, -, hleaf, hgb⟩ := reservation_some hres
    refine ⟨key_ne_empty pg, hpos, (h.new pg List.mem_cons_self).2, ?_, hmax.trans hwithin,
      hfits.mpr hroom⟩
    rw [isLeafPath_congr h.index, hgb]
    exact hleaf

lemma Restored.turn (h : Restored c mgr earlier (pg :: rest) e t) :
    (∃ gb, reservation mgr pg = some gb ∧ pg.phase ≠ .failed ∧
      Admits t gb.leaf pg.key gb.minRes ∧
      (recoverGang mgr e pg).tree = some (admitted t gb.leaf pg.key gb.minRes) ∧
      (recoverGang mgr e pg).gangBook = e.gangBook.insert pg.key gb) ∨
    ((∀ gb, reservation mgr pg = some gb → pg.phase ≠ .failed →
        ¬ Admits t gb.leaf pg.key gb.minRes) ∧
      (recoverGang mgr e pg).tree = some t ∧ (recoverGang mgr e pg).gangBook = e.gangBook) := by
  obtain ⟨hnew, hfresh⟩ := h.new pg List.mem_cons_self
  by_cases hok : ∃ gb, reservation mgr pg = some gb ∧ pg.phase ≠ .failed ∧
      Admits t gb.leaf pg.key gb.minRes
  · obtain ⟨gb, hres, hlive, ha⟩ := hok
    rw [recoverGang_restores h.tree hres hlive hnew ha]
    exact .inl ⟨gb, hres, hlive, ha, rfl, rfl⟩
  push Not at hok
  refine .inr ⟨hok, ?_⟩
  cases hres : reservation mgr pg with
  | none =>
    obtain ⟨htree, hgangs, -⟩ := recoverGang_skips h.tree h.index hfresh hres
    exact ⟨htree.trans h.tree, hgangs⟩
  | some gb =>
    rcases recoverGang_cases mgr e pg with ⟨hrec, -, he⟩ | ⟨-, he⟩
    swap
    · rw [he]
      exact ⟨h.tree, rfl⟩
    obtain ⟨-, -, -, rfl⟩ := reservation_some hres
    rw [he]
    rcases admitGang_step e pg.reservedQueue pg.key (fromQuantityMap pg.reservedResources) with
      ⟨tree, gangBook⟩ | ⟨t₁, tree, _, admits, _, _⟩ | ⟨t₁, tree, _, held, _, _⟩
    · exact ⟨tree.trans h.tree, gangBook⟩
    · cases h.tree.symm.trans tree
      exact absurd admits (hok _ hres hrec.live)
    · cases h.tree.symm.trans tree
      exact absurd held hfresh

/-- The status of a group says what the ledger says: the same reservation, or none that the
next process would take over. -/
def Faithful (c : Coordinator ℤ) (mgr : QueueManager ℤ) (earlier : List (PodGroup ℤ))
    (pg : PodGroup ℤ) : Prop :=
  match c.engine.gangBook.lookup pg.key with
  | some gb => ∃ gb', reservation mgr pg = some gb' ∧ SameBooking gb gb'
  | none => ¬ Revives c mgr earlier pg

lemma Restored.faithful_iff (h : Restored c mgr earlier (pg :: rest) e t) (hw : Within c mgr)
    (hvalid : GangsValid c.engine) (hkeys : ((earlier ++ [pg]).map PodGroup.key).Nodup)
    (hlive : pg.phase ≠ .failed) :
    Option.Rel SameBooking (c.engine.gangBook.lookup pg.key)
      ((recoverGang mgr e pg).gangBook.lookup pg.key) ↔ Faithful c mgr earlier pg := by
  have hnone : e.gangBook.lookup pg.key = none :=
    Finmap.lookup_eq_none.mpr (h.new pg List.mem_cons_self).1
  rw [Faithful]
  rcases h.turn with ⟨gb', hres, -, ha, -, hbook⟩ | ⟨hno, -, hbook⟩
  · rw [hbook, Finmap.lookup_insert]
    cases c.engine.gangBook.lookup pg.key with
    | none =>
      have hrevives : Revives c mgr earlier pg := ⟨gb', hres, (h.admits_iff hres).mp ha⟩
      simp [hrevives]
    | some gb => simp [hres]
  · rw [hbook, hnone]
    cases hgb : c.engine.gangBook.lookup pg.key with
    | none =>
      have hdead : ¬ Revives c mgr earlier pg := by
        rintro ⟨gb', hres, hroom⟩
        exact hno gb' hres hlive ((h.admits_iff hres).mpr hroom)
      simp [hdead]
    | some gb =>
      have hlost : ¬ ∃ gb', reservation mgr pg = some gb' ∧ SameBooking gb gb' := by
        rintro ⟨gb', hres, hsame⟩
        have hroom := room_of_within hw hvalid hkeys hlive hgb hres hsame
        exact hno gb' hres hlive ((h.admits_iff hres).mpr hroom)
      simp [hlost]

lemma Restored.next (h : Restored c mgr earlier (pg :: rest) e t)
    (hkeys : ((pg :: rest).map PodGroup.key).Nodup)
    (hrel : pg.phase ≠ .failed → Option.Rel SameBooking (c.engine.gangBook.lookup pg.key)
      ((recoverGang mgr e pg).gangBook.lookup pg.key)) :
    ∃ t', Restored c mgr (earlier ++ [pg]) rest (recoverGang mgr e pg) t' := by
  have hnone : e.gangBook.lookup pg.key = none :=
    Finmap.lookup_eq_none.mpr (h.new pg List.mem_cons_self).1
  have hne : ∀ x ∈ rest, x.key ≠ pg.key := fun x hx heq =>
    (List.nodup_cons.mp hkeys).1 (heq ▸ List.mem_map_of_mem hx)
  have hold : ∀ x ∈ rest, x.key ∉ e.gangBook ∧ x.key ∉ t.gangs := fun x hx =>
    h.new x (List.mem_cons_of_mem _ hx)
  rcases h.turn with ⟨gb', -, hlive, ha, htree, hbook⟩ | ⟨-, htree, hbook⟩
  · refine ⟨_, htree, h.index, fun x hx => ⟨?_, ?_⟩, fun n d => ?_⟩
    · rw [hbook, Finmap.mem_insert]
      exact fun hor => hor.elim (hne x hx) (hold x hx).1
    · exact fun hin => (Finmap.mem_insert.mp hin).elim (hne x hx) (hold x hx).2
    · have hshare : ledgerShare c mgr n d pg = gangShare mgr.index n d gb' := by
        have hr := hrel hlive
        rw [hbook, Finmap.lookup_insert] at hr
        rw [ledgerShare, if_neg hlive]
        cases hgb : c.engine.gangBook.lookup pg.key with
        | none => simp [hgb] at hr
        | some gb =>
          rw [hgb, Option.rel_some_some] at hr
          exact hr.share _ _ _
      rw [admitted_used ha.leaf_ok, h.used, List.map_append, List.sum_append, List.map_singleton,
        List.sum_singleton, hshare, h.index, add_assoc]
      rfl
  · refine ⟨t, htree, h.index, fun x hx => ?_, fun n d => ?_⟩
    · rw [hbook]
      exact hold x hx
    · have hshare : ledgerShare c mgr n d pg = 0 := by
        rw [ledgerShare]
        split_ifs with hfailed
        · rfl
        · have hr := hrel hfailed
          rw [hbook, hnone] at hr
          cases hgb : c.engine.gangBook.lookup pg.key with
          | none => rfl
          | some gb => simp [hgb] at hr
      simp [h.used, hshare]

lemma recoverGang_lookup_of_ne {key : String} (hne : key ≠ pg.key) :
    (recoverGang mgr e pg).gangBook.lookup key = e.gangBook.lookup key := by
  rcases recoverGang_cases mgr e pg with ⟨-, -, he⟩ | ⟨-, he⟩
  · rw [he]
    rcases admitGang_step e pg.reservedQueue pg.key (fromQuantityMap pg.reservedResources) with
      ⟨_, gangBook⟩ | ⟨_, _, _, _, _, gangBook'⟩ | ⟨_, _, _, _, _, gangBook'⟩
    · rw [gangBook]
    · rw [gangBook', Finmap.lookup_insert_of_ne _ hne]
    · rw [gangBook', Finmap.lookup_insert_of_ne _ hne]
  · rw [he]

lemma recoverGangs_lookup_of_ne {key : String} (hne : ∀ pg ∈ rest, pg.key ≠ key) :
    (rest.foldl (recoverGang mgr) e).gangBook.lookup key = e.gangBook.lookup key := by
  induction rest generalizing e with
  | nil => rfl
  | cons pg rest ih =>
    rw [List.foldl_cons, ih fun x hx => hne x (List.mem_cons_of_mem _ hx)]
    exact recoverGang_lookup_of_ne (hne pg List.mem_cons_self).symm

lemma takeWhile_before (hkeys : ((earlier ++ pg :: rest).map PodGroup.key).Nodup) :
    (earlier ++ pg :: rest).takeWhile (fun x => decide (x.key ≠ pg.key)) = earlier := by
  have hne : ∀ x ∈ earlier, decide (x.key ≠ pg.key) = true := by
    intro x hx
    rw [List.map_append, List.map_cons, List.nodup_append] at hkeys
    exact decide_eq_true (hkeys.2.2 x.key (List.mem_map_of_mem hx) pg.key List.mem_cons_self)
  rw [List.takeWhile_append_of_pos hne, List.takeWhile_cons_of_neg (by simp), List.append_nil]

lemma Restored.recovered_iff (h : Restored c mgr earlier rest e t) (hw : Within c mgr)
    (hvalid : GangsValid c.engine) (hsplit : groups = earlier ++ rest)
    (hkeys : (groups.map PodGroup.key).Nodup) :
    SameLedger rest c.engine.gangBook (rest.foldl (recoverGang mgr) e).gangBook ↔
      ∀ pg ∈ rest, pg.phase ≠ .failed →
        Faithful c mgr (groups.takeWhile fun x => decide (x.key ≠ pg.key)) pg := by
  -- a group's turn is judged by what the turns before it have booked, so both directions need
  -- that those have given what the ledger has
  induction rest generalizing earlier e t with
  | nil => simp [SameLedger]
  | cons pg rest ih =>
    subst hsplit
    have hsnoc : earlier ++ pg :: rest = (earlier ++ [pg]) ++ rest := by simp
    have hfirst : ((earlier ++ [pg]).map PodGroup.key).Nodup := by
      rw [hsnoc, List.map_append] at hkeys
      exact hkeys.of_append_left
    have hlater : ((pg :: rest).map PodGroup.key).Nodup := by
      rw [List.map_append] at hkeys
      exact hkeys.of_append_right
    have hturn : ((pg :: rest).foldl (recoverGang mgr) e).gangBook.lookup pg.key =
        (recoverGang mgr e pg).gangBook.lookup pg.key := by
      rw [List.foldl_cons]
      refine recoverGangs_lookup_of_ne fun x hx heq => ?_
      exact (List.nodup_cons.mp hlater).1 (heq ▸ List.mem_map_of_mem hx)
    rw [SameLedger, List.forall_mem_cons, List.forall_mem_cons, hturn, takeWhile_before hkeys]
    constructor
    · rintro ⟨hpg, hrest⟩
      obtain ⟨t', h'⟩ := h.next hlater hpg
      exact ⟨fun hlive => (h.faithful_iff hw hvalid hfirst hlive).mp (hpg hlive),
        (ih h' hsnoc).mp hrest⟩
    · rintro ⟨hpg, hrest⟩
      have hrel := fun hlive => (h.faithful_iff hw hvalid hfirst hlive).mpr (hpg hlive)
      obtain ⟨t', h'⟩ := h.next hlater hrel
      exact ⟨hrel, (ih h' hsnoc).mpr hrest⟩

lemma restored_start (hkeys : (groups.map PodGroup.key).Nodup)
    (hasm : assemble c.queues c.quotas = .ok mgr) {trackedOrder : List String}
    (hto : Visits trackedOrder c.tracked) {e : Engine ℤ} (hb : e.book = ∅) (hg : e.gangBook = ∅) :
    ∃ t, Restored c mgr [] groups
      ((entries trackedOrder c.tracked).foldl (bookTracked mgr) { e with tree := some mgr }) t := by
  obtain ⟨hf, ho⟩ := published (c := restart c groups) hasm hkeys hto hb hg
  obtain ⟨hf', ho'⟩ := observe_all hf ho
  obtain ⟨t, ht, hix⟩ := hf'.tree
  refine ⟨t, ht, hix, fun pg hpg => ?_, fun n d => ?_⟩
  · exact ⟨(ho'.groupsNew pg hpg).1, (ho'.groupsNew pg hpg).2 t ht⟩
  · have hsum := ho'.used t ht n d
    rw [demand, List.map_nil, List.sum_nil, zero_add] at hsum
    rw [List.map_nil, List.sum_nil, add_zero]
    exact add_right_cancel hsum

lemma restart_same_iff (hw : Within c mgr) (hvalid : GangsValid c.engine)
    (hkeys : (groups.map PodGroup.key).Nodup) (hasm : assemble c.queues c.quotas = .ok mgr)
    {trackedOrder : List String} (hto : Visits trackedOrder c.tracked) :
    SameLedger groups c.engine.gangBook
        ((restart c groups).rebuild [] [] trackedOrder).engine.gangBook ↔
      ∀ pg ∈ groups, pg.phase ≠ .failed →
        Faithful c mgr (groups.takeWhile fun x => decide (x.key ≠ pg.key)) pg := by
  obtain ⟨t, h⟩ := restored_start (e := newEngine c.engine.gangScheduleTimeout) hkeys hasm hto
    rfl rfl
  have hbuilt : ((restart c groups).rebuild [] [] trackedOrder).engine =
      groups.foldl (recoverGang mgr) ((entries trackedOrder c.tracked).foldl (bookTracked mgr)
        { newEngine c.engine.gangScheduleTimeout with tree := some mgr }) := by
    rw [Coordinator.rebuild, show assemble (restart c groups).queues (restart c groups).quotas =
      .ok mgr from hasm]
    rfl
  rw [hbuilt]
  exact h.recovered_iff hw hvalid (List.nil_append groups).symm hkeys

end Turn

section Objects
variable {r : Reconciler ℤ} {mgr : QueueManager ℤ} {api : Map String (Stored ℤ)} {now : ℤ}
  {o : Stored ℤ} {key : String} {gb : GangBooking ℤ}

lemma leaf_ne_empty {p : String} (h : mgr.isLeafPath p = true) : p ≠ "" := by
  rintro rfl
  obtain ⟨q, hq, -⟩ := (isLeafPath_iff mgr "").mp h
  cases hp : q.parent with
  | none => exact absurd (mgr.wf.root_only hq hp) (by decide)
  | some pp =>
    have hlen := congrArg String.length (mgr.wf.parent_mem hq hp).2
    have hdot : ".".length = 1 := rfl
    simp only [String.length_append, String.length_empty] at hlen
    omega

lemma reservation_same_iff {pg : PodGroup ℤ} :
    (∃ gb', reservation mgr pg = some gb' ∧ SameBooking gb gb') ↔
      mgr.isLeafPath gb.leaf = true ∧ pg.admitted = true ∧ pg.reservedQueue = gb.leaf ∧
        ∀ d, get (fromQuantityMap pg.reservedResources) d = get gb.minRes d := by
  constructor
  · rintro ⟨gb', hres, hsame⟩
    obtain ⟨hadm, -, hleaf, rfl⟩ := reservation_some hres
    exact ⟨hsame.1 ▸ hleaf, hadm, hsame.1.symm, fun d => (hsame.2 d).symm⟩
  · rintro ⟨hleaf, hadm, hq, hamount⟩
    refine ⟨⟨pg.reservedQueue, fromQuantityMap pg.reservedResources⟩, ?_, hq.symm,
      fun d => (hamount d).symm⟩
    simp [reservation, recorded, hadm, hq, hleaf, leaf_ne_empty hleaf]

lemma get_merged (res : Resource ℤ) (old : ResourceList ℤ) (d : String) :
    get (fromQuantityMap (toQuantityMap res ∪ old)) d =
      if d ∈ res then get res d else get (fromQuantityMap old) d := by
  have hmem : d ∈ toQuantityMap res ↔ d ∈ res := by
    rw [toQuantityMap, mem_tabulate, Finmap.mem_keys]
  rw [get_fromQuantityMap, get_fromQuantityMap]
  split_ifs with hd
  · rw [Finmap.lookup_union_left (hmem.mpr hd), quantityToUnit_toQuantityMap hd]
  · rw [Finmap.lookup_union_right (hd ∘ hmem.mp)]

lemma merged_same_iff (res : Resource ℤ) (old : ResourceList ℤ) :
    (∀ d, get (fromQuantityMap (toQuantityMap res ∪ old)) d = get res d) ↔
      ∀ d, d ∉ res → get (fromQuantityMap old) d = 0 := by
  have hzero : ∀ d, d ∉ res → get res d = 0 := fun d hd =>
    get_of_notMem (fun hin => hd (Finmap.mem_keys.mp hin))
  constructor
  · intro h d hd
    have hd' := h d
    rwa [get_merged, if_neg hd, hzero d hd] at hd'
  · intro h d
    rw [get_merged]
    split_ifs with hd
    · rfl
    · rw [h d hd, hzero d hd]

lemma gangPatch_reserved {pg : PodGroup ℤ} {ledger : Map String (GangBooking ℤ)}
    (hgb : ledger.lookup pg.key = some gb) : gangPatch ledger pg =
      if pg.admitted = true ∧ pg.reservedQueue = gb.leaf then none
      else some ⟨pg.ns, pg.name, .reservation (some gb)⟩ := by
  rw [gangPatch, hgb]

lemma gangPatch_free {pg : PodGroup ℤ} {ledger : Map String (GangBooking ℤ)}
    (hgb : ledger.lookup pg.key = none) : gangPatch ledger pg =
      if pg.admitted = false then none else some ⟨pg.ns, pg.name, .reservation none⟩ := by
  rw [gangPatch, hgb]

lemma synced_reserved (now : ℤ) (hkeys : (r.coord.podGroups.map PodGroup.key).Nodup) {key : String}
    (hgb : r.coord.engine.gangBook.lookup key = some gb) (ho : api.lookup key = some o) :
    (applyPatches api (r.syncGangStatuses now).2).lookup key =
      some (if Unwritten r.coord key gb.leaf then o
        else StatusChange.apply o (.reservation (some gb))) := by
  rcases synced_lookup api now hkeys key with
    ⟨pg, hpg, p, rfl, hp, hlook⟩ | ⟨hnone, hlook⟩
  · rw [gangPatch_reserved hgb] at hp
    split_ifs at hp with hshown
    cases hp
    rw [hlook, ho, if_neg fun hu => hshown (hu pg hpg rfl)]
    rfl
  · have hu : Unwritten r.coord key gb.leaf := by
      rintro pg hpg rfl
      have hp := hnone pg hpg rfl
      rw [gangPatch_reserved hgb] at hp
      by_contra hshown
      rw [if_neg hshown] at hp
      cases hp
    rw [hlook, ho, if_pos hu]

lemma synced_free (now : ℤ) (hkeys : (r.coord.podGroups.map PodGroup.key).Nodup) {key : String}
    (hgb : r.coord.engine.gangBook.lookup key = none) (ho : api.lookup key = some o) :
    Cleared r.coord key ∧ (applyPatches api (r.syncGangStatuses now).2).lookup key =
        some (StatusChange.apply o (.reservation none)) ∨
      ¬ Cleared r.coord key ∧
        (applyPatches api (r.syncGangStatuses now).2).lookup key = some o := by
  rcases synced_lookup api now hkeys key with
    ⟨pg, hpg, p, rfl, hp, hlook⟩ | ⟨hnone, hlook⟩
  · rw [gangPatch_free hgb] at hp
    split_ifs at hp with hshown
    cases hp
    rw [hlook, ho]
    exact .inl ⟨⟨pg, hpg, rfl, by simpa using hshown⟩, rfl⟩
  · refine .inr ⟨?_, hlook.trans ho⟩
    rintro ⟨pg, hpg, rfl, hadm⟩
    have hp := hnone pg hpg rfl
    rw [gangPatch_free hgb, hadm] at hp
    cases hp

lemma synced_faithful_iff (mgr : QueueManager ℤ) (now : ℤ) (earlier : List (PodGroup ℤ))
    (hkeys : (r.coord.podGroups.map PodGroup.key).Nodup) (hkey : o.group.key = key)
    (ho : api.lookup key = some o) :
    ∃ o', (applyPatches api (r.syncGangStatuses now).2).lookup key = some o' ∧
      o'.group.key = key ∧ o'.group.phase = o.group.phase ∧
      (Faithful r.coord mgr earlier o'.group ↔ Kept r.coord mgr earlier key o.group) := by
  subst hkey
  rw [Kept]
  cases hgb : r.coord.engine.gangBook.lookup o.group.key with
  | some gb =>
    have hsynced := synced_reserved now hkeys hgb ho
    dsimp only
    rw [Checkpointed]
    split_ifs at hsynced ⊢ with hu
    · refine ⟨o, hsynced, rfl, rfl, ?_⟩
      rw [Faithful, hgb]
      exact reservation_same_iff
    · refine ⟨_, hsynced, rfl, rfl, ?_⟩
      have hgb' : r.coord.engine.gangBook.lookup
          (StatusChange.apply o (.reservation (some gb))).group.key = some gb := hgb
      rw [Faithful, hgb']
      dsimp only
      rw [reservation_same_iff, ← merged_same_iff]
      simp [StatusChange.apply]
  | none =>
    rcases synced_free now hkeys hgb ho with ⟨hcl, hsynced⟩ | ⟨hcl, hsynced⟩
    · refine ⟨_, hsynced, rfl, rfl, ?_⟩
      have hgb' : r.coord.engine.gangBook.lookup
          (StatusChange.apply o (.reservation none)).group.key = none := hgb
      rw [Faithful, hgb']
      simp [hcl, Revives, reservation, recorded, StatusChange.apply]
    · refine ⟨o, hsynced, rfl, rfl, ?_⟩
      rw [Faithful, hgb]
      simp [hcl]

end Objects

section Histories
variable {s : Site} {timeout : ℤ}

structure Sound (timeout : ℤ) (s : Site) : Prop where
  engine : machine.Reaches (newEngine timeout) s.ctl.coord.engine
  store : (s.ctl.coord.podGroups.map PodGroup.key).Nodup
  api : Keyed s.api

lemma apply_key (o : Stored ℤ) (change : StatusChange ℤ) :
    (change.apply o).group.key = o.group.key := by
  rcases change with (_ | _) | _ | _ <;> rfl

lemma Keyed.applyPatches {api : Map String (Stored ℤ)} (h : Keyed api) (patches : List (Patch ℤ)) :
    Keyed (applyPatches api patches) := by
  induction patches generalizing api with
  | nil => exact h
  | cons p patches ih =>
    refine ih fun key o ho => ?_
    rw [applyPatch_lookup] at ho
    split_ifs at ho
    · obtain ⟨o', ho', rfl⟩ := Option.map_eq_some_iff.mp ho
      rw [apply_key]
      exact h key o' ho'
    · exact h key o ho

lemma Keyed.insert {api : Map String (Stored ℤ)} (h : Keyed api) (o : Stored ℤ) :
    Keyed (api.insert o.group.key o) := by
  intro key o' ho'
  rcases lookup_insert_cases ho' with ⟨rfl, rfl⟩ | ⟨-, ho'⟩
  · rfl
  · exact h key o' ho'

lemma Keyed.erase {api : Map String (Stored ℤ)} (h : Keyed api) (key : String) :
    Keyed (api.erase key) := by
  intro k o ho
  exact h k o (lookup_of_erase ho)

lemma Sound.setCoord (h : Sound timeout s) {c : Coordinator ℤ}
    (hengine : machine.Reaches s.ctl.coord.engine c.engine)
    (hstore : c.podGroups = s.ctl.coord.podGroups) : Sound timeout (s.setCoord c) :=
  ⟨h.engine.trans hengine, hstore ▸ h.store, h.api⟩

lemma Sound.write (h : Sound timeout s) (patches : List (Patch ℤ)) (lost : List String) :
    Sound timeout (s.write patches lost) :=
  ⟨h.engine, h.store, h.api.applyPatches _⟩

lemma sound_next (h : Sound timeout s) {step : Step} (he : s.Enabled step) :
    Sound timeout (s.next step) := by
  cases step with
  | call c =>
    refine h.setCoord (.step (a := c) ?_) rfl
    cases c with
    | rebuild => exact he.elim
    | _ => exact he
  | publish bookOrder gangOrder =>
    simp only [Site.next]
    split
    · exact h
    · rename_i mgr hmgr
      exact h.setCoord (.step (a := Call.rebuild mgr bookOrder gangOrder)
        ⟨assemble_newManager hmgr, he.1, he.2⟩) rfl
  | rebuild =>
    exact h.setCoord (Coordinator.reaches_rebuild he.1 he.2.1 _)
      (Coordinator.rebuild_podGroups _ _ _ _)
  | preEnqueue pod now =>
    refine h.setCoord (Gang.reaches_preEnqueue s.ctl.coord pod now) ?_
    rw [Gang.preEnqueue_rest]
  | sync now lost =>
    have hsynced : Sound timeout { s with ctl := (s.ctl.syncGangStatuses now).1 } :=
      ⟨h.engine, h.store, h.api⟩
    exact hsynced.write _ _
  | check now order lost =>
    have hstore : (s.ctl.checkGangTimeouts now order).1.coord.podGroups =
        s.ctl.coord.podGroups := by
      rw [(checkGangTimeouts_givenUp s.ctl now he).rest]
    have hchecked : Sound timeout { s with ctl := (s.ctl.checkGangTimeouts now order).1 } :=
      ⟨h.engine.trans (reaches_checkGangTimeouts _ _ _), hstore ▸ h.store, h.api⟩
    exact hchecked.write _ _
  | phases lost => exact h.write _ _
  | deliver n =>
    simp only [Site.next]
    split
    · exact h
    · exact ⟨h.engine, nodup_deliver h.store _, h.api⟩
  | remove pg =>
    exact ⟨h.engine.trans (.step (a := Call.releaseGang pg.key) trivial), nodup_remove h.store pg,
      h.api⟩
  | put pg =>
    simp only [Site.next]
    split
    · exact ⟨h.engine, h.store, h.api.insert _⟩
    · exact ⟨h.engine, h.store, h.api.insert _⟩
  | delete key => exact ⟨h.engine, h.store, h.api.erase key⟩
  | queues => exact h.setCoord (.refl _ _) rfl
  | pods event =>
    exact h.setCoord (Informers.effect_deliver _ event).engine.of_restrict
      (Informers.deliver_podGroups _ event)

lemma sound_run {steps : List Step} (h : Run site (start timeout) steps s) : Sound timeout s := by
  refine h.invariant (I := Sound timeout) ⟨.refl _ _, List.nodup_nil, ?_⟩
    fun _ _ hs he => sound_next hs he
  intro key o ho
  cases ho

end Histories

/-- In every state of every history, the restart gives every group that has not failed the
reservation it had, if and only if every object is as the sync assumes. -/
theorem persist_recover_iff {timeout : ℤ} {steps : List Step} {s : Site}
    (h : Run site (start timeout) steps s) {mgr : QueueManager ℤ}
    (hasm : assemble s.ctl.coord.queues s.ctl.coord.quotas = .ok mgr)
    (hw : Within s.ctl.coord mgr) {now : ℤ} {groups : List (PodGroup ℤ)}
    (hgroups : Reflects groups (applyPatches s.api (s.ctl.syncGangStatuses now).2))
    {trackedOrder : List String} (hto : Visits trackedOrder s.ctl.coord.tracked) :
    SameLedger groups s.ctl.coord.engine.gangBook
        ((restart s.ctl.coord groups).rebuild [] [] trackedOrder).engine.gangBook ↔
      Persisted s.ctl.coord mgr s.api groups := by
  obtain ⟨⟨calls, hcalls⟩, hstore, hapi⟩ := sound_run h
  rw [restart_same_iff hw (gangsValid_run hcalls) hgroups.once hasm hto]
  constructor
  · intro hall key o ho hlive
    obtain ⟨o', ho', hkey', hphase, hiff⟩ := synced_faithful_iff mgr now
      (groups.takeWhile fun pg => decide (pg.key ≠ key)) hstore (hapi key o ho) ho
    have hmem : o'.group ∈ groups := (hgroups.mem_iff _).mpr ⟨o', hkey' ▸ ho', rfl⟩
    have hfaithful := hall o'.group hmem (hphase ▸ hlive)
    rw [hkey'] at hfaithful
    exact hiff.mp hfaithful
  · intro hall pg hpg hlive
    obtain ⟨o', ho', rfl⟩ := (hgroups.mem_iff pg).mp hpg
    obtain ⟨o, ho⟩ := stored_of_synced hstore ho'
    obtain ⟨o'', ho'', -, hphase, hiff⟩ := synced_faithful_iff mgr now
      (groups.takeWhile fun pg => decide (pg.key ≠ o'.group.key)) hstore
      (hapi _ o ho) ho
    cases ho'.symm.trans ho''
    exact hiff.mpr (hall _ o ho (hphase ▸ hlive))

/-- A store that lists every object of the server reflects it. -/
def listed (order : List String) (api : Map String (Stored ℤ)) : List (PodGroup ℤ) :=
  (entries order api).map fun entry => entry.2.group

lemma reflects_listed {order : List String} {api : Map String (Stored ℤ)} (hv : Visits order api)
    (hk : Keyed api) : Reflects (listed order api) api := by
  have hkeys : (listed order api).map PodGroup.key = (entries order api).map Prod.fst := by
    rw [listed, List.map_map]
    exact List.map_congr_left fun entry hentry => hk _ _ ((mem_entries_iff hv).mp hentry)
  refine ⟨hkeys ▸ entries_nodup hv.1, fun pg => ?_⟩
  rw [listed, List.mem_map]
  constructor
  · rintro ⟨entry, hentry, rfl⟩
    have ho := (mem_entries_iff hv).mp hentry
    exact ⟨entry.2, hk _ _ ho ▸ ho, rfl⟩
  · rintro ⟨o, ho, rfl⟩
    exact ⟨(o.group.key, o), (mem_entries_iff hv).mpr ho, rfl⟩

instance (s : Site) (step : Step) : Decidable (site.enabled s step) :=
  match step with
  | .call c => match c with
    | .gcBookings _ order => inferInstanceAs (Decidable (Visits order s.ctl.coord.engine.book))
    | .gcGangs _ order => inferInstanceAs (Decidable (Visits order s.ctl.coord.engine.gangBook))
    | .rebuild _ _ _ => isFalse id
    | .reserve _ _ _ | .unreserve _ | .commit _ | .observeBound _ _ _ | .observeDeleted _
    | .admitGang _ _ _ | .admitGangWW _ _ _ _ _ | .releaseGang _ => isTrue trivial
  | .publish bookOrder gangOrder =>
    inferInstanceAs (Decidable (Visits bookOrder s.ctl.coord.engine.book ∧
      Visits gangOrder s.ctl.coord.engine.gangBook))
  | .rebuild bookOrder gangOrder trackedOrder =>
    inferInstanceAs (Decidable (Visits bookOrder s.ctl.coord.engine.book ∧
      Visits gangOrder s.ctl.coord.engine.gangBook ∧ Visits trackedOrder s.ctl.coord.tracked))
  | .check _ order _ => inferInstanceAs (Decidable (Visits order s.ctl.coord.engine.gangBook))
  | .preEnqueue _ _ | .sync _ _ | .phases _ | .deliver _ | .remove _ | .put _ | .delete _
  | .queues _ _ | .pods _ => isTrue trivial

instance (c : Coordinator ℤ) (mgr : QueueManager ℤ) : Decidable (Within c mgr) :=
  decidable_of_iff (∀ key ∈ c.engine.gangBook.keys, ∀ gb ∈ c.engine.gangBook.lookup key,
      mgr.fitsMax gb.leaf gb.minRes = true ∧
      ∀ n ∈ pathUp mgr.index gb.leaf, ∀ d ∈ gb.minRes.keys, d ∈ n.max.keys →
        podUsage c mgr n.path d +
          (total c.engine.gangBook fun _ b => gangShare mgr.index n.path d b) ≤ get n.max d)
    ⟨fun h key gb hgb => h key (Finmap.mem_keys.mpr (Finmap.mem_of_lookup_eq_some hgb)) gb hgb,
      fun h key _ gb hgb => h key gb hgb⟩

open GangTimeouts

def gangOn (queue : String) (minResources : ResourceList ℤ) : PodGroup ℤ :=
  { timedGroup none with queue := queue, minResources := minResources }

def jobs : QueueCR ℤ := bareQueue "team" "jobs" 10 ["runner"]
def batch : QueueCR ℤ := bareQueue "team" "batch" 10 ["crew"]

def granted : List Step :=
  [.queues [jobs] [], .rebuild [] [] [],
    .put (gangOn "root.team.jobs" (Finmap.singleton "cpu" ⟨0, 2⟩)), .deliver 0,
    .preEnqueue timedMember 0]

def bigPod : Pod ℤ := { barePod "old" "team" "runner" 9 with nodeName := "node" }

def regranted : List Step :=
  granted ++ [.sync 0 [], .deliver 1, .queues [batch] [], .rebuild [] ["team/gang"] [],
    .put (gangOn "root.team.jobs" (Finmap.singleton "cpu" ⟨0, 4⟩)), .deliver 2,
    .pods (.podUpsert bigPod), .queues [jobs] [], .rebuild [] [] ["old"],
    .pods (.podDelete bigPod), .preEnqueue timedMember 1]

def moved : List Step :=
  [.queues [jobs, batch] [], .rebuild [] [] [],
    .put (gangOn "root.team.jobs" ((Finmap.singleton "cpu" ⟨0, 2⟩).insert "memory" ⟨5, 5000⟩)),
    .deliver 0, .preEnqueue timedMember 0, .sync 0 [], .deliver 1, .queues [batch] [],
    .rebuild [] ["team/gang"] [],
    .put (gangOn "root.team.batch" (Finmap.singleton "cpu" ⟨0, 4⟩)), .deliver 2,
    .preEnqueue timedMember 1]

def unseen : List Step :=
  granted ++ [.sync 0 [], .queues [batch] [], .rebuild [] ["team/gang"] [], .queues [jobs] [],
    .rebuild [] [] []]

def after (steps : List Step) : Site := steps.foldl site.next (start 60)

def shownAfter (steps : List Step) : List (PodGroup ℤ) :=
  listed ["team/gang"] (applyPatches (after steps).api ((after steps).ctl.syncGangStatuses 2).2)

def ledgerAfter (steps : List Step) : Map String (GangBooking ℤ) :=
  ((restart (after steps).ctl.coord (shownAfter steps)).rebuild [] [] []).engine.gangBook

def Diverges (steps : List Step) : Prop :=
  Run site (start 60) steps (after steps) ∧
  (∃ mgr, assemble (after steps).ctl.coord.queues (after steps).ctl.coord.quotas = .ok mgr ∧
    Within (after steps).ctl.coord mgr) ∧
  Reflects (shownAfter steps)
    (applyPatches (after steps).api ((after steps).ctl.syncGangStatuses 2).2) ∧
  Visits [] (after steps).ctl.coord.tracked ∧
  ¬ SameLedger (shownAfter steps) (after steps).ctl.coord.engine.gangBook (ledgerAfter steps)

lemma scenarios_diverge : ∀ steps ∈ [regranted, moved, unseen], Diverges steps := by
  have hlegal : ∀ steps ∈ [regranted, moved, unseen], site.Legal (start 60) steps := by
    decide +kernel
  have hroom : ∀ steps ∈ [regranted, moved, unseen],
      ((assemble (after steps).ctl.coord.queues (after steps).ctl.coord.quotas).toOption.any
        fun mgr => decide (Within (after steps).ctl.coord mgr)) = true := by decide +kernel
  have hstored : ∀ steps ∈ [regranted, moved, unseen], Visits ["team/gang"]
      (applyPatches (after steps).api ((after steps).ctl.syncGangStatuses 2).2) := by decide +kernel
  have htracked : ∀ steps ∈ [regranted, moved, unseen],
      Visits [] (after steps).ctl.coord.tracked := by decide +kernel
  have hdiffers : ∀ steps ∈ [regranted, moved, unseen],
      ∃ pg ∈ shownAfter steps, pg.phase ≠ .failed ∧ ∃ d ∈ ["cpu", "memory"],
        ((after steps).ctl.coord.engine.gangBook.lookup pg.key).map (fun gb => get gb.minRes d) ≠
          ((ledgerAfter steps).lookup pg.key).map fun gb => get gb.minRes d := by decide +kernel
  intro steps hsteps
  have hrun := (hlegal steps hsteps).run
  refine ⟨hrun, ?_, reflects_listed (hstored steps hsteps) ((sound_run hrun).api.applyPatches _),
    htracked steps hsteps, fun hsame => ?_⟩
  · exact Outcomes.exists_ok_of_any (hroom steps hsteps)
  · obtain ⟨pg, hpg, hlive, d, -, hne⟩ := hdiffers steps hsteps
    exact hne (hsame.amount hpg hlive d)

/-- A re-admission that is not written, a dimension that is not removed, and a reservation
that is not cleared: the ledger after the restart is another one. -/
theorem restart_changes_ledger : Diverges regranted ∧ Diverges moved ∧ Diverges unseen :=
  ⟨scenarios_diverge _ (by simp), scenarios_diverge _ (by simp), scenarios_diverge _ (by simp)⟩

lemma granted_persisted {mgr : QueueManager ℤ} (hleaf : mgr.isLeafPath "root.team.jobs" = true)
    (groups : List (PodGroup ℤ)) :
    Persisted (after granted).ctl.coord mgr (after granted).api groups := by
  have hkeys : (after granted).api.keys = {"team/gang"} := by decide +kernel
  have hobject : ((after granted).api.lookup "team/gang").map
      (fun o => (o.group.key, o.group.reservedResources.keys)) = some ("team/gang", ∅) := by
    decide +kernel
  have hgang : ((after granted).ctl.coord.engine.gangBook.lookup "team/gang").map
      (fun gb => gb.leaf) = some "root.team.jobs" := by decide +kernel
  have hwritten : ¬ Unwritten (after granted).ctl.coord "team/gang" "root.team.jobs" := by
    decide +kernel
  intro key o ho _
  have hkey : key = "team/gang" := by
    have hin := Finmap.mem_keys.mpr (Finmap.mem_of_lookup_eq_some ho)
    rwa [hkeys, Finset.mem_singleton] at hin
  subst hkey
  rw [ho] at hobject
  obtain ⟨hk, hnothing⟩ := Prod.mk.inj (Option.some.inj hobject)
  obtain ⟨gb, hgb, hl⟩ := Option.map_eq_some_iff.mp hgang
  rw [Kept, hgb]
  refine ⟨hl ▸ hleaf, ?_⟩
  rw [hk, hl, if_neg hwritten]
  intro d _
  have hd : d ∉ o.group.reservedResources := by
    rw [← Finmap.mem_keys, hnothing]
    exact Finset.notMem_empty d
  rw [get_fromQuantityMap, Finmap.lookup_eq_none.mpr hd]
  rfl

theorem granted_survives_restart :
    SameLedger (shownAfter granted) (after granted).ctl.coord.engine.gangBook
        (ledgerAfter granted) ∧
      ((ledgerAfter granted).lookup "team/gang").map (fun gb => (gb.leaf, get gb.minRes "cpu")) =
        some ("root.team.jobs", 2) := by
  have hlegal : site.Legal (start 60) granted := by decide +kernel
  obtain ⟨mgr, hmgr, hw, hleaf⟩ : ∃ mgr,
      assemble (after granted).ctl.coord.queues (after granted).ctl.coord.quotas = .ok mgr ∧
        Within (after granted).ctl.coord mgr ∧ mgr.isLeafPath "root.team.jobs" = true :=
    Outcomes.exists_ok_of_any (by decide +kernel)
  have hstored : Visits ["team/gang"]
      (applyPatches (after granted).api ((after granted).ctl.syncGangStatuses 2).2) := by
    decide +kernel
  have hgroups := reflects_listed hstored ((sound_run hlegal.run).api.applyPatches _)
  exact ⟨(persist_recover_iff hlegal.run hmgr hw hgroups (by decide +kernel)).mpr
    (granted_persisted hleaf _), by decide +kernel⟩

end AdScheduler.GangCheckpoint
