import AdScheduler.Conservation

/-! The reservation of one gang, from `AdmitGang` to `ReleaseGang` of `pkg/queue/gang.go`. -/
namespace AdScheduler.GangHolds
open KeyedMap Resources QueueTree TreeShape Manager Conservation

variable {V : Type*} [CommRing V] [LinearOrder V]

def emptied (m : QueueManager V) : QueueManager V :=
  { m with usage := fun _ => ⟨∅, ∅, ∅⟩, gangs := ∅ }

/-- The gang is held, and its resources are booked as allocating from the leaf to the root. -/
structure Booked (m m' : QueueManager V) (leaf gangID : String) (r : Resource V) : Prop where
  index : m'.index = m.index
  gangs : m'.gangs = m.gangs.insert gangID ⟨leaf, r⟩
  usage : ∀ n d, (m'.usage n).read d =
    (m.usage n).read d + if n ∈ m.up leaf then (0, get r d, 0) else 0

lemma booked_admitted {m : QueueManager V} {leaf gangID : String} {r : Resource V}
    (hl : m.isLeafPath leaf = true) : Booked m (admitted m leaf gangID r) leaf gangID r := by
  refine ⟨rfl, rfl, fun n d => ?_⟩
  have hiff : Charges m.index leaf n ↔ n ∈ m.up leaf := ⟨fun hc => hc.2, fun hn => ⟨hl, hn⟩⟩
  rw [admitted_read hl]
  simp only [hiff]

section Release
variable {m : QueueManager V} {gangID : String} {x : GangHold V}

lemma hold_exec (hx : m.gangs.lookup gangID = some x) {op : Op V} (hop : op ≠ .releaseGang gangID) :
    (exec m op).1.gangs.lookup gangID = some x := by
  cases op with
  | admitGang leaf g r =>
    rcases admitGang_cases m leaf g r with ⟨hadmits, he⟩ | ⟨-, he, -⟩
    · have hne : gangID ≠ g := by
        rintro rfl
        exact hadmits.fresh (Finmap.mem_of_lookup_eq_some hx)
      simp only [exec, he, admitted, Finmap.lookup_insert_of_ne _ hne, hx]
    · simp only [exec, he, hx]
  | releaseGang g =>
    have hne : gangID ≠ g := fun he => hop (he ▸ rfl)
    simp only [exec, releaseGang_gangs, Finmap.lookup_erase_ne hne, hx]
  | _ => exact (congrArg (Finmap.lookup gangID) (mutate_gangs m _ _)).trans hx

lemma hold_run (hx : m.gangs.lookup gangID = some x) {ops : List (Op V)}
    (hops : Op.releaseGang gangID ∉ ops) : (run m ops).gangs.lookup gangID = some x := by
  induction ops generalizing m with
  | nil => exact hx
  | cons op ops ih =>
    rw [List.mem_cons, not_or] at hops
    exact ih (hold_exec hx (Ne.symm hops.1)) hops.2

lemma releaseGang_usage (hx : m.gangs.lookup gangID = some x) (n d : String) :
    ((m.releaseGang gangID).usage n).read d =
      (m.usage n).read d - if n ∈ m.up x.leaf then (0, get x.held d, 0) else 0 := by
  have hread := congrFun (releaseGang_read hx d) n
  have hup : (hierarchy m.wf).up x.leaf = m.up x.leaf := rfl
  rw [RollUp.post, hup] at hread
  rw [hread, sub_eq_add_neg]
  by_cases hn : n ∈ m.up x.leaf <;> simp [hn]

lemma releaseGang_unknown (h : gangID ∉ m.gangs) : m.releaseGang gangID = m := by
  rw [QueueManager.releaseGang, Finmap.lookup_eq_none.mpr h]

lemma releaseGang_twice (m : QueueManager V) (gangID : String) :
    (m.releaseGang gangID).releaseGang gangID = m.releaseGang gangID := by
  apply releaseGang_unknown
  rw [releaseGang_gangs]
  exact Finmap.notMem_erase_self

end Release

/-- The release of a gang takes back what its admission has added, and a second one nothing. -/
structure Undoes (m m' later : QueueManager V) (gangID : String) : Prop where
  usage : ∀ n d, ((later.releaseGang gangID).usage n).read d =
    (later.usage n).read d - ((m'.usage n).read d - (m.usage n).read d)
  gangs : (later.releaseGang gangID).gangs = later.gangs.erase gangID
  once : (later.releaseGang gangID).releaseGang gangID = later.releaseGang gangID

lemma Booked.undone {m m' : QueueManager V} {leaf gangID : String} {r : Resource V}
    (h : Booked m m' leaf gangID r) {ops : List (Op V)} (hops : Op.releaseGang gangID ∉ ops) :
    Undoes m m' (run m' ops) gangID := by
  have hheld : m'.gangs.lookup gangID = some ⟨leaf, r⟩ := by rw [h.gangs, Finmap.lookup_insert]
  have hup : (run m' ops).up leaf = m.up leaf := by
    simp only [QueueManager.up, run_index, h.index]
  refine ⟨fun n d => ?_, releaseGang_gangs _ _, releaseGang_twice _ _⟩
  rw [releaseGang_usage (hold_run hheld hops), h.usage, hup, add_sub_cancel_left]

section Permanent
variable {m : QueueManager V} {leaf gangID : String} {r : Resource V}

lemma emptied_fits (m : QueueManager V) (leaf : String) (r : Resource V) :
    (emptied m).fits leaf r = m.fitsMax leaf r := by
  simp [QueueManager.fits, QueueManager.fitsMax, emptied, QueueManager.used]

lemma admitGang_neverFits_iff (hleaf : m.isLeafPath leaf = true) (hr : strictlyGtZero r = true)
    (hid : gangID ≠ "") (hnew : gangID ∉ m.gangs) :
    (m.admitGang leaf gangID r).2 = .error (.neverFits gangID leaf) ↔ m.fitsMax leaf r = false := by
  obtain ⟨q, hq, hql⟩ := (isLeafPath_iff m leaf).mp hleaf
  simp only [QueueManager.admitGang, hid, hr, hnew, hq, hql, if_false, Bool.true_eq_false]
  cases m.fitsMax leaf r <;> cases m.fits leaf r <;> simp

lemma emptied_admits_iff (hleaf : m.isLeafPath leaf = true) (hr : strictlyGtZero r = true)
    (hid : gangID ≠ "") :
    ((emptied m).admitGang leaf gangID r).2 = .ok true ↔ m.fitsMax leaf r = true := by
  have hmax : (emptied m).fitsMax leaf r = m.fitsMax leaf r := fitsMax_congr rfl leaf r
  have hnew : gangID ∉ (emptied m).gangs := Finmap.notMem_empty
  rcases admitGang_cases (emptied m) leaf gangID r with ⟨hadmits, he⟩ | ⟨hno, -, hheld⟩
  · simp [he, ← hmax, hadmits.within]
  · refine ⟨fun hok => absurd (hheld hok) hnew, fun hfits => absurd ?_ hno⟩
    exact ⟨hid, hr, hnew, hleaf, hmax.trans hfits, (emptied_fits m leaf r).trans hfits⟩

end Permanent

/-- Whatever is booked in the tree, a gang is taken as a whole or nothing changes; its release
takes back what was added, whatever came in between; and a gang is told that it never fits
exactly where the tree without usage would not take it. -/
theorem gang_admission_exact (m : QueueManager V) (leaf gangID : String) (r : Resource V) :
    let a := m.admitGang leaf gangID r
    ((a.2 = .ok true ∧ gangID ∉ m.gangs ∧ Booked m a.1 leaf gangID r) ∨
      (¬ (a.2 = .ok true ∧ gangID ∉ m.gangs) ∧ a.1 = m)) ∧
    (a.2 = .ok true → gangID ∉ m.gangs → ∀ later, Op.releaseGang gangID ∉ later →
      Undoes m a.1 (run a.1 later) gangID) ∧
    (m.isLeafPath leaf = true → strictlyGtZero r = true → gangID ≠ "" → gangID ∉ m.gangs →
      (a.2 = .error (.neverFits gangID leaf) ↔
        ((emptied m).admitGang leaf gangID r).2 ≠ .ok true)) := by
  intro a
  have hcases : (a.2 = .ok true ∧ gangID ∉ m.gangs ∧ Booked m a.1 leaf gangID r) ∨
      (¬ (a.2 = .ok true ∧ gangID ∉ m.gangs) ∧ a.1 = m) := by
    rcases admitGang_cases m leaf gangID r with ⟨hadmits, he⟩ | ⟨-, hsame, hheld⟩
    · have hafter : a.1 = admitted m leaf gangID r := congrArg Prod.fst he
      exact .inl ⟨congrArg Prod.snd he, hadmits.fresh, hafter ▸ booked_admitted hadmits.leaf_ok⟩
    · exact .inr ⟨fun hnew => hnew.2 (hheld hnew.1), hsame⟩
  refine ⟨hcases, fun hok hnew later hlater => ?_, fun hleaf hr hid hnew => ?_⟩
  · rcases hcases with ⟨-, -, hbooked⟩ | ⟨hno, -⟩
    · exact hbooked.undone hlater
    · exact absurd ⟨hok, hnew⟩ hno
  · rw [admitGang_neverFits_iff hleaf hr hid hnew, Ne, emptied_admits_iff hleaf hr hid,
      Bool.not_eq_true]

theorem small_gang_undone :
    let m := run (treeOf (twoLeaves 10 4) (by decide))
      [.allocate "root.a" (Finmap.singleton "cpu" 1)]
    let a := m.admitGang "root.a" "g" (Finmap.singleton "cpu" 2)
    let later := run a.1 [.admitGang "root.b" "g" (Finmap.singleton "cpu" 7),
      .allocate "root.b" (Finmap.singleton "cpu" 5)]
    a.2 = .ok true ∧ (later.usage "root").read "cpu" = (6, 2, 0) ∧ Undoes m a.1 later "g" := by
  intro m a later
  have hok : a.2 = .ok true := by decide +kernel
  refine ⟨hok, by decide +kernel, ?_⟩
  exact (gang_admission_exact m "root.a" "g" _).2.1 hok (by decide +kernel) _ (by simp)

end AdScheduler.GangHolds
