import AdScheduler.Conservation

/-! The room below the maxima on the way to the root, after `slack`, `CanFit` and
`PathHeadroom` of `pkg/queue/queue.go`. -/
namespace AdScheduler.Headroom
open KeyedMap Resources QueueTree TreeShape Manager Conservation

variable {V : Type*} [CommRing V] [LinearOrder V]

/-- A capacity vector admits an amount; a dimension that it lacks is unlimited. -/
def Allows (cap : Resource V) (d : String) (x : V) : Prop := d ∈ cap.keys → x ≤ get cap d

instance (cap : Resource V) (d : String) (x : V) : Decidable (Allows cap d x) := by
  unfold Allows; infer_instance

/-- What a queue has left in each dimension it bounds; a full dimension stays with zero. -/
def slack (m : QueueManager V) (q : Queue V) : Resource V :=
  tabulate q.max.keys fun d => max (get q.max d - get (m.used q.path) d) 0

/-- One round of the walk: an entry of the queue's slack is taken where there is none yet
and where it is smaller. -/
def lower (out free : Resource V) : Resource V :=
  tabulate (out.keys ∪ free.keys) fun d =>
    if d ∈ free.keys ∧ (d ∈ out.keys → get free d < get out d) then get free d else get out d

def pathHeadroom (m : QueueManager V) (p : String) : Resource V :=
  (pathUp m.index p).foldl (fun out n => lower out (slack m n)) ∅

@[simp] lemma allows_empty (d : String) (x : V) : Allows ∅ d x := by
  intro h
  simp at h

lemma allows_tabulate (ks : Finset String) (f : String → V) (d : String) (x : V) :
    Allows (tabulate ks f) d x ↔ (d ∈ ks → x ≤ f d) := by
  unfold Allows
  rw [Finmap.mem_keys, mem_tabulate, get_tabulate]
  by_cases hd : d ∈ ks <;> simp [hd]

@[simp] lemma allows_slack (m : QueueManager V) (q : Queue V) (d : String) (x : V) :
    Allows (slack m q) d x ↔
      (d ∈ q.max.keys → x ≤ max (get q.max d - get (m.used q.path) d) 0) :=
  allows_tabulate _ _ d x

lemma allows_smaller {a b : Resource V} {f : String → V} {d : String}
    (hleft : d ∈ a.keys → d ∉ b.keys → f d = get a d)
    (hright : d ∉ a.keys → d ∈ b.keys → f d = get b d)
    (hboth : d ∈ a.keys → d ∈ b.keys → f d = min (get a d) (get b d)) (x : V) :
    Allows (tabulate (a.keys ∪ b.keys) f) d x ↔ Allows a d x ∧ Allows b d x := by
  rw [allows_tabulate]
  unfold Allows
  by_cases ha : d ∈ a.keys <;> by_cases hb : d ∈ b.keys
  · simp [ha, hb, hboth ha hb]
  · simp [ha, hb, hleft ha hb]
  · simp [ha, hb, hright ha hb]
  · simp [ha, hb]

@[simp] lemma allows_lower (a b : Resource V) (d : String) (x : V) :
    Allows (lower a b) d x ↔ Allows a d x ∧ Allows b d x := by
  refine allows_smaller (fun ha hb => ?_) (fun ha hb => ?_) (fun ha hb => ?_) x
  · simp [hb]
  · simp [ha, hb]
  · simp only [ha, hb, true_and, true_implies]
    rw [min_comm, min_def_lt]

lemma allows_foldl_lower (m : QueueManager V) (ns : List (Queue V)) (out : Resource V) (d : String)
    (x : V) :
    Allows (ns.foldl (fun out n => lower out (slack m n)) out) d x ↔
      Allows out d x ∧ ∀ n ∈ ns, Allows (slack m n) d x := by
  induction ns generalizing out with
  | nil => simp
  | cons n ns ih =>
    rw [List.foldl_cons, ih, allows_lower, List.forall_mem_cons, and_assoc]

lemma allows_pathHeadroom (m : QueueManager V) (p d : String) (x : V) :
    Allows (pathHeadroom m p) d x ↔ ∀ n ∈ pathUp m.index p, Allows (slack m n) d x := by
  simp only [pathHeadroom, allows_foldl_lower, allows_empty, true_and]

lemma canFit_iff_fits {m : QueueManager V} {p : String} (hp : p ∈ m.index) (r : Resource V) :
    m.canFit p r = .ok true ↔ m.fits p r = true := by
  obtain ⟨q, hq⟩ := Finmap.mem_iff.mp hp
  simp only [QueueManager.canFit, hq, Except.ok.injEq]

section Gate
variable (m : QueueManager ℤ) (p : String)

lemma fits_iff (r : Resource ℤ) :
    m.fits p r = true ↔ ∀ n ∈ pathUp m.index p, ∀ d ∈ r.keys,
      Allows n.max d (get (m.used n.path) d + get r d) := by
  simp only [QueueManager.fits, List.all_eq_true, decide_eq_true_eq, Allows, not_lt,
    le_sub_iff_add_le, add_comm]

lemma used_walkUp_reserve (r : Resource ℤ) {n : Queue ℤ} (hn : n ∈ pathUp m.index p) (d : String) :
    get ((m.walkUp p (Usage.reserve r)).used n.path) d = get (m.used n.path) d + get r d := by
  have hup : n.path ∈ m.up p := List.mem_map_of_mem hn
  simp only [QueueManager.used, walkUp_usage, if_pos hup, Usage.reserve, get_add]
  ring

/-- A positive request is admitted, is within the headroom of the path, and leaves every
queue of the path within its maximum once it is booked: all three are the same. -/
theorem gate_headroom_booking_agree {r : Resource ℤ} (hpos : ∀ d ∈ r.keys, 0 < get r d) :
    [m.fits p r = true,
      ∀ d ∈ r.keys, Allows (pathHeadroom m p) d (get r d),
      ∀ n ∈ pathUp m.index p, ∀ d ∈ r.keys, d ∈ n.max.keys →
        get ((m.walkUp p (Usage.reserve r)).used n.path) d ≤ get n.max d].TFAE := by
  tfae_have 1 ↔ 2 := by
    simp only [fits_iff, allows_pathHeadroom, allows_slack]
    constructor
    · intro h d hd n hn hmax
      have hroom := h n hn d hd hmax
      exact le_max_of_le_left (by omega)
    · intro h n hn d hd hmax
      have hroom := h d hd n hn hmax
      have hasked := hpos d hd
      omega
  tfae_have 1 ↔ 3 := by
    rw [fits_iff]
    constructor
    · intro h n hn d hd hmax
      rw [used_walkUp_reserve m p r hn]
      exact h n hn d hd hmax
    · intro h n hn d hd hmax
      have hbooked := h n hn d hd hmax
      rwa [used_walkUp_reserve m p r hn] at hbooked
  tfae_finish

end Gate

theorem small_tree_gate_agrees :
    let m := ((treeOf (twoLeaves 10 4) (by decide)).reserve "root.a" (Finmap.singleton "cpu" 1)).1
    let r : Resource ℤ := Finmap.singleton "cpu" 3
    (∀ d ∈ r.keys, 0 < get r d) ∧ m.fits "root.a" r = true ∧
      ∀ n ∈ pathUp m.index "root.a", ∀ d ∈ r.keys, d ∈ n.max.keys →
        get ((m.walkUp "root.a" (Usage.reserve r)).used n.path) d ≤ get n.max d := by
  intro m r
  have hpos : ∀ d ∈ r.keys, 0 < get r d := by decide
  have hfits : m.fits "root.a" r = true := by decide +kernel
  exact ⟨hpos, hfits, ((gate_headroom_booking_agree m "root.a" hpos).out 0 2).mp hfits⟩

end AdScheduler.Headroom
