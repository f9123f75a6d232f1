import AdScheduler.UnitOrder

/-! The order of the scheduling queue, after `pkg/plugins/queuesort`. The plugin projects a
queued entity, a pod or a group of pods, onto what the comparator of the units reads. -/
namespace AdScheduler.QueueSort
open UnitOrder

/-- The UID of the pod, where there is a pod. -/
structure PodInfo where
  podUID : Option String
  deriving DecidableEq

/-- An entity of the scheduling queue. Two methods are found by their type only: `podInfo` is
`none` without a `GetPodInfo` and `some none` where it returns nil, `key` is `none` without a
`GetKey`. -/
structure QueuedEntityInfo where
  type : String
  priority : ℤ
  /-- In nanoseconds since 1970. -/
  timestamp : ℤ
  podInfo : Option (Option PodInfo)
  key : Option String
  deriving DecidableEq

/-- `Time.UnixNano`: 64 bits, which the years before 1678 and after 2262 wrap around. -/
def unixNano (timestamp : ℤ) : ℤ := timestamp.bmod (2 ^ 64)

/-- The time is one that `Time.UnixNano` represents. -/
def Representable (timestamp : ℤ) : Prop := -2 ^ 63 ≤ timestamp ∧ timestamp < 2 ^ 63

lemma unixNano_of_representable {timestamp : ℤ} (h : Representable timestamp) :
    unixNano timestamp = timestamp := by
  obtain ⟨hlow, hhigh⟩ := h
  exact Int.bmod_eq_of_le (by omega) (by omega)

/-- The UID of a pod, the type and the key of a group; empty where neither is found. -/
def entityID (e : QueuedEntityInfo) : String :=
  match e.podInfo, e.key with
  | some (some ⟨some uid⟩), _ => uid
  | some _, _ => ""
  | none, some key => e.type ++ "/" ++ key
  | none, none => ""

/-- The dominant share and the keys of a gang are left at zero. -/
def toOrder (e : QueuedEntityInfo) : AppOrder ℚ where
  dominantShare := 0
  priority := e.priority
  submitNanos := unixNano e.timestamp
  uid := entityID e
  gangID := ""
  gangPriority := 0
  gangSubmitNanos := 0

def less (a b : QueuedEntityInfo) : Bool := UnitOrder.less .sortFIFO (toOrder a) (toOrder b)

/-- The order that the plugin documents: the higher priority, then the earlier timestamp,
then the smaller id. -/
def DocumentedBefore (a b : QueuedEntityInfo) : Prop :=
  b.priority < a.priority ∨ a.priority = b.priority ∧
    (a.timestamp < b.timestamp ∨ a.timestamp = b.timestamp ∧ entityID a < entityID b)

instance (a b : QueuedEntityInfo) : Decidable (DocumentedBefore a b) :=
  inferInstanceAs (Decidable (_ ∨ _))

variable {a b : QueuedEntityInfo}

@[simp] lemma toOrder_blockID (e : QueuedEntityInfo) :
    (toOrder e).blockID = "p/" ++ entityID e := by
  simp [toOrder, AppOrder.blockID]

@[simp] lemma toOrder_repr (e : QueuedEntityInfo) :
    (toOrder e).repr = (e.priority, unixNano e.timestamp) := by
  simp [toOrder, AppOrder.repr]

lemma pod_block_lt_iff (x y : String) : "p/" ++ x < "p/" ++ y ↔ x < y := by
  simp only [String.lt_iff_toList_lt, String.toList_append]
  simp

lemma blockID_ne (hid : entityID a ≠ entityID b) : (toOrder a).blockID ≠ (toOrder b).blockID := by
  simpa using hid

lemma less_iff (hid : entityID a ≠ entityID b) : less a b = true ↔
    unixNano a.timestamp < unixNano b.timestamp ∨ unixNano a.timestamp = unixNano b.timestamp ∧
      (b.priority < a.priority ∨ a.priority = b.priority ∧ entityID a < entityID b) := by
  rw [less, less_iff_blockRank (blockID_ne hid)]
  simp only [blockRank, policyKey, toOrder_repr, toOrder_blockID, Prod.Lex.toLex_lt_toLex,
    OrderDual.toDual_lt_toDual, OrderDual.toDual_inj, pod_block_lt_iff]
  by_cases htime : unixNano a.timestamp = unixNano b.timestamp <;> simp [htime]

lemma less_iff_of_higher (hid : entityID a ≠ entityID b) (h : b.priority < a.priority) :
    less a b = true ↔ unixNano a.timestamp ≤ unixNano b.timestamp := by
  rw [less_iff hid, le_iff_lt_or_eq]
  simp [h]

/-- The two orders read the keys of the entities alike. Different priorities: the times are
the same or the higher priority is the earlier. Equal priorities: the wrapped times are as
the times are, and the ids where only the wrapped times are the same. -/
@[mk_iff] structure OrdersAgree (a b : QueuedEntityInfo) : Prop where
  priorities : a.priority ≠ b.priority → unixNano a.timestamp ≠ unixNano b.timestamp →
    (unixNano a.timestamp < unixNano b.timestamp ↔ b.priority < a.priority)
  wrapped : a.priority = b.priority → unixNano a.timestamp ≠ unixNano b.timestamp →
    (unixNano a.timestamp < unixNano b.timestamp ↔ a.timestamp < b.timestamp)
  collided : a.priority = b.priority → a.timestamp ≠ b.timestamp →
    unixNano a.timestamp = unixNano b.timestamp →
      (entityID a < entityID b ↔ a.timestamp < b.timestamp)

lemma documented_iff_ordersAgree (hid : entityID a ≠ entityID b) :
    (less a b = true ↔ DocumentedBefore a b) ↔ OrdersAgree a b := by
  rw [less_iff hid, DocumentedBefore]
  by_cases hpriority : a.priority = b.priority
  · by_cases htime : unixNano a.timestamp = unixNano b.timestamp
    · by_cases hexact : a.timestamp = b.timestamp
      · simp [ordersAgree_iff, hpriority, hexact]
      · simp [ordersAgree_iff, hpriority, htime, hexact]
    · have hexact : a.timestamp ≠ b.timestamp := fun h => htime (by rw [h])
      simp [ordersAgree_iff, hpriority, htime, hexact]
  · by_cases htime : unixNano a.timestamp = unixNano b.timestamp
    · simp [ordersAgree_iff, hpriority, htime]
    · simp [ordersAgree_iff, hpriority, htime]

lemma ordersAgree_of_representable (ha : Representable a.timestamp)
    (hb : Representable b.timestamp) : OrdersAgree a b ↔
      a.priority = b.priority ∨ a.timestamp = b.timestamp ∨
        (a.timestamp < b.timestamp ↔ b.priority < a.priority) := by
  rw [ordersAgree_iff, unixNano_of_representable ha, unixNano_of_representable hb]
  by_cases hpriority : a.priority = b.priority
  · simp +contextual [hpriority]
  · by_cases htime : a.timestamp = b.timestamp <;> simp [hpriority, htime]

/-- The pairs that are ordered as documented. The last part is about the priorities alone: the
higher one is attempted first exactly where it is not queued later. -/
theorem documented_order_iff (hid : entityID a ≠ entityID b) :
    ((less a b = true ↔ DocumentedBefore a b) ↔ OrdersAgree a b) ∧
    (Representable a.timestamp → Representable b.timestamp →
      (OrdersAgree a b ↔ a.priority = b.priority ∨ a.timestamp = b.timestamp ∨
        (a.timestamp < b.timestamp ↔ b.priority < a.priority))) ∧
    (b.priority < a.priority → (less a b = true ↔ unixNano a.timestamp ≤ unixNano b.timestamp)) :=
  ⟨documented_iff_ordersAgree hid, ordersAgree_of_representable, less_iff_of_higher hid⟩

def queuedPod (uid : String) (priority timestamp : ℤ) : QueuedEntityInfo where
  type := "Pod"
  priority := priority
  timestamp := timestamp
  podInfo := some (some ⟨some uid⟩)
  key := none

theorem urgent_and_early_first :
    let urgent := queuedPod "uid-a" 1000 1760000000000000000
    let batch := queuedPod "uid-b" 0 1760000001000000000
    entityID urgent ≠ entityID batch ∧ DocumentedBefore urgent batch ∧
        less urgent batch = true := by
  intro urgent batch
  have hid : entityID urgent ≠ entityID batch := by decide
  have hbefore : DocumentedBefore urgent batch := by decide
  obtain ⟨hiff, hagree, -⟩ := documented_order_iff hid
  have horders : OrdersAgree urgent batch :=
    (hagree ⟨by decide, by decide⟩ ⟨by decide, by decide⟩).mpr (by decide)
  exact ⟨hid, hbefore, (hiff.mpr horders).mpr hbefore⟩

/-- An urgent pod that is queued a second after a batch pod waits behind it. -/
theorem urgent_behind_earlier_batch :
    let urgent := queuedPod "uid-a" 1000 1760000001000000000
    let batch := queuedPod "uid-b" 0 1760000000000000000
    entityID urgent ≠ entityID batch ∧ DocumentedBefore urgent batch ∧
      less urgent batch = false ∧ less batch urgent = true := by
  decide +kernel

/-- A queue that is attempted in the order of `less` is attempted in the documented order
exactly where every two of its entities agree. -/
theorem queue_documented_iff {queue : List QueuedEntityInfo}
    (hids : queue.Pairwise (entityID · ≠ entityID ·)) (hsorted : queue.Pairwise (less · ·)) :
    queue.Pairwise DocumentedBefore ↔ queue.Pairwise OrdersAgree := by
  have hboth := hids.and hsorted
  constructor
  · intro hdoc
    refine (hboth.and hdoc).imp ?_
    rintro a b ⟨⟨hid, hless⟩, hbefore⟩
    exact (documented_iff_ordersAgree hid).mp (iff_of_true hless hbefore)
  · intro hagree
    refine (hboth.and hagree).imp ?_
    rintro a b ⟨⟨hid, hless⟩, horders⟩
    exact ((documented_iff_ordersAgree hid).mpr horders).mp hless

/-- Whatever the priorities, the queue is attempted by the time its entities were queued. -/
theorem queue_by_time {queue : List QueuedEntityInfo}
    (hids : queue.Pairwise (entityID · ≠ entityID ·)) (hsorted : queue.Pairwise (less · ·)) :
    queue.Pairwise (unixNano ·.timestamp ≤ unixNano ·.timestamp) := by
  refine (hids.and hsorted).imp ?_
  rintro a b ⟨hid, hless⟩
  rcases (less_iff hid).mp hless with hlt | ⟨heq, -⟩
  · exact hlt.le
  · exact heq.le

end AdScheduler.QueueSort
