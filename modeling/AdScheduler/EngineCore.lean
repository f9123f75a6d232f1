import AdScheduler.Conservation
import AdScheduler.WoundWait
import AdScheduler.Runs

/-! The engine, after `pkg/framework/engine.go`: the live tree, the booking ledgers
and the head-of-line bids. Every call runs under the engine's mutex, so a call is
one step. A loop over a ledger takes the order of its visits as an argument, and
`time.Now` is an argument as well. -/
namespace AdScheduler.EngineCore
open KeyedMap Resources QueueTree TreeShape Manager Conservation WoundWait Runs

inductive BookState
  | reserved
  | committed
  deriving DecidableEq

structure BookRec (V : Type*) where
  state : BookState
  leaf : String
  req : Resource V

structure GangBooking (V : Type*) where
  leaf : String
  minRes : Resource V

/-- A head-of-line reservation of a leaf and the time it was last written. -/
structure HolBid where
  key : WoundWaitKey
  stamp : ℤ
  deriving DecidableEq

structure Engine (V : Type*) [CommRing V] [LinearOrder V] where
  tree : Option (QueueManager V)
  book : Map String (BookRec V)
  gangBook : Map String (GangBooking V)
  holBids : Map String HolBid
  gangScheduleTimeout : ℤ

inductive EngineErr
  | gangLeafMismatch (key bound got : String)
  | noTree
  | queue (e : QueueErr)
  deriving DecidableEq

variable {V : Type*} [CommRing V] [LinearOrder V]

def newEngine (gangScheduleTimeout : ℤ) : Engine V := ⟨none, ∅, ∅, ∅, gangScheduleTimeout⟩

/-- An engine with a live tree and nothing booked. -/
def engineOn (gangScheduleTimeout : ℤ) (t : QueueManager V) : Engine V :=
  { newEngine gangScheduleTimeout with tree := some t }

def releaseBookLocked (t : QueueManager V) (rec : BookRec V) : QueueManager V :=
  match rec.state with
  | .committed => (t.release rec.leaf rec.req).1
  | .reserved => (t.unreserve rec.leaf rec.req).1

namespace Engine

def reserve (e : Engine V) (uid leaf : String) (req : Resource V) : Engine V :=
  if uid ∈ e.book then e
  else
    match e.tree with
    | none => e
    | some t =>
      match t.reserve leaf req with
      | (t', .error _) => { e with tree := some t' }
      | (t', .ok ()) =>
        { e with tree := some t', book := e.book.insert uid ⟨.reserved, leaf, req⟩ }

def unreserve (e : Engine V) (uid : String) : Engine V :=
  match e.book.lookup uid with
  | none => e
  | some rec =>
    if rec.state ≠ .reserved then e
    else { e with
      tree := e.tree.map fun t => (t.unreserve rec.leaf rec.req).1
      book := e.book.erase uid }

def commit (e : Engine V) (uid : String) : Engine V :=
  match e.book.lookup uid with
  | none => e
  | some rec =>
    if rec.state ≠ .reserved then e
    else { e with
      tree := e.tree.map fun t => (t.commit rec.leaf rec.req).1
      book := e.book.insert uid { rec with state := .committed } }

/-- A bound pod is seen: commit its reservation, or book it if it is unknown. -/
def observeBound (e : Engine V) (uid leaf : String) (req : Resource V) : Engine V :=
  match e.tree with
  | none => e
  | some t =>
    match e.book.lookup uid with
    | none =>
      if leaf ∈ t.index then
        { e with
          tree := some (t.allocate leaf req).1
          book := e.book.insert uid ⟨.committed, leaf, req⟩ }
      else e
    | some rec =>
      if rec.state = .reserved then
        { e with
          tree := some (t.commit rec.leaf rec.req).1
          book := e.book.insert uid { rec with state := .committed } }
      else e

def observeDeleted (e : Engine V) (uid : String) : Engine V :=
  match e.book.lookup uid with
  | none => e
  | some rec =>
    { e with
      tree := e.tree.map fun t => releaseBookLocked t rec
      book := e.book.erase uid }

/-- Release the bookings of pods that are gone; also the number released. -/
def gcBookings (e : Engine V) (live : Finset String) (order : List String) : Engine V × ℕ :=
  match e.tree with
  | none => (e, 0)
  | some _ => (entries order e.book).foldl collect (e, 0)
where
  collect (acc : Engine V × ℕ) (entry : String × BookRec V) : Engine V × ℕ :=
    if entry.1 ∈ live then acc
    else
      ({ acc.1 with
        tree := acc.1.tree.map fun t => releaseBookLocked t entry.2
        book := acc.1.book.erase entry.1 }, acc.2 + 1)

/-- Reserve a gang's aggregate on its leaf and record it. -/
def admitGang (e : Engine V) (leaf key : String) (minRes : Resource V) :
    Engine V × Except EngineErr Bool :=
  match e.gangBook.lookup key with
  | some gb =>
    if gb.leaf ≠ leaf then (e, .error (.gangLeafMismatch key gb.leaf leaf)) else (e, .ok true)
  | none =>
    match e.tree with
    | none => (e, .error .noTree)
    | some t =>
      match t.admitGang leaf key minRes with
      | (t', .error err) => ({ e with tree := some t' }, .error (.queue err))
      | (t', .ok false) => ({ e with tree := some t' }, .ok false)
      | (t', .ok true) =>
        ({ e with tree := some t', gangBook := e.gangBook.insert key ⟨leaf, minRes⟩ }, .ok true)

/-- The bids after the one of the leaf is dropped if it is too old. -/
def freshBids (e : Engine V) (leaf : String) (now : ℤ) : Map String HolBid :=
  match e.holBids.lookup leaf with
  | none => e.holBids
  | some bid =>
    if e.gangScheduleTimeout < now - bid.stamp then e.holBids.erase leaf else e.holBids

end Engine

/-- The bid of a higher-ranked gang that holds the caller back. -/
def blockingBid (bids : Map String HolBid) (leaf : String) (wwkey : WoundWaitKey) : Option HolBid :=
  (bids.lookup leaf).filter fun bid => decide (bid.key ≠ wwkey) && woundWaitLess bid.key wwkey

def releaseBid (bids : Map String HolBid) (leaf : String) (wwkey : WoundWaitKey) :
    Map String HolBid :=
  match bids.lookup leaf with
  | none => bids
  | some bid => if bid.key = wwkey then bids.erase leaf else bids

/-- A gang that does not fit bids unless a better bid stands. -/
def claimBid (bids : Map String HolBid) (leaf : String) (wwkey : WoundWaitKey) (now : ℤ) :
    Map String HolBid :=
  match bids.lookup leaf with
  | none => bids.insert leaf ⟨wwkey, now⟩
  | some bid =>
    if bid.key = wwkey ∨ woundWaitLess wwkey bid.key = true then bids.insert leaf ⟨wwkey, now⟩
    else bids

namespace Engine

/-- `admitGang` with head-of-line reservation. -/
def admitGangWW (e : Engine V) (leaf key : String) (minRes : Resource V) (wwkey : WoundWaitKey)
    (now : ℤ) : Engine V × Except EngineErr Bool :=
  match e.gangBook.lookup key with
  | some gb =>
    if gb.leaf ≠ leaf then (e, .error (.gangLeafMismatch key gb.leaf leaf)) else (e, .ok true)
  | none =>
    match e.tree with
    | none => (e, .error .noTree)
    | some t =>
      let bids := e.freshBids leaf now
      match blockingBid bids leaf wwkey with
      | some bid => ({ e with holBids := bids.insert leaf { bid with stamp := now } }, .ok false)
      | none =>
        match t.admitGang leaf key minRes with
        | (t', .error err) => ({ e with tree := some t', holBids := bids }, .error (.queue err))
        | (t', .ok true) =>
          ({ e with
            tree := some t'
            holBids := releaseBid bids leaf wwkey
            gangBook := e.gangBook.insert key ⟨leaf, minRes⟩ }, .ok true)
        | (t', .ok false) =>
          ({ e with tree := some t', holBids := claimBid bids leaf wwkey now }, .ok false)

def releaseGang (e : Engine V) (key : String) : Engine V :=
  if key ∈ e.gangBook then
    { e with
      tree := e.tree.map fun t => t.releaseGang key
      gangBook := e.gangBook.erase key }
  else e

def isGangAdmitted (e : Engine V) (key : String) : Bool := decide (key ∈ e.gangBook)

def gangLeaf (e : Engine V) (key : String) : Option String :=
  (e.gangBook.lookup key).map GangBooking.leaf

/-- Release the gangs whose group is gone; also the number released. -/
def gcGangs (e : Engine V) (live : Finset String) (order : List String) : Engine V × ℕ :=
  (entries order e.gangBook).foldl collect (e, 0)
where
  collect (acc : Engine V × ℕ) (entry : String × GangBooking V) : Engine V × ℕ :=
    if entry.1 ∈ live then acc
    else
      ({ acc.1 with
        tree := acc.1.tree.map fun t => t.releaseGang entry.1
        gangBook := acc.1.gangBook.erase entry.1 }, acc.2 + 1)

end Engine

/-- One booking replayed on a new tree; it is dropped when its queue is gone. Errors
of the tree are ignored. -/
def seedBooking (acc : QueueManager V × Map String (BookRec V)) (entry : String × BookRec V) :
    QueueManager V × Map String (BookRec V) :=
  if entry.2.leaf ∈ acc.1.index then
    match entry.2.state with
    | .committed => ((acc.1.allocate entry.2.leaf entry.2.req).1, acc.2)
    | .reserved => ((acc.1.reserve entry.2.leaf entry.2.req).1, acc.2)
  else (acc.1, acc.2.erase entry.1)

/-- One gang replayed on a new tree. The outcome of the admission is ignored. -/
def seedGang (acc : QueueManager V × Map String (GangBooking V))
    (entry : String × GangBooking V) : QueueManager V × Map String (GangBooking V) :=
  if entry.2.leaf ∈ acc.1.index then
    ((acc.1.admitGang entry.2.leaf entry.1 entry.2.minRes).1, acc.2)
  else (acc.1, acc.2.erase entry.1)

/-- Seed a new tree from the ledgers and make it the live one. -/
def Engine.rebuild (e : Engine V) (newTree : QueueManager V) (bookOrder gangOrder : List String) :
    Engine V :=
  let pods := (entries bookOrder e.book).foldl seedBooking (newTree, e.book)
  let gangs := (entries gangOrder e.gangBook).foldl seedGang (pods.1, e.gangBook)
  { e with tree := some gangs.1, book := pods.2, gangBook := gangs.2 }

lemma mem_book_observeBound (e : Engine V) (uid leaf : String) (req : Resource V) (u : String) :
    u ∈ (e.observeBound uid leaf req).book ↔
      u ∈ e.book ∨ u = uid ∧ ∃ t, e.tree = some t ∧ leaf ∈ t.index := by
  unfold Engine.observeBound
  cases ht : e.tree with
  | none => simp
  | some t =>
    cases hrec : e.book.lookup uid with
    | none =>
      dsimp only
      split_ifs with hleaf
      · simp [hleaf, or_comm]
      · simp [hleaf]
    | some rec =>
      have hin : u = uid → u ∈ e.book := by
        rintro rfl
        exact Finmap.mem_of_lookup_eq_some hrec
      dsimp only
      split_ifs
      · rw [Finmap.mem_insert]
        exact ⟨fun h => .inl (h.elim hin id), fun h => .inr (h.elim id fun h' => hin h'.1)⟩
      · exact ⟨.inl, fun h => h.elim id fun h' => hin h'.1⟩

lemma mem_book_observeDeleted (e : Engine V) (uid u : String) :
    u ∈ (e.observeDeleted uid).book ↔ u ≠ uid ∧ u ∈ e.book := by
  unfold Engine.observeDeleted
  cases hrec : e.book.lookup uid with
  | none =>
    refine ⟨fun h => ⟨?_, h⟩, And.right⟩
    rintro rfl
    exact Finmap.lookup_eq_none.mp hrec h
  | some rec => exact Finmap.mem_erase

lemma mem_book_gcBookings (e : Engine V) (live : Finset String) {order : List String}
    (ho : Visits order e.book) (uid : String) :
    uid ∈ (e.gcBookings live order).1.book ↔ uid ∈ e.book ∧ (e.tree ≠ none → uid ∈ live) := by
  unfold Engine.gcBookings
  cases e.tree with
  | none => simp
  | some t =>
    have hloop : uid ∈ ((entries order e.book).foldl (Engine.gcBookings.collect live) (e, 0)).1.book
        ↔ uid ∈ e.book ∧ uid ∈ live := by
      refine mem_loop_sift (fun acc : Engine V × ℕ => acc.1.book) (fun acc entry => ?_)
        (s := (e, 0)) ho uid
      unfold Engine.gcBookings.collect
      split_ifs <;> rfl
    rw [hloop]
    simp

lemma mem_gangBook_gcGangs (e : Engine V) (live : Finset String) {order : List String}
    (ho : Visits order e.gangBook) (key : String) :
    key ∈ (e.gcGangs live order).1.gangBook ↔ key ∈ e.gangBook ∧ key ∈ live := by
  refine mem_loop_sift (fun acc : Engine V × ℕ => acc.1.gangBook) (fun acc entry => ?_)
    (s := (e, 0)) ho key
  unfold Engine.gcGangs.collect
  split_ifs <;> rfl

lemma gcBookings_invariant {I : Engine V → Prop} {e : Engine V} (h : I e)
    (hrelease : ∀ e' uid rec, I e' → I { e' with
      tree := e'.tree.map fun t => releaseBookLocked t rec
      book := e'.book.erase uid }) (live : Finset String) (order : List String) :
    I (e.gcBookings live order).1 := by
  unfold Engine.gcBookings
  split
  · exact h
  · refine List.foldlRecOn (motive := fun acc : Engine V × ℕ => I acc.1) _ _ h ?_
    intro acc hacc entry _
    unfold Engine.gcBookings.collect
    split_ifs
    · exact hacc
    · exact hrelease acc.1 entry.1 entry.2 hacc

lemma gcGangs_invariant {I : Engine V → Prop} {e : Engine V} (h : I e)
    (hrelease : ∀ e' key, I e' → I { e' with
      tree := e'.tree.map fun t => t.releaseGang key
      gangBook := e'.gangBook.erase key }) (live : Finset String) (order : List String) :
    I (e.gcGangs live order).1 := by
  refine List.foldlRecOn (motive := fun acc : Engine V × ℕ => I acc.1) _ _ h ?_
  intro acc hacc entry _
  unfold Engine.gcGangs.collect
  split_ifs
  · exact hacc
  · exact hrelease acc.1 entry.1 hacc

lemma gcGangs_book (e : Engine V) (live : Finset String) (order : List String) :
    (e.gcGangs live order).1.book = e.book :=
  gcGangs_invariant (I := fun e' => e'.book = e.book) rfl (fun _ _ h => h) live order

lemma reserve_booked {e : Engine V} {t : QueueManager V} {uid leaf : String} (req : Resource V)
    (hnew : e.book.lookup uid = none) (ht : e.tree = some t) (hl : t.isLeafPath leaf = true) :
    e.reserve uid leaf req = { e with
      tree := some (t.walkUp leaf (Usage.reserve req))
      book := e.book.insert uid ⟨.reserved, leaf, req⟩ } := by
  rw [Engine.reserve, if_neg (Finmap.lookup_eq_none.mp hnew), ht]
  rcases mutate_cases t leaf (Usage.reserve req) with ⟨_, h⟩ | ⟨hl', _⟩
  · simp only [QueueManager.reserve, h]
  · rw [hl] at hl'
    cases hl'

lemma mem_book_reserve (e : Engine V) (uid leaf : String) (req : Resource V) (u : String) :
    u ∈ (e.reserve uid leaf req).book ↔
      u ∈ e.book ∨ u = uid ∧ ∃ t, e.tree = some t ∧ t.isLeafPath leaf = true := by
  by_cases hin : uid ∈ e.book
  · rw [Engine.reserve, if_pos hin]
    refine ⟨.inl, fun h => h.elim id ?_⟩
    rintro ⟨rfl, _⟩
    exact hin
  · rw [Engine.reserve, if_neg hin]
    cases ht : e.tree with
    | none => simp
    | some t =>
      rcases mutate_cases t leaf (Usage.reserve req) with ⟨hl, h⟩ | ⟨hl, err, h⟩
      · simp [QueueManager.reserve, h, hl, or_comm]
      · simp [QueueManager.reserve, h, hl]

lemma reserve_tree_eq_none (e : Engine V) (uid leaf : String) (req : Resource V) :
    (e.reserve uid leaf req).tree = none ↔ e.tree = none := by
  unfold Engine.reserve
  split_ifs
  · rfl
  · cases ht : e.tree with
    | none => simp [ht]
    | some t =>
      dsimp only
      split <;> simp

/-- What an admission call can do to the ledger and the tree: nothing, or admit the
gang in both, or record a gang that the tree already holds. -/
inductive AdmitStep (e e' : Engine V) (leaf key : String) (minRes : Resource V) : Prop
  | unchanged (tree : e'.tree = e.tree) (gangBook : e'.gangBook = e.gangBook)
  | booked (t : QueueManager V) (tree : e.tree = some t) (new : e.gangBook.lookup key = none)
      (admits : Admits t leaf key minRes) (tree' : e'.tree = some (admitted t leaf key minRes))
      (gangBook' : e'.gangBook = e.gangBook.insert key ⟨leaf, minRes⟩)
  | adopted (t : QueueManager V) (tree : e.tree = some t) (new : e.gangBook.lookup key = none)
      (held : key ∈ t.gangs) (tree' : e'.tree = some t)
      (gangBook' : e'.gangBook = e.gangBook.insert key ⟨leaf, minRes⟩)

lemma AdmitStep.index {e e' : Engine V} {leaf key : String} {minRes : Resource V}
    (h : AdmitStep e e' leaf key minRes) :
    e'.tree.map QueueManager.index = e.tree.map QueueManager.index := by
  cases h with
  | unchanged tree => rw [tree]
  | booked t tree _ _ tree' =>
    rw [tree, tree']
    rfl
  | adopted t tree _ _ tree' => rw [tree, tree']

lemma admitGang_step (e : Engine V) (leaf key : String) (minRes : Resource V) :
    AdmitStep e (e.admitGang leaf key minRes).1 leaf key minRes := by
  unfold Engine.admitGang
  cases hk : e.gangBook.lookup key with
  | some gb =>
    dsimp only
    split_ifs <;> exact .unchanged rfl rfl
  | none =>
    cases ht : e.tree with
    | none => exact .unchanged rfl rfl
    | some t =>
      dsimp only
      rcases admitGang_cases t leaf key minRes with ⟨ha, he⟩ | ⟨_, hsame, htrue⟩
      · simp only [he]
        exact .booked t ht hk ha rfl rfl
      · generalize t.admitGang leaf key minRes = result at hsame htrue ⊢
        obtain ⟨t', r⟩ := result
        obtain rfl : t' = t := hsame
        cases r with
        | error err => exact .unchanged ht.symm rfl
        | ok b =>
          cases b with
          | false => exact .unchanged ht.symm rfl
          | true => exact .adopted t' ht hk (htrue rfl) rfl rfl

lemma AdmitStep.tree_index {e e' : Engine V} {leaf key : String} {minRes : Resource V}
    (h : AdmitStep e e' leaf key minRes) {t : QueueManager V} (ht : e.tree = some t) :
    ∃ t', e'.tree = some t' ∧ t'.index = t.index := by
  rcases h with ⟨tree, _⟩ | ⟨t₁, tree, _, _, tree', _⟩ | ⟨t₁, tree, _, _, tree', _⟩
  · exact ⟨t, tree.trans ht, rfl⟩
  · cases ht.symm.trans tree
    exact ⟨_, tree', rfl⟩
  · cases ht.symm.trans tree
    exact ⟨_, tree', rfl⟩

lemma admitGang_books {e : Engine V} {t : QueueManager V} {leaf key : String} {minRes : Resource V}
    (hnew : e.gangBook.lookup key = none) (ht : e.tree = some t) (ha : Admits t leaf key minRes) :
    e.admitGang leaf key minRes = ({ e with
      tree := some (admitted t leaf key minRes)
      gangBook := e.gangBook.insert key ⟨leaf, minRes⟩ }, .ok true) := by
  rcases admitGang_cases t leaf key minRes with ⟨_, he⟩ | ⟨hna, _⟩
  · simp [Engine.admitGang, hnew, ht, he]
  · exact absurd ha hna

lemma admitGangWW_books {e : Engine V} {t : QueueManager V} {leaf key : String}
    {minRes : Resource V} {wwkey : WoundWaitKey} {now : ℤ} (hnew : e.gangBook.lookup key = none)
    (ht : e.tree = some t) (ha : Admits t leaf key minRes)
    (hfree : blockingBid (e.freshBids leaf now) leaf wwkey = none) :
    e.admitGangWW leaf key minRes wwkey now = ({ e with
      tree := some (admitted t leaf key minRes)
      holBids := releaseBid (e.freshBids leaf now) leaf wwkey
      gangBook := e.gangBook.insert key ⟨leaf, minRes⟩ }, .ok true) := by
  rcases admitGang_cases t leaf key minRes with ⟨_, he⟩ | ⟨hna, _⟩
  · simp [Engine.admitGangWW, hnew, ht, hfree, he]
  · exact absurd ha hna

/-- Everything a call with head-of-line reservation can do, branch by branch. -/
inductive WWOutcome (e : Engine V) (leaf key : String) (minRes : Resource V) (wwkey : WoundWaitKey)
    (now : ℤ) : Engine V × Except EngineErr Bool → Prop
  | known {gb : GangBooking V} (hit : e.gangBook.lookup key = some gb) :
      WWOutcome e leaf key minRes wwkey now
        (e, if gb.leaf ≠ leaf then .error (.gangLeafMismatch key gb.leaf leaf) else .ok true)
  | noTree (new : e.gangBook.lookup key = none) (tree : e.tree = none) :
      WWOutcome e leaf key minRes wwkey now (e, .error .noTree)
  | heldBack {t : QueueManager V} {bid : HolBid} (new : e.gangBook.lookup key = none)
      (tree : e.tree = some t)
      (blocked : blockingBid (e.freshBids leaf now) leaf wwkey = some bid) :
      WWOutcome e leaf key minRes wwkey now
        ({ e with holBids := (e.freshBids leaf now).insert leaf { bid with stamp := now } },
          .ok false)
  | failed {t : QueueManager V} (new : e.gangBook.lookup key = none) (tree : e.tree = some t)
      (free : blockingBid (e.freshBids leaf now) leaf wwkey = none) (err : QueueErr) :
      WWOutcome e leaf key minRes wwkey now
        ({ e with holBids := e.freshBids leaf now }, .error (.queue err))
  | waits {t : QueueManager V} (new : e.gangBook.lookup key = none) (tree : e.tree = some t)
      (free : blockingBid (e.freshBids leaf now) leaf wwkey = none) :
      WWOutcome e leaf key minRes wwkey now
        ({ e with holBids := claimBid (e.freshBids leaf now) leaf wwkey now }, .ok false)
  | booked {t : QueueManager V} (new : e.gangBook.lookup key = none) (tree : e.tree = some t)
      (free : blockingBid (e.freshBids leaf now) leaf wwkey = none)
      (admits : Admits t leaf key minRes) :
      WWOutcome e leaf key minRes wwkey now
        ({ e with
          tree := some (admitted t leaf key minRes)
          holBids := releaseBid (e.freshBids leaf now) leaf wwkey
          gangBook := e.gangBook.insert key ⟨leaf, minRes⟩ }, .ok true)
  | adopted {t : QueueManager V} (new : e.gangBook.lookup key = none) (tree : e.tree = some t)
      (free : blockingBid (e.freshBids leaf now) leaf wwkey = none) (held : key ∈ t.gangs) :
      WWOutcome e leaf key minRes wwkey now
        ({ e with
          holBids := releaseBid (e.freshBids leaf now) leaf wwkey
          gangBook := e.gangBook.insert key ⟨leaf, minRes⟩ }, .ok true)

lemma admitGangWW_outcome (e : Engine V) (leaf key : String) (minRes : Resource V)
    (wwkey : WoundWaitKey) (now : ℤ) :
    WWOutcome e leaf key minRes wwkey now (e.admitGangWW leaf key minRes wwkey now) := by
  unfold Engine.admitGangWW
  cases hk : e.gangBook.lookup key with
  | some gb =>
    dsimp only
    rw [← apply_ite (Prod.mk e)]
    exact .known hk
  | none =>
    cases ht : e.tree with
    | none => exact .noTree hk ht
    | some t =>
      dsimp only
      cases hb : blockingBid (e.freshBids leaf now) leaf wwkey with
      | some bid =>
        dsimp only
        rw [← ht]
        exact .heldBack hk ht hb
      | none =>
        dsimp only
        rcases admitGang_cases t leaf key minRes with ⟨ha, he⟩ | ⟨_, hsame, htrue⟩
        · simp only [he]
          exact .booked hk ht hb ha
        · generalize t.admitGang leaf key minRes = result at hsame htrue ⊢
          obtain ⟨t', r⟩ := result
          obtain rfl : t' = t := hsame
          obtain err | _ | _ := r
          all_goals
            dsimp only
            rw [← ht]
          · exact .failed hk ht hb err
          · exact .waits hk ht hb
          · exact .adopted hk ht hb (htrue rfl)

lemma admitGangWW_step (e : Engine V) (leaf key : String) (minRes : Resource V)
    (wwkey : WoundWaitKey) (now : ℤ) :
    AdmitStep e (e.admitGangWW leaf key minRes wwkey now).1 leaf key minRes := by
  have h := admitGangWW_outcome e leaf key minRes wwkey now
  generalize e.admitGangWW leaf key minRes wwkey now = r at h ⊢
  cases h with
  | known | noTree | heldBack | failed | waits => exact .unchanged rfl rfl
  | booked new tree _ admits => exact .booked _ tree new admits rfl rfl
  | adopted new tree _ held => exact .adopted _ tree new held tree rfl

lemma admitGangWW_admitted {e : Engine V} {leaf key : String} {minRes : Resource V}
    {wwkey : WoundWaitKey} {now : ℤ} (h : (e.admitGangWW leaf key minRes wwkey now).2 = .ok true) :
    key ∈ (e.admitGangWW leaf key minRes wwkey now).1.gangBook := by
  have ho := admitGangWW_outcome e leaf key minRes wwkey now
  generalize e.admitGangWW leaf key minRes wwkey now = r at ho h ⊢
  cases ho with
  | known hit => exact Finmap.mem_of_lookup_eq_some hit
  | noTree | heldBack | failed | waits => cases h
  | booked | adopted => exact Finmap.mem_insert.mpr (.inl rfl)

lemma mem_gangBook_admitGangWW (e : Engine V) (leaf key : String) (minRes : Resource V)
    (wwkey : WoundWaitKey) (now : ℤ) (k : String) :
    k ∈ (e.admitGangWW leaf key minRes wwkey now).1.gangBook ↔
      k ∈ e.gangBook ∨ k = key ∧ (e.admitGangWW leaf key minRes wwkey now).2 = .ok true := by
  have hadd := @admitGangWW_admitted V _ _ e leaf key minRes wwkey now
  have h := admitGangWW_outcome e leaf key minRes wwkey now
  generalize e.admitGangWW leaf key minRes wwkey now = r at h hadd ⊢
  have hnew : k = key → r.2 = .ok true → k ∈ r.1.gangBook := by
    rintro rfl hok
    exact hadd hok
  cases h with
  | known => exact ⟨.inl, fun h => h.elim id fun hk => hnew hk.1 hk.2⟩
  | noTree | heldBack | failed | waits => simp
  | booked | adopted => simp [or_comm]

lemma admitGangWW_tree_eq_none (e : Engine V) (leaf key : String) (minRes : Resource V)
    (wwkey : WoundWaitKey) (now : ℤ) :
    (e.admitGangWW leaf key minRes wwkey now).1.tree = none ↔ e.tree = none := by
  have h := admitGangWW_outcome e leaf key minRes wwkey now
  generalize e.admitGangWW leaf key minRes wwkey now = r at h ⊢
  cases h with
  | known | noTree | heldBack | failed | waits | adopted => rfl
  | booked _ tree => simp [tree]

@[simp] lemma admitGang_book (e : Engine V) (leaf key : String) (minRes : Resource V) :
    (e.admitGang leaf key minRes).1.book = e.book := by
  unfold Engine.admitGang
  repeat' split
  all_goals rfl

@[simp] lemma admitGangWW_book (e : Engine V) (leaf key : String) (minRes : Resource V)
    (wwkey : WoundWaitKey) (now : ℤ) :
    (e.admitGangWW leaf key minRes wwkey now).1.book = e.book := by
  have h := admitGangWW_outcome e leaf key minRes wwkey now
  generalize e.admitGangWW leaf key minRes wwkey now = r at h ⊢
  cases h <;> rfl

@[simp] lemma releaseGang_book (e : Engine V) (key : String) :
    (e.releaseGang key).book = e.book := by
  unfold Engine.releaseGang
  split_ifs <;> rfl

inductive Call (V : Type*) [CommRing V] [LinearOrder V]
  | reserve (uid leaf : String) (req : Resource V)
  | unreserve (uid : String)
  | commit (uid : String)
  | observeBound (uid leaf : String) (req : Resource V)
  | observeDeleted (uid : String)
  | gcBookings (live : Finset String) (order : List String)
  | admitGang (leaf key : String) (minRes : Resource V)
  | admitGangWW (leaf key : String) (minRes : Resource V) (wwkey : WoundWaitKey) (now : ℤ)
  | releaseGang (key : String)
  | gcGangs (live : Finset String) (order : List String)
  | rebuild (newTree : QueueManager V) (bookOrder gangOrder : List String)

def Engine.call (e : Engine V) : Call V → Engine V
  | .reserve uid leaf req => e.reserve uid leaf req
  | .unreserve uid => e.unreserve uid
  | .commit uid => e.commit uid
  | .observeBound uid leaf req => e.observeBound uid leaf req
  | .observeDeleted uid => e.observeDeleted uid
  | .gcBookings live order => (e.gcBookings live order).1
  | .admitGang leaf key minRes => (e.admitGang leaf key minRes).1
  | .admitGangWW leaf key minRes wwkey now => (e.admitGangWW leaf key minRes wwkey now).1
  | .releaseGang key => e.releaseGang key
  | .gcGangs live order => (e.gcGangs live order).1
  | .rebuild newTree bookOrder gangOrder => e.rebuild newTree bookOrder gangOrder

/-- Loops over a ledger visit each entry once, and a rebuild is given a tree that
`newManager` has just built. -/
def Callable (e : Engine V) : Call V → Prop
  | .gcBookings _ order => Visits order e.book
  | .gcGangs _ order => Visits order e.gangBook
  | .rebuild newTree bookOrder gangOrder =>
    (∃ spec, newManager spec = .ok newTree) ∧ Visits bookOrder e.book ∧ Visits gangOrder e.gangBook
  | _ => True

/-- The engine as a machine: any call may come next. -/
def machine : Machine (Engine V) (Call V) := ⟨Callable, Engine.call⟩

end AdScheduler.EngineCore
