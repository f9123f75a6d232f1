import AdScheduler.EngineCore

/-! Agreement of the booking ledger with the live tree: the usage of every queue is
the sum of the bookings charged to it and of the gangs the tree holds. -/
namespace AdScheduler.LedgerTree
open KeyedMap Resources QueueTree TreeShape Manager Conservation EngineCore Runs

variable {V : Type*} [CommRing V] [LinearOrder V]

/-- What a booking contributes to the vectors of a queue in one dimension. -/
def amount (rec : BookRec V) (d : String) : V × V × V :=
  match rec.state with
  | .committed => (get rec.req d, 0, 0)
  | .reserved => (0, get rec.req d, 0)

def charge (ix : Index V) (rec : BookRec V) (n d : String) : V × V × V :=
  if Charges ix rec.leaf n then amount rec d else 0

def booked (ix : Index V) (book : Map String (BookRec V)) (n d : String) : V × V × V :=
  total book fun _ rec => charge ix rec n d

def holdCharge (ix : Index V) (h : GangHold V) (n d : String) : V × V × V :=
  if Charges ix h.leaf n then (0, get h.held d, 0) else 0

def held (t : QueueManager V) (n d : String) : V × V × V :=
  total t.gangs fun _ h => holdCharge t.index h n d

/-- The tree carries the bookings of a ledger and the gangs it holds, nothing else. -/
structure Agrees (t : QueueManager V) (book : Map String (BookRec V)) : Prop where
  usage : ∀ n d, (t.usage n).read d = booked t.index book n d + held t n d
  gangs : GangsOnLeaves t

/-- What the bookings under a queue request together, in either state. -/
def podDemand (ix : Index V) (book : Map String (BookRec V)) (n d : String) : V :=
  total book fun _ rec => if Charges ix rec.leaf n then get rec.req d else 0

/-- What the gangs held under a queue reserve together. -/
def holdDemand (t : QueueManager V) (n d : String) : V :=
  total t.gangs fun _ h => if Charges t.index h.leaf n then get h.held d else 0

lemma Agrees.used {t : QueueManager V} {book : Map String (BookRec V)} (h : Agrees t book)
    (n d : String) : get (t.used n) d = podDemand t.index book n d + holdDemand t n d := by
  rw [get_used, h.usage, map_add, booked, held, map_total, map_total]
  refine congrArg₂ _ (total_congr _ fun uid rec _ => ?_) (total_congr _ fun g hold _ => ?_)
  · rw [charge, amount]
    split_ifs
    · cases rec.state
      · exact zero_add _
      · exact add_zero _
    · exact map_zero _
  · rw [holdCharge]
    split_ifs
    · exact zero_add _
    · exact map_zero _

lemma agrees_mutate {t : QueueManager V} {book book' : Map String (BookRec V)} {p : String}
    {fn : Usage V → Usage V} {δ : String → V × V × V} (h : Agrees t book) (hfn : Moves fn δ)
    (hbook : ∀ n d, booked t.index book' n d =
      booked t.index book n d + if Charges t.index p n then δ d else 0) :
    Agrees (t.mutate p fn).1 book' := by
  refine ⟨fun n d => ?_, gangsOnLeaves_congr (mutate_index t p fn) (mutate_gangs t p fn) h.gangs⟩
  rw [mutate_read hfn, h.usage, held, held, mutate_index, mutate_gangs, hbook]
  exact add_right_comm _ _ _

lemma agrees_book {t : QueueManager V} {book : Map String (BookRec V)} {uid : String}
    (h : Agrees t book) (hnew : book.lookup uid = none) (rec : BookRec V)
    {fn : Usage V → Usage V} (hfn : Moves fn (amount rec)) :
    Agrees (t.mutate rec.leaf fn).1 (book.insert uid rec) := by
  refine agrees_mutate h hfn fun n d => ?_
  rw [booked, total_insert hnew]
  exact add_comm _ _

lemma agrees_release {t : QueueManager V} {book : Map String (BookRec V)} {uid : String}
    {rec : BookRec V} (h : Agrees t book) (hrec : book.lookup uid = some rec) :
    Agrees (releaseBookLocked t rec) (book.erase uid) := by
  have hbook : ∀ n d, booked t.index (book.erase uid) n d =
      booked t.index book n d + if Charges t.index rec.leaf n then -amount rec d else 0 := by
    intro n d
    rw [booked, booked, ← total_erase hrec, charge]
    split_ifs <;> simp
  unfold releaseBookLocked
  cases hs : rec.state with
  | committed =>
    refine agrees_mutate h (moves_release rec.req) fun n d => ?_
    rw [hbook n d, amount, hs]
    simp
  | reserved =>
    refine agrees_mutate h (moves_unreserve rec.req) fun n d => ?_
    rw [hbook n d, amount, hs]
    simp

lemma agrees_commit {t : QueueManager V} {book : Map String (BookRec V)} {uid : String}
    {rec : BookRec V} (h : Agrees t book) (hrec : book.lookup uid = some rec)
    (hs : rec.state = .reserved) :
    Agrees (t.commit rec.leaf rec.req).1 (book.insert uid { rec with state := .committed }) := by
  refine agrees_mutate h (moves_commit rec.req) fun n d => ?_
  have hover := total_overwrite hrec { rec with state := BookState.committed }
    fun _ r => charge t.index r n d
  rw [booked, booked, eq_sub_of_add_eq' hover, charge, charge, amount, amount, hs]
  split_ifs
  · rw [add_comm, add_sub_assoc]
    simp
  · simp

lemma agrees_admitted {t : QueueManager V} {book : Map String (BookRec V)} {leaf key : String}
    {r : Resource V} (h : Agrees t book) (ha : Admits t leaf key r) :
    Agrees (admitted t leaf key r) book := by
  refine ⟨fun n d => ?_, gangsOnLeaves_admitted h.gangs ha⟩
  have hnew : t.gangs.lookup key = none := Finmap.lookup_eq_none.mpr ha.fresh
  have hheld : held (admitted t leaf key r) n d =
      holdCharge t.index ⟨leaf, r⟩ n d + held t n d := total_insert hnew _ _
  rw [hheld, admitted_read ha.leaf_ok, h.usage, holdCharge, add_assoc, add_comm (held t n d)]
  rfl

lemma agrees_releaseGang {t : QueueManager V} {book : Map String (BookRec V)} (h : Agrees t book)
    (key : String) : Agrees (t.releaseGang key) book := by
  cases hk : t.gangs.lookup key with
  | none =>
    have hsame : t.releaseGang key = t := by
      unfold QueueManager.releaseGang
      rw [hk]
    rw [hsame]
    exact h
  | some x =>
    refine ⟨fun n d => ?_, gangsOnLeaves_releaseGang h.gangs key⟩
    have hread := congrFun (releaseGang_read hk d) n
    have hiff : n ∈ (hierarchy t.wf).up x.leaf ↔ Charges t.index x.leaf n :=
      ⟨fun hn => ⟨h.gangs key x hk, hn⟩, fun hc => hc.2⟩
    have hheld : holdCharge t.index x n d + held (t.releaseGang key) n d = held t n d := by
      rw [held, held, releaseGang_gangs, releaseGang_index]
      exact total_erase hk fun _ h => holdCharge t.index h n d
    rw [RollUp.post, h.usage, ← hheld, holdCharge] at hread
    rw [hread, releaseGang_index]
    simp only [hiff]
    split_ifs
    · rw [add_assoc, add_right_comm, ← add_assoc]
      simp
    · simp

def Balanced (e : Engine V) : Prop := ∀ t, e.tree = some t → Agrees t e.book

lemma agrees_fresh {t : QueueManager V} (h : Fresh t) : Agrees t ∅ := by
  refine ⟨fun n d => ?_, fun g x hx => ?_⟩
  · rw [h.usage, booked, held, h.gangs, total_empty, total_empty, add_zero]
    rfl
  · rw [h.gangs] at hx
    cases hx

lemma balanced_engineOn {t : QueueManager V} (h : Fresh t) (timeout : ℤ) :
    Balanced (engineOn timeout t) := by
  rintro t' ⟨⟩
  exact agrees_fresh h

lemma balanced_reserve {e : Engine V} (h : Balanced e) (uid leaf : String) (req : Resource V) :
    Balanced (e.reserve uid leaf req) := by
  unfold Engine.reserve
  split_ifs with hmem
  · exact h
  cases ht : e.tree with
  | none => exact h
  | some t =>
    have hnew : e.book.lookup uid = none := Finmap.lookup_eq_none.mpr hmem
    dsimp only
    rcases mutate_cases t leaf (Usage.reserve req) with ⟨_, he⟩ | ⟨_, err, he⟩
    · have hag := agrees_book (h t ht) hnew ⟨.reserved, leaf, req⟩ (moves_reserve req)
      rw [he] at hag
      rw [QueueManager.reserve, he]
      rintro t' ⟨⟩
      exact hag
    · rw [QueueManager.reserve, he]
      rintro t' ⟨⟩
      exact h t ht

lemma balanced_unreserve {e : Engine V} (h : Balanced e) (uid : String) :
    Balanced (e.unreserve uid) := by
  unfold Engine.unreserve
  cases hrec : e.book.lookup uid with
  | none => exact h
  | some rec =>
    dsimp only
    split_ifs with hs
    · exact h
    · intro t' ht'
      obtain ⟨t, ht, rfl⟩ := Option.map_eq_some_iff.mp ht'
      have hag := agrees_release (h t ht) hrec
      rw [releaseBookLocked, not_not.mp hs] at hag
      exact hag

lemma balanced_commit {e : Engine V} (h : Balanced e) (uid : String) : Balanced (e.commit uid) := by
  unfold Engine.commit
  cases hrec : e.book.lookup uid with
  | none => exact h
  | some rec =>
    dsimp only
    split_ifs with hs
    · exact h
    · intro t' ht'
      obtain ⟨t, ht, rfl⟩ := Option.map_eq_some_iff.mp ht'
      exact agrees_commit (h t ht) hrec (not_not.mp hs)

lemma balanced_observeBound {e : Engine V} (h : Balanced e) (uid leaf : String)
    (req : Resource V) : Balanced (e.observeBound uid leaf req) := by
  unfold Engine.observeBound
  cases ht : e.tree with
  | none => exact h
  | some t =>
    cases hrec : e.book.lookup uid with
    | none =>
      dsimp only
      split_ifs
      · rintro t' ⟨⟩
        exact agrees_book (h t ht) hrec ⟨.committed, leaf, req⟩ (moves_allocate req)
      · exact h
    | some rec =>
      dsimp only
      split_ifs with hs
      · rintro t' ⟨⟩
        exact agrees_commit (h t ht) hrec hs
      · exact h

lemma balanced_observeDeleted {e : Engine V} (h : Balanced e) (uid : String) :
    Balanced (e.observeDeleted uid) := by
  unfold Engine.observeDeleted
  cases hrec : e.book.lookup uid with
  | none => exact h
  | some rec =>
    intro t' ht'
    obtain ⟨t, ht, rfl⟩ := Option.map_eq_some_iff.mp ht'
    exact agrees_release (h t ht) hrec

lemma balanced_gcBookings {e : Engine V} (h : Balanced e) (live : Finset String)
    {order : List String} (ho : order.Nodup) : Balanced (e.gcBookings live order).1 := by
  unfold Engine.gcBookings
  cases e.tree with
  | none => exact h
  | some _ =>
    refine loop_invariant (fun acc : Engine V × ℕ => acc.1.book) (I := fun acc => Balanced acc.1)
      ?_ ?_ ho h
    · intro acc uid rec hacc hrec
      unfold Engine.gcBookings.collect
      split_ifs
      · exact hacc
      · have hdel := balanced_observeDeleted hacc uid
        rw [Engine.observeDeleted, hrec] at hdel
        exact hdel
    · intro acc uid rec j hj
      unfold Engine.gcBookings.collect
      split_ifs
      · rfl
      · exact Finmap.lookup_erase_ne hj

lemma balanced_admitStep {e e' : Engine V} {leaf key : String} {minRes : Resource V}
    (h : Balanced e) (hbook : e'.book = e.book) (hstep : AdmitStep e e' leaf key minRes) :
    Balanced e' := by
  intro t' ht'
  rw [hbook]
  rcases hstep with ⟨tree, _⟩ | ⟨t, tree, _, admits, tree', _⟩ | ⟨t, tree, _, _, tree', _⟩
  · exact h t' (tree ▸ ht')
  · rw [tree'] at ht'
    cases ht'
    exact agrees_admitted (h t tree) admits
  · rw [tree'] at ht'
    cases ht'
    exact h _ tree

lemma balanced_releaseGang {e : Engine V} (h : Balanced e) (key : String) :
    Balanced (e.releaseGang key) := by
  unfold Engine.releaseGang
  split_ifs
  · intro t' ht'
    obtain ⟨t, ht, rfl⟩ := Option.map_eq_some_iff.mp ht'
    exact agrees_releaseGang (h t ht) key
  · exact h

lemma balanced_gcGangs {e : Engine V} (h : Balanced e) (live : Finset String)
    (order : List String) : Balanced (e.gcGangs live order).1 := by
  refine gcGangs_invariant h (fun e' key he t' ht' => ?_) live order
  obtain ⟨t, ht, rfl⟩ := Option.map_eq_some_iff.mp ht'
  exact agrees_releaseGang (he t ht) key

omit [CommRing V] [LinearOrder V] in
lemma not_charges_of_unknown {ix : Index V} {p : String} (h : p ∉ ix) (n : String) :
    ¬ Charges ix p n := by
  rintro ⟨hl, _⟩
  rw [Finmap.lookup_eq_none.mpr h] at hl
  cases hl

lemma seedBooking_tree (acc : QueueManager V × Map String (BookRec V))
    (entry : String × BookRec V) :
    (seedBooking acc entry).1.index = acc.1.index ∧
    (seedBooking acc entry).1.gangs = acc.1.gangs ∧
    ∀ n d, ((seedBooking acc entry).1.usage n).read d =
      (acc.1.usage n).read d + charge acc.1.index entry.2 n d := by
  unfold seedBooking
  split_ifs with hin
  · cases hs : entry.2.state with
    | committed =>
      refine ⟨mutate_index _ _ _, mutate_gangs _ _ _, fun n d => ?_⟩
      refine (mutate_read (moves_allocate entry.2.req) acc.1 entry.2.leaf n d).trans ?_
      rw [charge, amount, hs]
    | reserved =>
      refine ⟨mutate_index _ _ _, mutate_gangs _ _ _, fun n d => ?_⟩
      refine (mutate_read (moves_reserve entry.2.req) acc.1 entry.2.leaf n d).trans ?_
      rw [charge, amount, hs]
  · refine ⟨rfl, rfl, fun n d => ?_⟩
    rw [charge, if_neg (not_charges_of_unknown hin n), add_zero]

lemma seedBooking_book (acc : QueueManager V × Map String (BookRec V))
    (entry : String × BookRec V) :
    (seedBooking acc entry).2 =
      if entry.2.leaf ∈ acc.1.index then acc.2 else acc.2.erase entry.1 := by
  unfold seedBooking
  split_ifs
  · cases entry.2.state <;> rfl
  · rfl

lemma seedBookings_spec (l : List (String × BookRec V))
    (acc : QueueManager V × Map String (BookRec V)) :
    (l.foldl seedBooking acc).1.index = acc.1.index ∧
    (l.foldl seedBooking acc).1.gangs = acc.1.gangs ∧
    (∀ n d, ((l.foldl seedBooking acc).1.usage n).read d =
      (acc.1.usage n).read d + (l.map fun kv => charge acc.1.index kv.2 n d).sum) ∧
    (l.foldl seedBooking acc).2 =
      sift (fun _ rec => decide (rec.leaf ∈ acc.1.index)) l acc.2 := by
  induction l generalizing acc with
  | nil => exact ⟨rfl, rfl, fun n d => by simp, rfl⟩
  | cons entry l ih =>
    obtain ⟨hix, hgs, hread⟩ := seedBooking_tree acc entry
    obtain ⟨hix', hgs', hread', hbook⟩ := ih (seedBooking acc entry)
    rw [hix] at hix' hbook
    rw [hgs] at hgs'
    simp only [hix] at hread'
    refine ⟨hix', hgs', fun n d => ?_, ?_⟩
    · rw [List.foldl_cons, hread', hread, List.map_cons, List.sum_cons, add_assoc]
    · rw [List.foldl_cons, hbook, seedBooking_book]
      simp only [sift, List.foldl_cons, decide_eq_true_eq]

lemma agrees_seedBookings {newTree : QueueManager V} (hfresh : Fresh newTree)
    {book : Map String (BookRec V)} {order : List String} (ho : Visits order book) :
    Agrees ((entries order book).foldl seedBooking (newTree, book)).1
      ((entries order book).foldl seedBooking (newTree, book)).2 := by
  obtain ⟨hix, hgs, hread, hbook⟩ := seedBookings_spec (entries order book) (newTree, book)
  refine ⟨fun n d => ?_, fun g x hx => ?_⟩
  · have hzero : (newTree.usage n).read d = 0 := by rw [hfresh.usage]; rfl
    have hheld : held ((entries order book).foldl seedBooking (newTree, book)).1 n d = 0 := by
      rw [held, hgs, hfresh.gangs, total_empty]
    have hkept :
        booked newTree.index ((entries order book).foldl seedBooking (newTree, book)).2 n d =
        booked newTree.index book n d := by
      rw [hbook]
      refine total_filter (lookup_sift ho _) fun uid rec _ hk => ?_
      exact if_neg (not_charges_of_unknown (by simpa using hk) n)
    rw [hread, hheld, hix, hkept, hzero, zero_add, add_zero]
    exact sum_entries ho fun _ rec => charge newTree.index rec n d
  · rw [hgs, hfresh.gangs] at hx
    cases hx

lemma podDemand_seedBookings (newTree : QueueManager V) {book : Map String (BookRec V)}
    {order : List String} (ho : Visits order book) (n d : String) :
    podDemand newTree.index ((entries order book).foldl seedBooking (newTree, book)).2 n d =
      podDemand newTree.index book n d := by
  rw [(seedBookings_spec (entries order book) (newTree, book)).2.2.2]
  refine total_filter (lookup_sift ho _) fun uid rec _ hk => ?_
  exact if_neg (not_charges_of_unknown (by simpa using hk) n)

lemma agrees_seedGangs {book : Map String (BookRec V)} (l : List (String × GangBooking V))
    {acc : QueueManager V × Map String (GangBooking V)} (h : Agrees acc.1 book) :
    Agrees (l.foldl seedGang acc).1 book := by
  refine List.foldlRecOn (motive := fun acc : QueueManager V × _ => Agrees acc.1 book) _ _ h ?_
  intro acc hacc entry _
  unfold seedGang
  split_ifs
  · rcases admitGang_cases acc.1 entry.2.leaf entry.1 entry.2.minRes with ⟨ha, he⟩ | ⟨_, he, _⟩
    · rw [he]
      exact agrees_admitted hacc ha
    · rw [he]
      exact hacc
  · exact hacc

lemma seedGangs_index (l : List (String × GangBooking V))
    (acc : QueueManager V × Map String (GangBooking V)) :
    (l.foldl seedGang acc).1.index = acc.1.index := by
  refine List.foldlRecOn (motive := fun x : QueueManager V × _ => x.1.index = acc.1.index)
    _ _ rfl ?_
  intro x hx entry _
  unfold seedGang
  split_ifs
  · exact (admitGang_index _ _ _ _).trans hx
  · exact hx

lemma rebuild_index (e : Engine V) (newTree : QueueManager V) (bookOrder gangOrder : List String) :
    ∃ t, (e.rebuild newTree bookOrder gangOrder).tree = some t ∧ t.index = newTree.index :=
  ⟨_, rfl, (seedGangs_index _ _).trans (seedBookings_spec _ (newTree, e.book)).1⟩

lemma rebuild_book (e : Engine V) (newTree : QueueManager V) {bookOrder : List String}
    (gangOrder : List String) (ho : Visits bookOrder e.book) (uid : String) :
    (e.rebuild newTree bookOrder gangOrder).book.lookup uid =
      (e.book.lookup uid).filter fun rec => decide (rec.leaf ∈ newTree.index) := by
  change ((entries bookOrder e.book).foldl seedBooking (newTree, e.book)).2.lookup uid = _
  rw [(seedBookings_spec (entries bookOrder e.book) (newTree, e.book)).2.2.2]
  exact lookup_sift ho _ uid

lemma balanced_rebuild (e : Engine V) {newTree : QueueManager V} (hfresh : Fresh newTree)
    {bookOrder : List String} (gangOrder : List String) (ho : Visits bookOrder e.book) :
    Balanced (e.rebuild newTree bookOrder gangOrder) := by
  rintro t ⟨⟩
  exact agrees_seedGangs _ (agrees_seedBookings hfresh ho)

lemma balanced_call {e : Engine V} (h : Balanced e) (c : Call V) (hc : Callable e c) :
    Balanced (e.call c) := by
  cases c with
  | reserve uid leaf req => exact balanced_reserve h uid leaf req
  | unreserve uid => exact balanced_unreserve h uid
  | commit uid => exact balanced_commit h uid
  | observeBound uid leaf req => exact balanced_observeBound h uid leaf req
  | observeDeleted uid => exact balanced_observeDeleted h uid
  | gcBookings live order => exact balanced_gcBookings h live hc.1
  | admitGang leaf key minRes =>
    exact balanced_admitStep h (admitGang_book e _ _ _) (admitGang_step e _ _ _)
  | admitGangWW leaf key minRes wwkey now =>
    exact balanced_admitStep h (admitGangWW_book e _ _ _ _ _) (admitGangWW_step e _ _ _ _ _)
  | releaseGang key => exact balanced_releaseGang h key
  | gcGangs live order => exact balanced_gcGangs h live order
  | rebuild newTree bookOrder gangOrder =>
    obtain ⟨⟨spec, hspec⟩, hbo, _⟩ := hc
    exact balanced_rebuild e (newManager_fresh hspec) gangOrder hbo

lemma balanced_run {timeout : ℤ} {calls : List (Call V)} {e : Engine V}
    (h : Run machine (newEngine timeout) calls e) : Balanced e :=
  h.invariant (fun t ht => by cases ht) fun _ c hi hc => balanced_call hi c hc

lemma Agrees.leaf_allocated {t : QueueManager V} {book : Map String (BookRec V)}
    (h : Agrees t book) {p : String} (hp : t.isLeafPath p = true) (d : String) :
    get (t.usage p).allocated d = total book fun _ rec =>
      if rec.state = .committed ∧ rec.leaf = p then get rec.req d else 0 := by
  have hfst := congrArg (AddMonoidHom.fst V (V × V)) (h.usage p d)
  simp only [booked, held, charge, holdCharge, charges_leaf_iff t hp] at hfst
  rw [map_add, map_total, map_total, total_eq_zero t.gangs, add_zero] at hfst
  · refine hfst.trans (total_congr _ fun uid rec _ => ?_)
    cases hs : rec.state <;> by_cases hl : rec.leaf = p <;> simp [amount, hs, hl]
  · intro g hold _
    split_ifs <;> rfl

lemma Agrees.leaf_allocating {t : QueueManager V} {book : Map String (BookRec V)}
    (h : Agrees t book) {p : String} (hp : t.isLeafPath p = true) (d : String) :
    get (t.usage p).allocating d = total book (fun _ rec =>
      if rec.state = .reserved ∧ rec.leaf = p then get rec.req d else 0) +
      total t.gangs fun _ hold => if hold.leaf = p then get hold.held d else 0 := by
  have hsnd := congrArg ((AddMonoidHom.fst V V).comp (AddMonoidHom.snd V (V × V))) (h.usage p d)
  simp only [booked, held, charge, holdCharge, charges_leaf_iff t hp] at hsnd
  rw [map_add, map_total, map_total] at hsnd
  refine hsnd.trans (congrArg₂ _ (total_congr _ fun uid rec _ => ?_)
    (total_congr _ fun g hold _ => ?_))
  · cases hs : rec.state <;> by_cases hl : rec.leaf = p <;> simp [amount, hs, hl]
  · split_ifs <;> rfl

/-- Ledger and tree agree in every reachable state: the allocated vector of a leaf is
the sum of its committed bookings, and the allocating vector the sum of its reserved
bookings and of the gangs held there. -/
theorem leaf_usage_eq_bookings {timeout : ℤ} {calls : List (Call V)} {e : Engine V}
    (h : Run machine (newEngine timeout) calls e) {t : QueueManager V} (ht : e.tree = some t)
    {p : String} {q : Queue V} (hq : t.index.lookup p = some q) (hleaf : q.isLeaf = true)
    (d : String) :
    get (t.usage p).allocated d = total e.book (fun _ rec =>
      if rec.state = .committed ∧ rec.leaf = p then get rec.req d else 0) ∧
    get (t.usage p).allocating d = total e.book (fun _ rec =>
      if rec.state = .reserved ∧ rec.leaf = p then get rec.req d else 0) +
      total t.gangs fun _ hold => if hold.leaf = p then get hold.held d else 0 := by
  have hp := (isLeafPath_iff t p).mpr ⟨q, hq, hleaf⟩
  have hag := balanced_run h t ht
  exact ⟨hag.leaf_allocated hp d, hag.leaf_allocating hp d⟩

theorem small_run_usage_eq_bookings :
    let calls : List (Call ℤ) :=
      [.rebuild (treeOf (twoLeaves 10 4) (by decide)) [] [],
        .reserve "uid" "root.a" (Finmap.singleton "cpu" 3), .commit "uid",
        .admitGang "root.a" "ns/g" (Finmap.singleton "cpu" 1),
        .rebuild (treeOf (twoLeaves 9 4) (by decide)) ["uid"] ["ns/g"]]
    let e := calls.foldl Engine.call (newEngine 60)
    ∃ t, e.tree = some t ∧ t.isLeafPath "root.a" = true ∧
      get (t.usage "root.a").allocated "cpu" = 3 ∧ get (t.usage "root.a").allocating "cpu" = 1 ∧
      get (t.usage "root.a").allocated "cpu" = total e.book fun _ rec =>
        if rec.state = .committed ∧ rec.leaf = "root.a" then get rec.req "cpu" else 0 := by
  intro calls e
  have hrun : Run machine (newEngine 60) calls e := by
    apply Machine.Legal.run
    exact ⟨⟨⟨_, newManager_treeOf _ _⟩, visits_empty, visits_empty⟩, trivial, trivial, trivial,
      ⟨⟨_, newManager_treeOf _ _⟩, by decide +kernel, by decide +kernel⟩, trivial⟩
  have hfacts : (e.tree.elim false fun t => t.isLeafPath "root.a" &&
      decide (get (t.usage "root.a").allocated "cpu" = 3 ∧
        get (t.usage "root.a").allocating "cpu" = 1)) = true := by decide +kernel
  cases ht : e.tree with
  | none => simp [ht] at hfacts
  | some t =>
    simp only [ht, Option.elim_some, Bool.and_eq_true, decide_eq_true_eq] at hfacts
    obtain ⟨q, hq, hleaf⟩ := (isLeafPath_iff t _).mp hfacts.1
    exact ⟨t, rfl, hfacts.1, hfacts.2.1, hfacts.2.2,
      (leaf_usage_eq_bookings hrun ht hq hleaf "cpu").1⟩

end AdScheduler.LedgerTree
