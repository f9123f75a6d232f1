import AdScheduler.GangAgreement

/-! Head-of-line reservation over time. A leaf remembers one bid; the bid is written
by its own gang and refreshed by every gang it holds back, it expires when a call
finds it too old, and it goes when its gang is admitted. -/
namespace AdScheduler.HeadOfLine
open KeyedMap Resources QueueTree TreeShape Manager Conservation EngineCore GangAgreement
open WoundWait Runs

section Bids
variable {V : Type*} [CommRing V] [LinearOrder V]

lemma freshBids_other (e : Engine V) {leaf L : String} (h : L ≠ leaf) (now : ℤ) :
    (e.freshBids leaf now).lookup L = e.holBids.lookup L := by
  unfold Engine.freshBids
  repeat' split
  · rfl
  · exact Finmap.lookup_erase_ne h
  · rfl

lemma freshBids_leaf (e : Engine V) (leaf : String) (now : ℤ) (bid : HolBid) :
    (e.freshBids leaf now).lookup leaf = some bid ↔
      e.holBids.lookup leaf = some bid ∧ now - bid.stamp ≤ e.gangScheduleTimeout := by
  unfold Engine.freshBids
  cases hb : e.holBids.lookup leaf with
  | none => simp [hb]
  | some b =>
    dsimp only
    split_ifs with hstale
    · rw [Finmap.lookup_erase]
      refine ⟨fun h => (by cases h), fun ⟨h, hle⟩ => ?_⟩
      cases h
      omega
    · rw [hb]
      refine ⟨fun h => ⟨h, ?_⟩, fun h => h.1⟩
      cases h
      omega

lemma blockingBid_eq_some {bids : Map String HolBid} {leaf : String} {wwkey : WoundWaitKey}
    {bid : HolBid} : blockingBid bids leaf wwkey = some bid ↔
      bids.lookup leaf = some bid ∧ woundWaitLess bid.key wwkey = true := by
  rw [blockingBid, Option.filter_eq_some_iff, Bool.and_eq_true, decide_eq_true_eq]
  refine and_congr_right fun _ => ⟨fun h => h.2, fun h => ⟨fun he => ?_, h⟩⟩
  rw [he, woundWaitLess_irrefl] at h
  cases h

lemma releaseBid_sub {bids : Map String HolBid} {leaf L : String} {wwkey : WoundWaitKey}
    {bid : HolBid} (h : (releaseBid bids leaf wwkey).lookup L = some bid) :
    bids.lookup L = some bid := by
  unfold releaseBid at h
  repeat' split at h
  · exact h
  · exact lookup_of_erase h
  · exact h

lemma claimBid_cases {bids : Map String HolBid} {leaf L : String} {wwkey : WoundWaitKey} {now : ℤ}
    {bid : HolBid} (h : (claimBid bids leaf wwkey now).lookup L = some bid) :
    bids.lookup L = some bid ∨ L = leaf ∧ bid = ⟨wwkey, now⟩ := by
  have hins : (bids.insert leaf ⟨wwkey, now⟩).lookup L = some bid →
      bids.lookup L = some bid ∨ L = leaf ∧ bid = ⟨wwkey, now⟩ := by
    intro hi
    rcases lookup_insert_cases hi with hnew | ⟨-, hi⟩
    · exact .inr hnew
    · exact .inl hi
  unfold claimBid at h
  repeat' split at h
  · exact hins h
  · exact hins h
  · exact .inl h

lemma rank_of_free {bids : Map String HolBid} {leaf : String} {wwkey : WoundWaitKey} {b : HolBid}
    (h : blockingBid bids leaf wwkey = none) (hb : bids.lookup leaf = some b) :
    b.key = wwkey ∨ woundWaitLess wwkey b.key = true := by
  by_cases he : b.key = wwkey
  · exact .inl he
  · refine .inr ((woundWaitLess_total he).resolve_left fun hless => ?_)
    rw [blockingBid_eq_some.mpr ⟨hb, hless⟩] at h
    cases h

lemma claimBid_of_free {bids : Map String HolBid} {leaf : String} {wwkey : WoundWaitKey}
    (h : blockingBid bids leaf wwkey = none) (now : ℤ) :
    (claimBid bids leaf wwkey now).lookup leaf = some ⟨wwkey, now⟩ := by
  unfold claimBid
  cases hb : bids.lookup leaf with
  | none => exact Finmap.lookup_insert _
  | some b =>
    dsimp only
    rw [if_pos (rank_of_free h hb)]
    exact Finmap.lookup_insert _

lemma freshBids_sub {e : Engine V} {leaf L : String} {now : ℤ} {bid : HolBid}
    (h : (e.freshBids leaf now).lookup L = some bid) : e.holBids.lookup L = some bid := by
  by_cases hL : L = leaf
  · subst hL
    exact ((freshBids_leaf e L now bid).mp h).1
  · simpa [freshBids_other e hL] using h

/-- Where the bid of a leaf comes from: it stood before, it was refreshed by a gang it
holds back, or the caller has just made it. -/
lemma admitGangWW_bid {e : Engine V} {leaf key L : String} {minRes : Resource V}
    {wwkey : WoundWaitKey} {now : ℤ} {bid : HolBid}
    (h : (e.admitGangWW leaf key minRes wwkey now).1.holBids.lookup L = some bid) :
    e.holBids.lookup L = some bid ∨
    (L = leaf ∧ ∃ stamp, e.holBids.lookup leaf = some ⟨bid.key, stamp⟩ ∧
      now - stamp ≤ e.gangScheduleTimeout ∧ woundWaitLess bid.key wwkey = true ∧ bid.stamp = now) ∨
    (L = leaf ∧ bid = ⟨wwkey, now⟩) := by
  have ho := admitGangWW_outcome e leaf key minRes wwkey now
  generalize e.admitGangWW leaf key minRes wwkey now = r at h ho
  cases ho with
  | known | noTree => exact .inl h
  | heldBack _ _ blocked =>
    obtain ⟨hold, hless⟩ := blockingBid_eq_some.mp blocked
    rw [lookup_insert_ite] at h
    split_ifs at h with hL
    · cases h
      obtain ⟨hbid, hage⟩ := (freshBids_leaf e leaf now _).mp hold
      exact .inr (.inl ⟨hL, _, hbid, hage, hless, rfl⟩)
    · exact .inl (freshBids_sub h)
  | failed => exact .inl (freshBids_sub h)
  | waits =>
    rcases claimBid_cases h with hf | hc
    · exact .inl (freshBids_sub hf)
    · exact .inr (.inr hc)
  | booked | adopted => exact .inl (freshBids_sub (releaseBid_sub h))

lemma call_frame (e : Engine V) {c : Call V}
    (h : ∀ leaf key minRes wwkey now, c ≠ .admitGangWW leaf key minRes wwkey now) :
    (e.call c).holBids = e.holBids ∧
      (e.call c).gangScheduleTimeout = e.gangScheduleTimeout := by
  cases c with
  | reserve uid leaf req =>
    simp only [Engine.call, Engine.reserve]
    repeat' split
    all_goals exact ⟨rfl, rfl⟩
  | unreserve uid =>
    simp only [Engine.call, Engine.unreserve]
    repeat' split
    all_goals exact ⟨rfl, rfl⟩
  | commit uid =>
    simp only [Engine.call, Engine.commit]
    repeat' split
    all_goals exact ⟨rfl, rfl⟩
  | observeBound uid leaf req =>
    simp only [Engine.call, Engine.observeBound]
    repeat' split
    all_goals exact ⟨rfl, rfl⟩
  | observeDeleted uid =>
    simp only [Engine.call, Engine.observeDeleted]
    split <;> exact ⟨rfl, rfl⟩
  | gcBookings live order =>
    exact gcBookings_invariant (I := fun e' => e'.holBids = e.holBids ∧
      e'.gangScheduleTimeout = e.gangScheduleTimeout) ⟨rfl, rfl⟩ (fun _ _ _ he => he) live order
  | admitGang leaf key minRes =>
    simp only [Engine.call, Engine.admitGang]
    repeat' split
    all_goals exact ⟨rfl, rfl⟩
  | admitGangWW leaf key minRes wwkey now => exact absurd rfl (h leaf key minRes wwkey now)
  | releaseGang key =>
    simp only [Engine.call, Engine.releaseGang]
    split_ifs <;> exact ⟨rfl, rfl⟩
  | gcGangs live order =>
    exact gcGangs_invariant (I := fun e' => e'.holBids = e.holBids ∧
      e'.gangScheduleTimeout = e.gangScheduleTimeout) ⟨rfl, rfl⟩ (fun _ _ he => he) live order
  | rebuild newTree bookOrder gangOrder => exact ⟨rfl, rfl⟩

lemma admitGangWW_timeout (e : Engine V) (leaf key : String) (minRes : Resource V)
    (wwkey : WoundWaitKey) (now : ℤ) :
    (e.admitGangWW leaf key minRes wwkey now).1.gangScheduleTimeout = e.gangScheduleTimeout := by
  have h := admitGangWW_outcome e leaf key minRes wwkey now
  generalize e.admitGangWW leaf key minRes wwkey now = r at h ⊢
  cases h <;> rfl

end Bids

section Timeline
variable {V : Type*} [CommRing V] [LinearOrder V]

/-- An engine with the time of its last timed call and the calls so far. -/
structure Timeline (V : Type*) [CommRing V] [LinearOrder V] where
  engine : Engine V
  clock : ℤ
  calls : List (Call V)

def timeOf (clock : ℤ) : Call V → ℤ
  | .admitGangWW _ _ _ _ now => now
  | _ => clock

/-- Any calls, under a clock that never goes back. -/
def timeline : Machine (Timeline V) (Call V) where
  enabled s c := Callable s.engine c ∧ s.clock ≤ timeOf s.clock c
  next s c := ⟨s.engine.call c, timeOf s.clock c, s.calls ++ [c]⟩

def begin (timeout clock : ℤ) : Timeline V := ⟨newEngine timeout, clock, []⟩

/-- The key and time that a call presents on a leaf. -/
def presents (L : String) : Call V → Option (WoundWaitKey × ℤ)
  | .admitGangWW leaf _ _ wwkey now => if leaf = L then some (wwkey, now) else none
  | _ => none

def presentations (L : String) (calls : List (Call V)) : List (WoundWaitKey × ℤ) :=
  calls.filterMap (presents L)

lemma mem_presentations_snoc {L : String} {calls : List (Call V)} {c : Call V}
    {x : WoundWaitKey × ℤ} :
    x ∈ presentations L (calls ++ [c]) ↔ x ∈ presentations L calls ∨ presents L c = some x := by
  rw [presentations, List.filterMap_append, List.mem_append]
  refine or_congr Iff.rfl ?_
  rw [List.mem_filterMap]
  simp

/-- A call is refused by the head-of-line rule because of a bid with key `k`. -/
def HeldBack (e : Engine V) (leaf key : String) (wwkey : WoundWaitKey) (now : ℤ)
    (k : WoundWaitKey) : Prop :=
  e.gangBook.lookup key = none ∧ e.tree.isSome = true ∧
    ∃ bid, blockingBid (e.freshBids leaf now) leaf wwkey = some bid ∧ bid.key = k

/-- The calls ranked after a key do not relay its bid: whenever such a call comes more
than the timeout after the key was last presented, they have paused for longer than the
timeout in between. -/
def NoRelay (s : Timeline V) (c : Call V) : Prop :=
  ∀ L w t, presents L c = some (w, t) →
    ∀ k t₀, (k, t₀) ∈ presentations L s.calls → woundWaitLess k w = true →
      (∃ t₁, (k, t₁) ∈ presentations L s.calls ∧ t - s.engine.gangScheduleTimeout ≤ t₁) ∨
      ∃ u v, t₀ ≤ u ∧ v ≤ t ∧ s.engine.gangScheduleTimeout < v - u ∧
        ∀ w' t', (w', t') ∈ presentations L s.calls → woundWaitLess k w' = true →
          ¬ (u < t' ∧ t' < v)

/-- The history behind a bid: a call that presented its key, and from then to the stamp
a chain of lower-ranked calls without a gap longer than the timeout. -/
def Backed (timeout : ℤ) (past : List (WoundWaitKey × ℤ)) (bid : HolBid) : Prop :=
  ∃ t₀, (bid.key, t₀) ∈ past ∧ t₀ ≤ bid.stamp ∧
    ∀ u, t₀ ≤ u → u < bid.stamp → ∃ w t', (w, t') ∈ past ∧ woundWaitLess bid.key w = true ∧
      u < t' ∧ t' ≤ u + timeout ∧ t' ≤ bid.stamp

lemma Backed.mono {timeout : ℤ} {past past' : List (WoundWaitKey × ℤ)} {bid : HolBid}
    (h : Backed timeout past bid) (hsub : ∀ x ∈ past, x ∈ past') : Backed timeout past' bid := by
  obtain ⟨t₀, hmem, hle, hchain⟩ := h
  refine ⟨t₀, hsub _ hmem, hle, fun u hu hlt => ?_⟩
  obtain ⟨w, t', hw, hrest⟩ := hchain u hu hlt
  exact ⟨w, t', hsub _ hw, hrest⟩

lemma Backed.refresh {timeout now stamp : ℤ} {past : List (WoundWaitKey × ℤ)}
    {k w : WoundWaitKey} (h : Backed timeout past ⟨k, stamp⟩) (hnow : (w, now) ∈ past)
    (hless : woundWaitLess k w = true) (hage : now - stamp ≤ timeout) (hmono : stamp ≤ now) :
    Backed timeout past ⟨k, now⟩ := by
  obtain ⟨t₀, hmem, hle, hchain⟩ := h
  refine ⟨t₀, hmem, hle.trans hmono, fun u hu hlt => ?_⟩
  by_cases hs : u < stamp
  · obtain ⟨w', t', hw', hless', hut, htu, hts⟩ := hchain u hu hs
    exact ⟨w', t', hw', hless', hut, htu, hts.trans hmono⟩
  · exact ⟨w, now, hnow, hless, hlt, by omega, le_rfl⟩

/-- The invariant: every bid is backed, and no stamp lies ahead of the clock. -/
def BidsBacked (timeout : ℤ) (s : Timeline V) : Prop :=
  s.engine.gangScheduleTimeout = timeout ∧
  ∀ L bid, s.engine.holBids.lookup L = some bid →
    Backed timeout (presentations L s.calls) bid ∧ bid.stamp ≤ s.clock

lemma bidsBacked_step {timeout : ℤ} {s : Timeline V} {c : Call V} (h : BidsBacked timeout s)
    (he : timeline.enabled s c) : BidsBacked timeout (timeline.next s c) := by
  obtain ⟨htime, hbids⟩ := h
  have hgrow : ∀ L, ∀ x ∈ presentations L s.calls, x ∈ presentations L (s.calls ++ [c]) :=
    fun L x hx => mem_presentations_snoc.mpr (.inl hx)
  have hclock := he.2
  by_cases hww : ∃ leaf key minRes wwkey now, c = .admitGangWW leaf key minRes wwkey now
  · obtain ⟨leaf, key, minRes, wwkey, now, rfl⟩ := hww
    have hself : (wwkey, now) ∈ presentations leaf
        (s.calls ++ [.admitGangWW leaf key minRes wwkey now]) :=
      mem_presentations_snoc.mpr (.inr (if_pos rfl))
    refine ⟨(admitGangWW_timeout _ _ _ _ _ _).trans htime, fun L bid hbid => ?_⟩
    rcases admitGangWW_bid hbid with hold | ⟨rfl, stamp, hold, hage, hless, rfl⟩ | ⟨rfl, rfl⟩
    · obtain ⟨hb, hle⟩ := hbids L bid hold
      exact ⟨hb.mono (hgrow L), hle.trans hclock⟩
    · obtain ⟨hb, hle⟩ := hbids L ⟨bid.key, stamp⟩ hold
      rw [htime] at hage
      exact ⟨(hb.mono (hgrow L)).refresh hself hless hage (hle.trans hclock), le_rfl⟩
    · exact ⟨⟨now, hself, le_rfl, fun u hu hlt => absurd hlt (not_lt.mpr hu)⟩, le_rfl⟩
  · obtain ⟨hsame, hto⟩ := call_frame s.engine
      fun leaf key minRes wwkey now hc => hww ⟨leaf, key, minRes, wwkey, now, hc⟩
    refine ⟨hto.trans htime, fun L bid hbid => ?_⟩
    change (s.engine.call c).holBids.lookup L = some bid at hbid
    rw [hsame] at hbid
    obtain ⟨hb, hle⟩ := hbids L bid hbid
    exact ⟨hb.mono (hgrow L), hle.trans hclock⟩

def bigKey : WoundWaitKey := ⟨10, 0, "ns/big"⟩

def smallKey : WoundWaitKey := ⟨0, 0, "ns/small"⟩

def bidAtZero : List (Call ℤ) :=
  [.rebuild (treeOf (twoLeaves 10 4) (by decide)) [] [],
    .admitGang "root.a" "ns/run" (Finmap.singleton "cpu" 2),
    .admitGangWW "root.a" "ns/big" (Finmap.singleton "cpu" 4) bigKey 0]

/-- The bidder calls once. The gang it holds back retries in time, refreshes the bid,
and is still held back when the bidder has been silent for twice the timeout. -/
theorem retries_keep_a_vanished_bid_alive :
    let calls := bidAtZero ++
      [.admitGangWW "root.a" "ns/small" (Finmap.singleton "cpu" 1) smallKey 60]
    let s := calls.foldl timeline.next (begin 60 0)
    Run timeline (begin 60 0) calls s ∧
    timeline.enabled s
      (.admitGangWW "root.a" "ns/small" (Finmap.singleton "cpu" 1) smallKey 120) ∧
    HeldBack s.engine "root.a" "ns/small" smallKey 120 bigKey ∧
    ¬ ∃ t₁, (bigKey, t₁) ∈ presentations "root.a" s.calls ∧ 120 - 60 ≤ t₁ := by
  intro calls s
  refine ⟨?_, ⟨trivial, by decide +kernel⟩, ⟨by decide +kernel, by decide +kernel,
    ⟨bigKey, 60⟩, by decide +kernel, rfl⟩, ?_⟩
  · apply Machine.Legal.run
    exact ⟨⟨⟨⟨_, newManager_treeOf _ _⟩, visits_empty, visits_empty⟩, le_rfl⟩, ⟨trivial, le_rfl⟩,
      ⟨trivial, le_rfl⟩, ⟨trivial, by decide +kernel⟩, trivial⟩
  · rintro ⟨t₁, hmem, hle⟩
    have hpast : presentations "root.a" s.calls = [(bigKey, 0), (smallKey, 60)] := by
      decide +kernel
    rw [hpast] at hmem
    simp only [List.mem_cons, Prod.mk.injEq, List.not_mem_nil, or_false] at hmem
    rcases hmem with ⟨_, rfl⟩ | ⟨hkey, _⟩
    · omega
    · exact absurd hkey (by decide)

/-- If no relay keeps a bid alive, a refusal shows that the bidder has called within the
timeout. -/
theorem refusal_needs_recent_bidder {timeout clock : ℤ} {calls : List (Call V)} {s : Timeline V}
    (h : Run (timeline.restrict NoRelay) (begin timeout clock) calls s) {L key : String}
    {minRes : Resource V} {wwkey k : WoundWaitKey} {t : ℤ}
    (he : (timeline.restrict NoRelay).enabled s (.admitGangWW L key minRes wwkey t))
    (hheld : HeldBack s.engine L key wwkey t k) :
    ∃ t₁, (k, t₁) ∈ presentations L s.calls ∧ t - timeout ≤ t₁ := by
  have hinv : BidsBacked timeout s := by
    refine h.invariant (I := BidsBacked timeout) ⟨rfl, fun L bid hbid => ?_⟩
      fun x c hx hc => bidsBacked_step hx hc.1
    cases hbid
  obtain ⟨_, _, bid, hblock, rfl⟩ := hheld
  obtain ⟨hbid, hless⟩ := blockingBid_eq_some.mp hblock
  obtain ⟨hbid, hage⟩ := (freshBids_leaf _ _ _ _).mp hbid
  obtain ⟨⟨t₀, hmem, _, hchain⟩, _⟩ := hinv.2 L bid hbid
  have hcond := he.2 L wwkey t (if_pos rfl) bid.key t₀ hmem hless
  rw [hinv.1] at hcond hage
  rcases hcond with hrecent | ⟨u, v, hu, hv, hpause, hquiet⟩
  · exact hrecent
  · -- the pause would have broken the chain or let the bid expire
    by_cases hs : u < bid.stamp
    · obtain ⟨w', t', hw', hless', hut, htu, _⟩ := hchain u hu hs
      exact absurd ⟨hut, by omega⟩ (hquiet w' t' hw' hless')
    · omega

theorem refusal_while_bidder_recent :
    let s := bidAtZero.foldl timeline.next (begin 60 0)
    HeldBack s.engine "root.a" "ns/small" smallKey 30 bigKey ∧
      ∃ t₁, (bigKey, t₁) ∈ presentations "root.a" s.calls ∧ 30 - 60 ≤ t₁ := by
  intro s
  have hrun : Run (timeline.restrict NoRelay) (begin 60 0) bidAtZero s := by
    apply Machine.Legal.run
    refine ⟨⟨⟨⟨⟨_, newManager_treeOf _ _⟩, visits_empty, visits_empty⟩, le_rfl⟩, ?_⟩,
      ⟨⟨trivial, le_rfl⟩, ?_⟩, ⟨⟨trivial, le_rfl⟩, ?_⟩, trivial⟩
    · intro L w t hc
      cases hc
    · intro L w t hc
      cases hc
    · intro L w t _ k t₀ hmem
      exact absurd hmem List.not_mem_nil
  have hheld : HeldBack s.engine "root.a" "ns/small" smallKey 30 bigKey :=
    ⟨by decide +kernel, by decide +kernel, ⟨bigKey, 0⟩, by decide +kernel, rfl⟩
  have he : (timeline.restrict NoRelay).enabled s
      (.admitGangWW "root.a" "ns/small" (Finmap.singleton "cpu" 1) smallKey 30) := by
    refine ⟨⟨trivial, by decide +kernel⟩, fun L w t hc k t₀ hmem _ => .inl ⟨t₀, hmem, ?_⟩⟩
    simp only [presents] at hc
    split_ifs at hc with hL
    cases hc
    subst hL
    have hpast : presentations "root.a" s.calls = [(bigKey, 0)] := by decide +kernel
    have htime : s.engine.gangScheduleTimeout = 60 := by decide +kernel
    rw [hpast, List.mem_singleton, Prod.mk.injEq] at hmem
    omega
  exact ⟨hheld, refusal_needs_recent_bidder hrun he hheld⟩

end Timeline

section Overtaking
variable {V : Type*} [CommRing V] [LinearOrder V] (rank : String → WoundWaitKey) (L g : String)

/-- Calls of gangs on one leaf, each with the fixed key of its gang. -/
def OnLeaf : Call V → Prop
  | .admitGangWW leaf key _ wwkey _ => leaf = L ∧ wwkey = rank key
  | .releaseGang _ => True
  | _ => False

def StillWaits (e : Engine V) : Call V → Prop
  | .admitGangWW leaf key minRes wwkey now =>
    key = g → (e.admitGangWW leaf key minRes wwkey now).2 ≠ .ok true
  | _ => True

/-- If the caller holds the leaf's bid and is not the waiting gang, it does not fit. -/
def HolderBlocked (e : Engine V) : Call V → Prop
  | .admitGangWW leaf key minRes wwkey _ =>
    key ≠ g → ∀ t bid, e.tree = some t → e.holBids.lookup leaf = some bid → bid.key = wwkey →
      t.fits leaf minRes = false
  | _ => True

def waiting : Machine (Timeline V) (Call V) :=
  timeline.restrict fun s c => OnLeaf rank L c ∧ StillWaits g s.engine c

/-- A bid at least as good as the gang's own guards the leaf until the time runs out. -/
structure Guarded (timeout t₀ : ℤ) (s : Timeline V) : Prop where
  timeout_eq : s.engine.gangScheduleTimeout = timeout
  tree : s.engine.tree.isSome = true
  recorded : GangsRecorded s.engine
  since : t₀ ≤ s.clock
  bid : s.clock ≤ t₀ + timeout → ∃ b, s.engine.holBids.lookup L = some b ∧ t₀ ≤ b.stamp ∧
    (b.key = rank g ∨ woundWaitLess b.key (rank g) = true)

variable {rank L g}

lemma guarded_start {e : Engine V} (hrec : GangsRecorded e) {minRes : Resource V} {t₀ : ℤ}
    (hrefused : (e.admitGangWW L g minRes (rank g) t₀).2 = .ok false) (calls : List (Call V)) :
    Guarded rank L g e.gangScheduleTimeout t₀
      ⟨(e.admitGangWW L g minRes (rank g) t₀).1, t₀, calls⟩ := by
  have hrec' := gangsRecorded_admitStep hrec (admitGangWW_step e L g minRes (rank g) t₀)
  have ho := admitGangWW_outcome e L g minRes (rank g) t₀
  generalize e.admitGangWW L g minRes (rank g) t₀ = r at hrefused hrec' ho ⊢
  cases ho with
  | known =>
    dsimp only at hrefused
    split_ifs at hrefused
    cases hrefused
  | noTree | failed | booked | adopted => cases hrefused
  | heldBack _ tree blocked =>
    exact ⟨rfl, by simp [tree], hrec', le_rfl, fun _ => ⟨_, Finmap.lookup_insert _, le_rfl,
      .inr (blockingBid_eq_some.mp blocked).2⟩⟩
  | waits _ tree free =>
    exact ⟨rfl, by simp [tree], hrec', le_rfl, fun _ =>
      ⟨_, claimBid_of_free free t₀, le_rfl, .inl rfl⟩⟩

lemma guard_after_call {timeout t₀ : ℤ} {s : Timeline V} {key : String} {minRes : Resource V}
    {now : ℤ} (h : Guarded rank L g timeout t₀ s) (hclock : s.clock ≤ now)
    (hwindow : now ≤ t₀ + timeout)
    (hwaits : StillWaits g s.engine (.admitGangWW L key minRes (rank key) now))
    (hholder : HolderBlocked g s.engine (.admitGangWW L key minRes (rank key) now)) :
    ∃ b, (s.engine.admitGangWW L key minRes (rank key) now).1.holBids.lookup L = some b ∧
      t₀ ≤ b.stamp ∧ (b.key = rank g ∨ woundWaitLess b.key (rank g) = true) := by
  obtain ⟨b, hb, hstamp, hkey⟩ := h.bid (hclock.trans hwindow)
  have hfresh : (s.engine.freshBids L now).lookup L = some b := by
    refine (freshBids_leaf _ _ _ _).mpr ⟨hb, ?_⟩
    rw [h.timeout_eq]
    omega
  have ho := admitGangWW_outcome s.engine L key minRes (rank key) now
  simp only [StillWaits] at hwaits
  generalize s.engine.admitGangWW L key minRes (rank key) now = r at hwaits ho ⊢
  cases ho with
  | known | noTree => exact ⟨b, hb, hstamp, hkey⟩
  | heldBack _ _ blocked =>
    have hsame := (blockingBid_eq_some.mp blocked).1
    rw [hfresh] at hsame
    cases hsame
    exact ⟨_, Finmap.lookup_insert _, h.since.trans hclock, hkey⟩
  | failed => exact ⟨b, hfresh, hstamp, hkey⟩
  | waits _ _ free =>
    refine ⟨_, claimBid_of_free free now, h.since.trans hclock, ?_⟩
    rcases rank_of_free free hfresh with he | hbetter
    · exact he ▸ hkey
    · rcases hkey with he | hless
      · exact .inr (he ▸ hbetter)
      · exact .inr (woundWaitLess_trans hbetter hless)
  | booked _ tree _ admits =>
    have hother : b.key ≠ rank key := by
      intro he
      by_cases hg : key = g
      · exact hwaits hg rfl
      · have hno := hholder hg _ b tree hb he
        rw [admits.fits] at hno
        cases hno
    refine ⟨b, ?_, hstamp, hkey⟩
    change (releaseBid (s.engine.freshBids L now) L (rank key)).lookup L = some b
    rw [releaseBid, hfresh]
    dsimp only
    rw [if_neg hother]
    exact hfresh
  | adopted new tree _ held =>
    exact absurd (h.recorded _ tree _ held) (Finmap.lookup_eq_none.mp new)

lemma guarded_step {timeout t₀ : ℤ} {s : Timeline V} {c : Call V}
    (h : Guarded rank L g timeout t₀ s) (he : (waiting rank L g).enabled s c)
    (hholder : HolderBlocked g s.engine c) :
    Guarded rank L g timeout t₀ ((waiting rank L g).next s c) := by
  obtain ⟨⟨hcall, hclock⟩, hleaf, hwaits⟩ := he
  have hrec := gangsRecorded_call h.recorded c hcall
  cases c with
  | admitGangWW leaf key minRes wwkey now =>
    obtain ⟨rfl, rfl⟩ := hleaf
    refine ⟨(admitGangWW_timeout _ _ _ _ _ _).trans h.timeout_eq, ?_, hrec, h.since.trans hclock,
      fun hwindow => guard_after_call h hclock hwindow hwaits hholder⟩
    have ho := admitGangWW_outcome s.engine leaf key minRes (rank key) now
    have htree := h.tree
    change ((s.engine.admitGangWW leaf key minRes (rank key) now).1.tree).isSome = true
    generalize s.engine.admitGangWW leaf key minRes (rank key) now = r at ho
    cases ho with
    | booked => rfl
    | known | noTree | heldBack | failed | waits | adopted => exact htree
  | releaseGang key =>
    have hcf := call_frame s.engine (c := .releaseGang key) fun _ _ _ _ _ hc => by cases hc
    refine ⟨hcf.2.trans h.timeout_eq, ?_, hrec, h.since, fun hwindow => ?_⟩
    · have htree := h.tree
      change (s.engine.releaseGang key).tree.isSome = true
      rw [Engine.releaseGang]
      split_ifs
      · rw [Option.isSome_map]
        exact htree
      · exact htree
    · obtain ⟨b, hb, hrest⟩ := h.bid hwindow
      exact ⟨b, (congrArg (Finmap.lookup L) hcf.1).trans hb, hrest⟩
  | _ => exact absurd hleaf id

def sampleRank (key : String) : WoundWaitKey :=
  ⟨if key = "ns/h" then 10 else if key = "ns/g" then 5 else 0, 0, key⟩

lemma sampleRank_injective : Function.Injective sampleRank :=
  fun _ _ h => congrArg WoundWaitKey.uid h

def crowded : Engine ℤ :=
  [Call.rebuild (treeOf (twoLeaves 20 10) (by decide)) [] [],
    .admitGangWW "root.a" "ns/run" (Finmap.singleton "cpu" 6) (sampleRank "ns/run") 0].foldl
    Engine.call (newEngine 60)

def gRefused : Timeline ℤ :=
  ⟨(crowded.admitGangWW "root.a" "ns/g" (Finmap.singleton "cpu" 8) (sampleRank "ns/g") 0).1, 0, []⟩

/-- A better gang takes over the bid of `g`, is admitted and takes the bid along; then a
gang ranked after `g` gets in while `g` still waits. -/
theorem lower_ranked_gang_overtakes :
    let calls : List (Call ℤ) :=
      [.admitGangWW "root.a" "ns/h" (Finmap.singleton "cpu" 5) (sampleRank "ns/h") 1,
        .releaseGang "ns/run",
        .admitGangWW "root.a" "ns/h" (Finmap.singleton "cpu" 5) (sampleRank "ns/h") 2]
    let s := calls.foldl timeline.next gRefused
    Function.Injective sampleRank ∧
    (crowded.admitGangWW "root.a" "ns/g" (Finmap.singleton "cpu" 8) (sampleRank "ns/g") 0).2 =
      .ok false ∧
    Run (waiting sampleRank "root.a" "ns/g") gRefused calls s ∧ s.clock ≤ 3 ∧
    (3 : ℤ) ≤ 0 + crowded.gangScheduleTimeout ∧
    woundWaitLess (sampleRank "ns/g") (sampleRank "ns/k") = true ∧ "ns/k" ∉ s.engine.gangBook ∧
    (s.engine.admitGangWW "root.a" "ns/k" (Finmap.singleton "cpu" 2) (sampleRank "ns/k") 3).2 =
      .ok true := by
  intro calls s
  refine ⟨sampleRank_injective, by decide +kernel, ?_, by decide +kernel, by decide +kernel,
    by decide +kernel, by decide +kernel, by decide +kernel⟩
  apply Machine.Legal.run
  exact ⟨⟨⟨trivial, by decide +kernel⟩, ⟨rfl, rfl⟩, fun h => absurd h (by decide)⟩,
    ⟨⟨trivial, le_rfl⟩, trivial, trivial⟩,
    ⟨⟨trivial, by decide +kernel⟩, ⟨rfl, rfl⟩, fun h => absurd h (by decide)⟩, trivial⟩

/-- No overtaking as long as the bids are not taken away: after `g` was refused, and
while no better gang that holds the bid of the leaf fits, every gang ranked after `g` is
refused until the timeout has passed. -/
theorem no_overtaking {timeout : ℤ} {prior : List (Call V)} {e : Engine V}
    (hreach : Run machine (newEngine timeout) prior e) {minRes : Resource V} {t₀ : ℤ}
    (hrefused : (e.admitGangWW L g minRes (rank g) t₀).2 = .ok false) {calls : List (Call V)}
    {s : Timeline V}
    (h : Run ((waiting rank L g).restrict fun s c => HolderBlocked g s.engine c)
      ⟨(e.admitGangWW L g minRes (rank g) t₀).1, t₀, []⟩ calls s)
    {x : String} {r : Resource V} {now : ℤ} (hclock : s.clock ≤ now)
    (hwindow : now ≤ t₀ + e.gangScheduleTimeout)
    (hrank : woundWaitLess (rank g) (rank x) = true) (hnew : x ∉ s.engine.gangBook) :
    (s.engine.admitGangWW L x r (rank x) now).2 = .ok false ∧
      x ∉ (s.engine.admitGangWW L x r (rank x) now).1.gangBook := by
  have hg : Guarded rank L g e.gangScheduleTimeout t₀ s :=
    h.invariant (guarded_start (gangsRecorded_run hreach) hrefused [])
      fun _ _ hi hc => guarded_step hi hc.1 hc.2
  obtain ⟨b, hb, hstamp, hkey⟩ := hg.bid (hclock.trans hwindow)
  have hfresh : (s.engine.freshBids L now).lookup L = some b := by
    refine (freshBids_leaf _ _ _ _).mpr ⟨hb, ?_⟩
    rw [hg.timeout_eq]
    omega
  have hless : woundWaitLess b.key (rank x) = true := by
    rcases hkey with he | hbetter
    · exact he ▸ hrank
    · exact woundWaitLess_trans hbetter hrank
  obtain ⟨t, ht⟩ := Option.isSome_iff_exists.mp hg.tree
  have hblock := blockingBid_eq_some.mpr ⟨hfresh, hless⟩
  simp only [Engine.admitGangWW, Finmap.lookup_eq_none.mpr hnew, ht, hblock]
  exact ⟨trivial, hnew⟩

theorem lower_ranked_gang_refused :
    let calls : List (Call ℤ) :=
      [.admitGangWW "root.a" "ns/h" (Finmap.singleton "cpu" 5) (sampleRank "ns/h") 1]
    let s := calls.foldl timeline.next gRefused
    (s.engine.admitGangWW "root.a" "ns/k" (Finmap.singleton "cpu" 2) (sampleRank "ns/k") 3).2 =
      .ok false := by
  intro calls s
  have hreach : Run machine (newEngine 60)
      [Call.rebuild (treeOf (twoLeaves 20 10) (by decide)) [] [],
        .admitGangWW "root.a" "ns/run" (Finmap.singleton "cpu" 6) (sampleRank "ns/run") 0]
      crowded := by
    apply Machine.Legal.run
    exact ⟨⟨⟨_, newManager_treeOf _ _⟩, visits_empty, visits_empty⟩, trivial, trivial⟩
  have hfull : (gRefused.engine.tree.elim true fun t =>
      t.fits "root.a" (Finmap.singleton "cpu" 5)) = false := by decide +kernel
  have hrun : Run ((waiting sampleRank "root.a" "ns/g").restrict
      fun s c => HolderBlocked "ns/g" s.engine c) gRefused calls s := by
    apply Machine.Legal.run
    refine ⟨⟨⟨⟨trivial, by decide +kernel⟩, ⟨rfl, rfl⟩, fun h => absurd h (by decide)⟩, ?_⟩,
      trivial⟩
    intro _ t bid ht _ _
    rw [ht] at hfull
    exact hfull
  exact (no_overtaking hreach (by decide +kernel) hrun (by decide +kernel) (by decide +kernel)
    (by decide +kernel) (by decide +kernel)).1

end Overtaking

end AdScheduler.HeadOfLine
