import AdScheduler.HeadOfLine

/-! Bids of gangs that have already been admitted. The members of one gang may present
different priorities, and an admission drops only the bid with exactly its own key. -/
namespace AdScheduler.StaleBids
open KeyedMap Resources Manager Conservation EngineCore GangAgreement HeadOfLine WoundWait Runs

section Ledger
variable {V : Type*} [CommRing V] [LinearOrder V]

/-- The gang plugin ranks a gang under the gang's own key. -/
def Keyed (_ : Engine V) : Call V → Prop
  | .admitGangWW _ key _ wwkey _ => wwkey.uid = key
  | _ => True

/-- The engine under the calls of the gang plugin and the coordinator. -/
def keyedCalls : Machine (Engine V) (Call V) := machine.restrict Keyed

def NoBidLeft (e : Engine V) : Prop :=
  ∀ g ∈ e.gangBook, ∀ leaf bid, e.holBids.lookup leaf = some bid → bid.key.uid ≠ g

/-- When a new gang gets in, all bids of that gang are the caller's own: the bid of the
leaf, under the key that the call presents. The recovery path presents no key. -/
def Clears (e : Engine V) : Call V → Prop
  | .admitGang leaf key minRes =>
    e.gangBook.lookup key = none → ∀ t, e.tree = some t → Admits t leaf key minRes →
      ∀ L bid, e.holBids.lookup L = some bid → bid.key.uid ≠ key
  | .admitGangWW leaf key minRes wwkey now =>
    e.gangBook.lookup key = none → ∀ t, e.tree = some t → Admits t leaf key minRes →
      blockingBid (e.freshBids leaf now) leaf wwkey = none →
      ∀ L bid, (e.freshBids leaf now).lookup L = some bid → bid.key.uid = key →
        L = leaf ∧ bid.key = wwkey
  | _ => True

lemma releaseBid_lookup (bids : Map String HolBid) (leaf L : String) (wwkey : WoundWaitKey)
    (bid : HolBid) : (releaseBid bids leaf wwkey).lookup L = some bid ↔
      bids.lookup L = some bid ∧ ¬ (L = leaf ∧ bid.key = wwkey) := by
  unfold releaseBid
  cases hb : bids.lookup leaf with
  | none =>
    have hne : ∀ b, bids.lookup L = some b → L ≠ leaf := by
      rintro b hL rfl
      simp [hb] at hL
    simp only [iff_self_and]
    exact fun hL hand => hne _ hL hand.1
  | some b =>
    dsimp only
    split_ifs with hkey
    · rw [lookup_erase_ite]
      by_cases hL : L = leaf
      · subst hL
        simp only [if_true, reduceCtorEq, hb, Option.some.injEq, true_and, false_iff, not_and,
          not_not]
        rintro rfl
        exact hkey
      · simp [hL]
    · simp only [iff_self_and, not_and]
      rintro hL rfl hown
      simp only [hb, Option.some.injEq] at hL
      exact hkey (hL ▸ hown)

lemma NoBidLeft.mono {e e' : Engine V} (h : NoBidLeft e)
    (hgangs : ∀ g ∈ e'.gangBook, g ∈ e.gangBook) (hbids : e'.holBids = e.holBids) :
    NoBidLeft e' := by
  intro g hg leaf bid hbid
  rw [hbids] at hbid
  exact h g (hgangs g hg) leaf bid hbid

lemma call_gangBook_sub {e : Engine V} {c : Call V} (hc : Callable e c)
    (hplain : ∀ leaf key minRes, c ≠ .admitGang leaf key minRes)
    (hww : ∀ leaf key minRes wwkey now, c ≠ .admitGangWW leaf key minRes wwkey now) {g : String}
    (hg : g ∈ (e.call c).gangBook) : g ∈ e.gangBook := by
  cases c with
  | reserve uid leaf req => exact (sameGangs_reserve e uid leaf req).gangBook ▸ hg
  | unreserve uid => exact (sameGangs_unreserve e uid).gangBook ▸ hg
  | commit uid => exact (sameGangs_commit e uid).gangBook ▸ hg
  | observeBound uid leaf req => exact (sameGangs_observeBound e uid leaf req).gangBook ▸ hg
  | observeDeleted uid => exact (sameGangs_observeDeleted e uid).gangBook ▸ hg
  | gcBookings live order => exact (sameGangs_gcBookings e live order).gangBook ▸ hg
  | admitGang leaf key minRes => exact absurd rfl (hplain leaf key minRes)
  | admitGangWW leaf key minRes wwkey now => exact absurd rfl (hww leaf key minRes wwkey now)
  | releaseGang key =>
    simp only [Engine.call, Engine.releaseGang] at hg
    split_ifs at hg
    · exact (Finmap.mem_erase.mp hg).2
    · exact hg
  | gcGangs live order => exact ((mem_gangBook_gcGangs e live hc g).mp hg).1
  | rebuild newTree bookOrder gangOrder =>
    obtain ⟨gb, hgb⟩ := Finmap.mem_iff.mp hg
    have hfilter := (rebuild_gangBook e newTree bookOrder hc.2.2 g).symm.trans hgb
    exact Finmap.mem_of_lookup_eq_some (Option.filter_eq_some_iff.mp hfilter).1

lemma noBidLeft_admitGang {e : Engine V} (hrec : GangsRecorded e) (h : NoBidLeft e)
    (leaf key : String) (minRes : Resource V) :
    NoBidLeft (e.admitGang leaf key minRes).1 ↔ Clears e (.admitGang leaf key minRes) := by
  have hbids : (e.admitGang leaf key minRes).1.holBids = e.holBids :=
    (call_frame e (c := .admitGang leaf key minRes) (by simp)).1
  constructor
  · intro hleft hnew t ht ha L bid hbid
    have hin : key ∈ (e.admitGang leaf key minRes).1.gangBook := by
      simp [admitGang_books hnew ht ha]
    exact hleft key hin L bid (hbids ▸ hbid)
  · intro hclear
    rcases admitGang_step e leaf key minRes with ⟨_, hsame⟩ | ⟨t, ht, hnew, ha, _, hbook⟩ |
        ⟨t, ht, hnew, hheld, _, _⟩
    · exact h.mono (fun g hg => hsame ▸ hg) hbids
    · intro g hg L bid hbid
      rw [hbids] at hbid
      simp only [hbook, Finmap.mem_insert] at hg
      rcases hg with rfl | hg
      · exact hclear hnew t ht ha L bid hbid
      · exact h g hg L bid hbid
    · exact absurd (hrec t ht key hheld) (Finmap.lookup_eq_none.mp hnew)

lemma noBidLeft_refused {e : Engine V} (h : NoBidLeft e) (leaf : String) {key : String}
    (minRes : Resource V) {wwkey : WoundWaitKey} (now : ℤ) (hkey : wwkey.uid = key)
    (hgangs : (e.admitGangWW leaf key minRes wwkey now).1.gangBook = e.gangBook)
    (hnew : (e.admitGangWW leaf key minRes wwkey now).1 = e ∨ key ∉ e.gangBook) :
    NoBidLeft (e.admitGangWW leaf key minRes wwkey now).1 := by
  rcases hnew with hsame | hnew
  · simpa [hsame] using h
  intro g hg L bid hbid
  rw [hgangs] at hg
  rcases admitGangWW_bid hbid with hold | ⟨rfl, stamp, hold, -⟩ | ⟨rfl, rfl⟩
  · exact h g hg L bid hold
  · exact h g hg L ⟨bid.key, stamp⟩ hold
  · rintro rfl
    exact hnew (hkey ▸ hg)

lemma noBidLeft_booked {e : Engine V} (h : NoBidLeft e) {t : QueueManager V} {leaf key : String}
    {minRes : Resource V} {wwkey : WoundWaitKey} {now : ℤ} (hnew : e.gangBook.lookup key = none)
    (ht : e.tree = some t) (ha : Admits t leaf key minRes)
    (hfree : blockingBid (e.freshBids leaf now) leaf wwkey = none) :
    NoBidLeft (e.admitGangWW leaf key minRes wwkey now).1 ↔
      ∀ L bid, (e.freshBids leaf now).lookup L = some bid → bid.key.uid = key →
        L = leaf ∧ bid.key = wwkey := by
  simp only [NoBidLeft, admitGangWW_books hnew ht ha hfree, releaseBid_lookup, Finmap.mem_insert]
  constructor
  · intro hleft L bid hbid huid
    by_contra hother
    exact hleft key (.inl rfl) L bid ⟨hbid, hother⟩ huid
  · rintro hown g (rfl | hg) L bid ⟨hbid, hother⟩ huid
    · exact hother (hown L bid hbid huid)
    · exact h g hg L bid (freshBids_sub hbid) huid

lemma noBidLeft_admitGangWW {e : Engine V} (hrec : GangsRecorded e) (h : NoBidLeft e)
    {leaf key : String} {minRes : Resource V} {wwkey : WoundWaitKey} {now : ℤ}
    (hkey : wwkey.uid = key) :
    NoBidLeft (e.admitGangWW leaf key minRes wwkey now).1 ↔
      Clears e (.admitGangWW leaf key minRes wwkey now) := by
  by_cases hin : e.gangBook.lookup key = none ∧ ∃ t, e.tree = some t ∧
      Admits t leaf key minRes ∧ blockingBid (e.freshBids leaf now) leaf wwkey = none
  · obtain ⟨hnew, t, ht, ha, hfree⟩ := hin
    rw [noBidLeft_booked h hnew ht ha hfree]
    refine ⟨fun hown _ _ _ _ _ => hown, fun hclear => hclear hnew t ht ha hfree⟩
  · have hclear : Clears e (.admitGangWW leaf key minRes wwkey now) :=
      fun hnew t ht ha hfree => absurd ⟨hnew, t, ht, ha, hfree⟩ hin
    refine ⟨fun _ => hclear, fun _ => ?_⟩
    have ho := admitGangWW_outcome e leaf key minRes wwkey now
    have hrefused := noBidLeft_refused h leaf minRes now hkey
    generalize e.admitGangWW leaf key minRes wwkey now = r at ho hrefused ⊢
    cases ho with
    | known | noTree => exact hrefused rfl (.inl rfl)
    | heldBack new | failed new | waits new =>
      exact hrefused rfl (.inr (Finmap.lookup_eq_none.mp new))
    | booked new tree free admits => exact absurd ⟨new, _, tree, admits, free⟩ hin
    | adopted new tree _ held =>
      exact absurd (hrec _ tree key held) (Finmap.lookup_eq_none.mp new)

lemma noBidLeft_call {e : Engine V} (hrec : GangsRecorded e) (h : NoBidLeft e) {c : Call V}
    (hc : keyedCalls.enabled e c) : NoBidLeft (e.call c) ↔ Clears e c := by
  by_cases hplain : ∃ leaf key minRes, c = .admitGang leaf key minRes
  · obtain ⟨leaf, key, minRes, rfl⟩ := hplain
    exact noBidLeft_admitGang hrec h leaf key minRes
  by_cases hww : ∃ leaf key minRes wwkey now, c = .admitGangWW leaf key minRes wwkey now
  · obtain ⟨leaf, key, minRes, wwkey, now, rfl⟩ := hww
    exact noBidLeft_admitGangWW hrec h hc.2
  push Not at hplain hww
  have hstays : NoBidLeft (e.call c) :=
    h.mono (fun g => call_gangBook_sub hc.1 hplain hww) (call_frame e hww).1
  have hclear : Clears e c := by
    cases c with
    | admitGang leaf key minRes => exact absurd rfl (hplain leaf key minRes)
    | admitGangWW leaf key minRes wwkey now => exact absurd rfl (hww leaf key minRes wwkey now)
    | _ => trivial
  exact ⟨fun _ => hclear, fun _ => hstays⟩

/-- As long as a gang that gets in has no bid but the caller's own, no bid of an admitted
gang is left, and none holds another call back. A call that breaks this is exactly one
that does not meet the condition. -/
theorem admitted_gang_leaves_no_bid {timeout : ℤ} {calls : List (Call V)} {e : Engine V}
    (h : Run (keyedCalls.restrict Clears) (newEngine timeout) calls e) :
    NoBidLeft e ∧
    (∀ leaf wwkey now bid, blockingBid (e.freshBids leaf now) leaf wwkey = some bid →
      bid.key.uid ∉ e.gangBook) ∧
    ∀ c, keyedCalls.enabled e c → (NoBidLeft (e.call c) ↔ Clears e c) := by
  have hinv : GangsRecorded e ∧ NoBidLeft e := by
    refine h.invariant (I := fun e => GangsRecorded e ∧ NoBidLeft e) ⟨?_, ?_⟩ ?_
    · intro t ht
      cases ht
    · intro g hg
      exact absurd hg Finmap.notMem_empty
    · intro e c hi hc
      exact ⟨gangsRecorded_call hi.1 c hc.1.1, (noBidLeft_call hi.1 hi.2 hc.1).mpr hc.2⟩
  refine ⟨hinv.2, fun leaf wwkey now bid hblock hin => ?_, fun c => noBidLeft_call hinv.1 hinv.2⟩
  have hbid := freshBids_sub (blockingBid_eq_some.mp hblock).1
  exact hinv.2 _ hin leaf bid hbid rfl

end Ledger

lemma roomyTree_isOk : (newManager (twoLeaves 20 10)).isOk = true := by decide

def bidThenRoom (priority : ℤ) : List (Call ℤ) :=
  [.rebuild (treeOf (twoLeaves 20 10) roomyTree_isOk) [] [],
    .admitGang "root.a" "ns/run" (Finmap.singleton "cpu" 6),
    .admitGangWW "root.a" "ns/g" (Finmap.singleton "cpu" 8) ⟨5, 0, "ns/g"⟩ 0,
    .releaseGang "ns/run",
    .admitGangWW "root.a" "ns/g" (Finmap.singleton "cpu" 8) ⟨priority, 0, "ns/g"⟩ 1]

/-- A member with a higher priority than the one that bid gets the gang in, the bid stays,
and the admitted gang holds back another one. -/
theorem admitted_gang_still_holds_back :
    let e := (bidThenRoom 7).foldl Engine.call (newEngine 60)
    Run keyedCalls (newEngine 60) (bidThenRoom 7) e ∧ "ns/g" ∈ e.gangBook ∧
      blockingBid (e.freshBids "root.a" 2) "root.a" ⟨3, 0, "ns/x"⟩ =
        some ⟨⟨5, 0, "ns/g"⟩, 0⟩ ∧ ¬ NoBidLeft e := by
  intro e
  have hfacts : "ns/g" ∈ e.gangBook ∧ blockingBid (e.freshBids "root.a" 2) "root.a"
      ⟨3, 0, "ns/x"⟩ = some ⟨⟨5, 0, "ns/g"⟩, 0⟩ := by decide +kernel
  have hrun : Run keyedCalls (newEngine 60) (bidThenRoom 7) e :=
    Machine.Legal.run ⟨⟨⟨⟨_, newManager_treeOf _ _⟩, visits_empty, visits_empty⟩, trivial⟩,
      ⟨trivial, trivial⟩, ⟨trivial, rfl⟩, ⟨trivial, trivial⟩, ⟨trivial, rfl⟩, trivial⟩
  refine ⟨hrun, hfacts.1, hfacts.2, fun hleft => ?_⟩
  have hbid := freshBids_sub (blockingBid_eq_some.mp hfacts.2).1
  exact hleft "ns/g" hfacts.1 "root.a" _ hbid rfl

theorem bidder_gets_in_and_clears_its_bid :
    let e := (bidThenRoom 5).foldl Engine.call (newEngine 60)
    "ns/g" ∈ e.gangBook ∧ NoBidLeft e := by
  intro e
  let before (n : ℕ) : Engine ℤ := ((bidThenRoom 5).take n).foldl Engine.call (newEngine 60)
  have hnone : (before 1).holBids = ∅ ∧ (before 2).freshBids "root.a" 0 = ∅ := by decide +kernel
  have hown : (before 4).freshBids "root.a" 1 =
      Finmap.singleton "root.a" ⟨⟨5, 0, "ns/g"⟩, 0⟩ := by decide +kernel
  have hfirst : Clears (before 1) (.admitGang "root.a" "ns/run" (Finmap.singleton "cpu" 6)) := by
    intro _ t _ _ L bid hbid
    simp [hnone.1] at hbid
  have hbids : Clears (before 2) (.admitGangWW "root.a" "ns/g" (Finmap.singleton "cpu" 8)
      ⟨5, 0, "ns/g"⟩ 0) := by
    intro _ t _ _ _ L bid hbid
    simp [hnone.2] at hbid
  have hin : Clears (before 4) (.admitGangWW "root.a" "ns/g" (Finmap.singleton "cpu" 8)
      ⟨5, 0, "ns/g"⟩ 1) := by
    intro _ t _ _ _ L bid hbid _
    rw [hown] at hbid
    by_cases hL : L = "root.a"
    · subst hL
      simp only [Finmap.lookup_singleton_eq, Option.some.injEq] at hbid
      simp [← hbid]
    · have hnot : L ∉ (Finmap.singleton "root.a" ⟨⟨5, 0, "ns/g"⟩, 0⟩ : Map String HolBid) := by
        simpa using hL
      simp [Finmap.lookup_eq_none.mpr hnot] at hbid
  have hrun : Run (keyedCalls.restrict Clears) (newEngine 60) (bidThenRoom 5) e :=
    Machine.Legal.run
      ⟨⟨⟨⟨⟨_, newManager_treeOf _ _⟩, visits_empty, visits_empty⟩, trivial⟩, trivial⟩,
      ⟨⟨trivial, trivial⟩, hfirst⟩, ⟨⟨trivial, rfl⟩, hbids⟩, ⟨⟨trivial, trivial⟩, trivial⟩,
      ⟨⟨trivial, rfl⟩, hin⟩, trivial⟩
  exact ⟨by decide +kernel, (admitted_gang_leaves_no_bid hrun).1⟩

end AdScheduler.StaleBids
