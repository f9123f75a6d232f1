import AdScheduler.GangAgreement
import AdScheduler.CriticalSections

/-! The collection of stale ledger entries against what arrives while it runs. The live
objects are listed before the ledger is locked, and whatever is booked after the listing looks
dead to it. -/
namespace AdScheduler.LedgerCollection
open KeyedMap Resources Manager Conservation EngineCore GangAgreement WoundWait Runs Requests
open CoordinatorCore CriticalSections

/-- The coordinator and its pass over the ledgers. -/
structure State (V : Type*) [CommRing V] [LinearOrder V] where
  coord : Coordinator V
  gc : Gc

inductive Step (V : Type*) [CommRing V] [LinearOrder V]
  | gc (order : List String)
  | store (pods : List (Pod V)) (podGroups : List (PodGroup V))
  | reserve (uid leaf : String) (req : Resource V)
  | admitGangWW (leaf key : String) (minRes : Resource V) (wwkey : WoundWaitKey) (now : ℤ)

section Machine
variable {V : Type*} [CommRing V] [LinearOrder V]

namespace State

def next (s : State V) : Step V → State V
  | .gc order => ⟨(s.gc.step s.coord order).1, (s.gc.step s.coord order).2⟩
  | .store pods podGroups =>
    { s with coord := { s.coord with pods := pods, podGroups := podGroups } }
  | .reserve uid leaf req =>
    { s with coord := { s.coord with engine := s.coord.engine.reserve uid leaf req } }
  | .admitGangWW leaf key minRes wwkey now =>
    { s with coord := { s.coord with
        engine := (s.coord.engine.admitGangWW leaf key minRes wwkey now).1 } }

def Enabled (s : State V) : Step V → Prop
  | .gc order => s.gc.Ordered s.coord order
  | _ => True

end State

/-- The pass, with arrivals and admissions at any point of it. -/
def collection : Machine (State V) (Step V) := ⟨State.Enabled, State.next⟩

/-- What the next section of the pass releases is gone from the stores. -/
def OnlyGone (s : State V) : Prop :=
  ∀ order, s.Enabled (.gc order) →
    (∀ uid ∈ s.coord.engine.book, uid ∉ (s.next (.gc order)).coord.engine.book →
      uid ∉ livePods s.coord.pods) ∧
    ∀ key ∈ s.coord.engine.gangBook, key ∉ (s.next (.gc order)).coord.engine.gangBook →
      key ∉ liveGroups s.coord.podGroups

/-- Between a listing and the release that follows, no object outside the listing comes to be
both stored and booked: one that arrives is not booked, and one that is booked has not
arrived. -/
def Quiet (s : State V) : Step V → Prop
  | .gc _ => True
  | .store pods podGroups =>
    match s.gc with
    | .listedPods live => s.coord.engine.tree ≠ none →
      ∀ uid ∈ s.coord.engine.book, uid ∈ livePods pods → uid ∈ live
    | .listedGroups live => ∀ key ∈ s.coord.engine.gangBook, key ∈ liveGroups podGroups → key ∈ live
    | _ => True
  | .reserve uid leaf _ =>
    match s.gc with
    | .listedPods live => (∃ t, s.coord.engine.tree = some t ∧ t.isLeafPath leaf = true) →
      uid ∈ livePods s.coord.pods → uid ∈ live
    | _ => True
  | .admitGangWW leaf key minRes wwkey now =>
    match s.gc with
    | .listedGroups live => (s.coord.engine.admitGangWW leaf key minRes wwkey now).2 = .ok true →
      key ∈ liveGroups s.coord.podGroups → key ∈ live
    | _ => True

/-- Every booked object of the stores is in the outstanding listing. -/
def Covered (s : State V) : Prop :=
  match s.gc with
  | .listedPods live => s.coord.engine.tree ≠ none →
    ∀ uid ∈ s.coord.engine.book, uid ∈ livePods s.coord.pods → uid ∈ live
  | .listedGroups live =>
    ∀ key ∈ s.coord.engine.gangBook, key ∈ liveGroups s.coord.podGroups → key ∈ live
  | _ => True

lemma onlyGone_iff (s : State V) : OnlyGone s ↔ Covered s := by
  obtain ⟨c, gc⟩ := s
  cases gc with
  | idle | releasedBookings =>
    exact iff_of_true (fun order _ => ⟨fun uid hin hout => absurd hin hout,
      fun key hin hout => absurd hin hout⟩) trivial
  | listedPods live =>
    have hgangs : ∀ order, (c.engine.gcBookings live order).1.gangBook = c.engine.gangBook :=
      fun order => (sameGangs_gcBookings c.engine live order).gangBook
    constructor
    · intro h htree uid hin hstored
      by_contra hno
      have hvisits := sortedKeys_visits c.engine.book
      refine (h _ hvisits).1 uid hin ?_ hstored
      exact fun hkept => hno (((mem_book_gcBookings c.engine live hvisits uid).mp hkept).2 htree)
    · intro h order ho
      refine ⟨fun uid hin hout hstored => hout ?_, fun key hin hout => absurd ?_ hout⟩
      · exact (mem_book_gcBookings c.engine live ho uid).mpr
          ⟨hin, fun htree => h htree uid hin hstored⟩
      · change key ∈ (c.engine.gcBookings live order).1.gangBook
        rwa [hgangs]
  | listedGroups live =>
    constructor
    · intro h key hin hstored
      by_contra hno
      have hvisits := sortedKeys_visits c.engine.gangBook
      refine (h _ hvisits).2 key hin ?_ hstored
      exact fun hkept => hno ((mem_gangBook_gcGangs c.engine live hvisits key).mp hkept).2
    · intro h order ho
      refine ⟨fun uid hin hout => absurd ?_ hout, fun key hin hout hstored => hout ?_⟩
      · change uid ∈ (c.engine.gcGangs live order).1.book
        rwa [gcGangs_book]
      · exact (mem_gangBook_gcGangs c.engine live ho key).mpr ⟨hin, h key hin hstored⟩

lemma covered_gc (s : State V) (order : List String) : Covered (s.next (.gc order)) := by
  obtain ⟨c, gc⟩ := s
  cases gc with
  | idle => exact fun _ uid _ hstored => hstored
  | listedPods | listedGroups => trivial
  | releasedBookings => exact fun key _ hstored => hstored

lemma covered_reserve_iff {s : State V} (h : Covered s) (uid leaf : String) (req : Resource V) :
    Covered (s.next (.reserve uid leaf req)) ↔ Quiet s (.reserve uid leaf req) := by
  obtain ⟨c, gc⟩ := s
  cases gc with
  | idle | releasedBookings => exact iff_of_true trivial trivial
  | listedPods live =>
    constructor
    · rintro h' ⟨t, ht, hleaf⟩ hstored
      refine h' ?_ uid ?_ hstored
      · change (c.engine.reserve uid leaf req).tree ≠ none
        rw [Ne, reserve_tree_eq_none, ht]
        simp
      · exact (mem_book_reserve c.engine uid leaf req uid).mpr (.inr ⟨rfl, t, ht, hleaf⟩)
    · intro hq htree u hin hstored
      rcases (mem_book_reserve c.engine uid leaf req u).mp hin with hold | ⟨rfl, hbooks⟩
      · refine h (fun hnone => htree ?_) u hold hstored
        exact (reserve_tree_eq_none c.engine uid leaf req).mpr hnone
      · exact hq hbooks hstored
  | listedGroups live =>
    have hgangs : (c.engine.reserve uid leaf req).gangBook = c.engine.gangBook :=
      (sameGangs_reserve c.engine uid leaf req).gangBook
    refine iff_of_true (fun key hin => h key ?_) trivial
    rw [← hgangs]
    exact hin

lemma covered_admitGangWW_iff {s : State V} (h : Covered s) (leaf key : String)
    (minRes : Resource V) (wwkey : WoundWaitKey) (now : ℤ) :
    Covered (s.next (.admitGangWW leaf key minRes wwkey now)) ↔
      Quiet s (.admitGangWW leaf key minRes wwkey now) := by
  obtain ⟨c, gc⟩ := s
  have hgangs := mem_gangBook_admitGangWW c.engine leaf key minRes wwkey now
  cases gc with
  | idle | releasedBookings => exact iff_of_true trivial trivial
  | listedPods live =>
    refine iff_of_true (fun htree uid hin => h (fun hnone => htree ?_) uid ?_) trivial
    · exact (admitGangWW_tree_eq_none c.engine leaf key minRes wwkey now).mpr hnone
    · exact (admitGangWW_book c.engine leaf key minRes wwkey now) ▸ hin
  | listedGroups live =>
    constructor
    · exact fun h' hok hstored => h' key ((hgangs key).mpr (.inr ⟨rfl, hok⟩)) hstored
    · intro hq k hin hstored
      rcases (hgangs k).mp hin with hold | ⟨rfl, hok⟩
      · exact h k hold hstored
      · exact hq hok hstored

lemma covered_next_iff {s : State V} (h : Covered s) (step : Step V) :
    Covered (s.next step) ↔ Quiet s step := by
  cases step with
  | gc order => exact iff_of_true (covered_gc s order) trivial
  | store pods podGroups =>
    obtain ⟨c, gc⟩ := s
    cases gc <;> rfl
  | reserve uid leaf req => exact covered_reserve_iff h uid leaf req
  | admitGangWW leaf key minRes wwkey now =>
    exact covered_admitGangWW_iff h leaf key minRes wwkey now

/-- In every interleaving of quiet steps, whatever the pass releases is gone at that moment. A
step that is not quiet makes the next release hit a live object. -/
theorem collects_only_gone {c : Coordinator V} {steps : List (Step V)} {s : State V}
    (h : Run (collection.restrict Quiet) ⟨c, .idle⟩ steps s) :
    OnlyGone s ∧ ∀ step, s.Enabled step → (OnlyGone (s.next step) ↔ Quiet s step) := by
  have hcovered : Covered s := by
    apply h.invariant
    · trivial
    · intro s' step hs' henabled
      exact (covered_next_iff hs' step).mpr henabled.2
  refine ⟨(onlyGone_iff s).mpr hcovered, fun step _ => ?_⟩
  rw [onlyGone_iff]
  exact covered_next_iff hcovered step

end Machine

def emptyStores : State ℤ :=
  ⟨newCoordinator (engineOn 60 (treeOf (Placement.oneTenant 10) Placement.oneTenant_isOk)), .idle⟩

def smallGroup : PodGroup ℤ where
  ns := "team"
  name := "gang"
  creationTimestamp := 0
  minMember := 1
  minResources := Finmap.singleton "cpu" ⟨0, 2⟩
  queue := "root.team.jobs"
  scheduleTimeoutSeconds := none
  membersReadyTimeoutSeconds := none
  phase := .pending
  admitted := false
  reservedResources := ∅
  reservedQueue := ""

def request : Resource ℤ := Finmap.singleton "cpu" 2

def admission : Step ℤ := .admitGangWW "root.team.jobs" "team/gang" request ⟨0, 0, "team/gang"⟩ 0

/-- A pod, or a pod group, that arrives and is booked between the listing and the release loses
its booking while it is in the store. -/
theorem arrival_during_pass_released :
    let pod := barePod "pod" "team" "runner" 2
    let podSteps : List (Step ℤ) :=
      [.gc [], .store [pod] [], .reserve "pod" "root.team.jobs" request]
    let gangSteps : List (Step ℤ) := [.gc [], .gc [], .gc [], .store [] [smallGroup], admission]
    let s := podSteps.foldl State.next emptyStores
    let g := gangSteps.foldl State.next emptyStores
    (Run collection emptyStores podSteps s ∧ s.Enabled (.gc ["pod"]) ∧
      "pod" ∈ s.coord.engine.book ∧ "pod" ∈ livePods s.coord.pods ∧
      "pod" ∉ (s.next (.gc ["pod"])).coord.engine.book) ∧
    Run collection emptyStores gangSteps g ∧ g.Enabled (.gc ["team/gang"]) ∧
      "team/gang" ∈ g.coord.engine.gangBook ∧ "team/gang" ∈ liveGroups g.coord.podGroups ∧
      "team/gang" ∉ (g.next (.gc ["team/gang"])).coord.engine.gangBook := by
  intro pod podSteps gangSteps s g
  have hpods : collection.Legal emptyStores podSteps := ⟨trivial, trivial, trivial, trivial⟩
  have hgangs : collection.Legal emptyStores gangSteps :=
    ⟨trivial, visits_empty, trivial, trivial, trivial, trivial⟩
  have hbook : Visits ["pod"] s.coord.engine.book := by decide +kernel
  have hgangBook : Visits ["team/gang"] g.coord.engine.gangBook := by decide +kernel
  exact ⟨⟨hpods.run, hbook, by decide +kernel, by decide +kernel, by decide +kernel⟩, hgangs.run,
    hgangBook, by decide +kernel, by decide +kernel, by decide +kernel⟩

theorem gone_pod_released :
    let pod := barePod "pod" "team" "runner" 2
    let late := barePod "late" "team" "runner" 2
    let steps : List (Step ℤ) := [.store [pod] [], .reserve "pod" "root.team.jobs" request,
      .reserve "gone" "root.team.jobs" request, .gc []]
    let s := (steps.foldl State.next emptyStores).next (.store [pod, late] [])
    OnlyGone s ∧ (s.next (.gc ["gone", "pod"])).coord.engine.book.keys = {"pod"} := by
  intro pod late steps s
  have hsteps : (collection.restrict Quiet).Legal emptyStores steps :=
    ⟨⟨trivial, trivial⟩, ⟨trivial, trivial⟩, ⟨trivial, trivial⟩, ⟨trivial, trivial⟩, trivial⟩
  have hlisted : ∀ uid ∈ (steps.foldl State.next emptyStores).coord.engine.book.keys,
      uid ∈ livePods [pod, late] → uid ∈ livePods [pod] := by decide +kernel
  have hquiet : Quiet (steps.foldl State.next emptyStores) (.store [pod, late] []) :=
    fun _ uid hin => hlisted uid (Finmap.mem_keys.mpr hin)
  have hrun : Run (collection.restrict Quiet) emptyStores (steps ++ [.store [pod, late] []]) s :=
    .snoc hsteps.run ⟨trivial, hquiet⟩
  exact ⟨(collects_only_gone hrun).1, by decide +kernel⟩

end AdScheduler.LedgerCollection
