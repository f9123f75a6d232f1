import AdScheduler.Informers

/-! The tallies of the nodes against the tracked pods. A tally is kept by adding and
subtracting requests as events come in, and it should be the sum of what is tracked. -/
namespace AdScheduler.NodeTallies
open KeyedMap Resources EngineCore Runs Requests NodeCache CoordinatorCore Informers

section Tallies
variable {V : Type*} [CommRing V] [LinearOrder V]

/-- The tally of our pods, or of the foreign ones. -/
def tallyOf (node : Node V) : Bool → Resource V
  | true => node.ours
  | false => node.foreign

def share (fixed : Fixed) (mine : Bool) (n d : String) (uid : String) (tp : TrackedPod V) : V :=
  if tp.ours = mine ∧ fixed.node uid = n then get tp.req d else 0

/-- The requests recorded for the tracked pods on a node. -/
def recorded (fixed : Fixed) (c : Coordinator V) (mine : Bool) (n d : String) : V :=
  total c.tracked (share fixed mine n d)

def Tallied (fixed : Fixed) (c : Coordinator V) : Prop :=
  ∀ n node, c.cache.nodes.lookup n = some node → ∀ mine d,
    get (tallyOf node mine) d = recorded fixed c mine n d

/-- The object asks for what was recorded when its pod was tracked, or its node is not
known. -/
def Reversible (c : Coordinator V) (pod : Pod V) : Prop :=
  ∀ tp, c.tracked.lookup pod.uid = some tp → pod.nodeName ∈ c.cache.nodes →
    ∀ d, get (effectiveRequest pod) d = get tp.req d

/-- A node is added only while nothing is recorded on it, and a pod is dropped with the
request it was tracked with. -/
def Accountable (fixed : Fixed) (c : Coordinator V) : Event V → Prop
  | .nodeUpsert name _ _ => name ∉ c.cache.nodes → ∀ mine d, recorded fixed c mine name d = 0
  | .podUpsert pod => pod.nodeName ≠ "" → pod.terminal = true → Reversible c pod
  | .podDelete pod => Reversible c pod
  | _ => True

omit [CommRing V] [LinearOrder V] in
lemma onNode_lookup (cache : Cache V) {pod : Pod V} (hnode : pod.nodeName ≠ "")
    (fn : Node V → Node V) (n : String) :
    (cache.onNode pod fn).nodes.lookup n =
      if n = pod.nodeName then (cache.nodes.lookup n).map fn else cache.nodes.lookup n := by
  rw [Cache.onNode, if_neg hnode]
  cases h : cache.nodes.lookup pod.nodeName with
  | none =>
    split_ifs with hn
    · subst hn
      rw [h, Option.map_none]
    · rfl
  | some node =>
    dsimp only
    rw [lookup_insert_ite]
    split_ifs with hn
    · subst hn
      rw [h, Option.map_some]
    · rfl

lemma tally_add (mine mine' : Bool) (req : Resource V) (node : Node V) (d : String) :
    get (tallyOf ((if mine' then Node.addOurs req else Node.addForeign req) node) mine) d =
      get (tallyOf node mine) d + if mine' = mine then get req d else 0 := by
  cases mine <;> cases mine' <;> simp [tallyOf, Node.addOurs, Node.addForeign]

lemma tally_remove (mine mine' : Bool) (req : Resource V) (node : Node V) (d : String) :
    get (tallyOf ((if mine' then Node.removeOurs req else Node.removeForeign req) node) mine) d =
      get (tallyOf node mine) d - if mine' = mine then get req d else 0 := by
  cases mine <;> cases mine' <;> simp [tallyOf, Node.removeOurs, Node.removeForeign]

end Tallies

section Steps
variable {V : Type*} [CommRing V] [LinearOrder V] {fixed : Fixed} {c : Coordinator V}

lemma tallied_track (h : Tallied fixed c) {pod : Pod V} (hpod : fixed.Of pod)
    (hnode : pod.nodeName ≠ "") (hrun : pod.terminal = false) (hnew : pod.uid ∉ c.tracked) :
    Tallied fixed (c.onPodUpsert pod) := by
  have hat : pod.nodeName = fixed.node pod.uid := hpod.1.resolve_left hnode
  rw [Coordinator.onPodUpsert_new c hnode hrun hnew]
  intro n node hlook mine d
  have hrec : total (c.tracked.insert pod.uid (c.track pod)) (share fixed mine n d) =
      share fixed mine n d pod.uid (c.track pod) + recorded fixed c mine n d :=
    total_insert (Finmap.lookup_eq_none.mpr hnew) _ _
  have hshare : share fixed mine n d pod.uid (c.track pod) =
      if c.cache.isOurs pod = mine ∧ pod.nodeName = n then get (effectiveRequest pod) d else 0 := by
    rw [hat]
    rfl
  rw [recorded, hrec, hshare]
  simp only [Cache.onPodBound, onNode_lookup _ hnode] at hlook
  by_cases hn : n = pod.nodeName
  · rw [if_pos hn] at hlook
    obtain ⟨old, hold, rfl⟩ := Option.map_eq_some_iff.mp hlook
    rw [tally_add, h n old hold, add_comm]
    simp [hn]
  · rw [if_neg hn] at hlook
    rw [h n node hlook, if_neg (fun he => hn he.2.symm), zero_add]

lemma recorded_onPodDelete {pod : Pod V} {tp : TrackedPod V}
    (htp : c.tracked.lookup pod.uid = some tp) (mine : Bool) (n d : String) :
    recorded fixed (c.onPodDelete pod) mine n d =
      recorded fixed c mine n d - share fixed mine n d pod.uid tp := by
  simp only [recorded, onPodDelete_tracked c htp]
  rw [← total_erase htp, add_sub_cancel_left]

lemma tally_onPodDeleted (h : Tallied fixed c) {pod : Pod V} (hnode : pod.nodeName ≠ "")
    {n : String} {node : Node V} (hlook : (c.cache.onPodDeleted pod).nodes.lookup n = some node)
    (mine : Bool) (d : String) :
    get (tallyOf node mine) d = recorded fixed c mine n d -
      if c.cache.isOurs pod = mine ∧ pod.nodeName = n then get (effectiveRequest pod) d else 0 := by
  simp only [Cache.onPodDeleted, onNode_lookup _ hnode] at hlook
  by_cases hn : n = pod.nodeName
  · rw [if_pos hn] at hlook
    obtain ⟨old, hold, rfl⟩ := Option.map_eq_some_iff.mp hlook
    rw [tally_remove, h n old hold]
    simp [hn]
  · rw [if_neg hn] at hlook
    rw [h n node hlook, if_neg (fun he => hn he.2.symm), sub_zero]

lemma tallied_onPodDelete_iff (h : Tallied fixed c) (hk : Known fixed c) {pod : Pod V}
    (hpod : fixed.Of pod) (hbound : pod.uid ∈ c.tracked → pod.nodeName ≠ "") :
    Tallied fixed (c.onPodDelete pod) ↔ Reversible c pod := by
  cases htp : c.tracked.lookup pod.uid with
  | none =>
    rw [onPodDelete_untracked c htp]
    refine ⟨fun _ tp htp' => ?_, fun _ => h⟩
    rw [htp] at htp'
    cases htp'
  | some tp =>
    have hnode := hbound (Finmap.mem_of_lookup_eq_some htp)
    have hat : pod.nodeName = fixed.node pod.uid := hpod.1.resolve_left hnode
    have hours : c.cache.isOurs pod = tp.ours := by
      rw [(hk.tracked pod.uid tp htp).1, Cache.isOurs, hpod.2]
    have hcache : (c.onPodDelete pod).cache = c.cache.onPodDeleted pod := by
      rw [onPodDelete_tracked c htp]
    constructor
    · intro h' tp' htp' hmem d
      obtain rfl : tp = tp' := Option.some.inj (htp.symm.trans htp')
      obtain ⟨node, hlook⟩ := Finmap.mem_iff.mp hmem
      have hpresent :
          ∃ node', (c.cache.onPodDeleted pod).nodes.lookup pod.nodeName = some node' := by
        simp only [Cache.onPodDeleted, onNode_lookup _ hnode, hlook, if_true, Option.map_some]
        exact ⟨_, rfl⟩
      obtain ⟨node', hlook'⟩ := hpresent
      have hnew := h' pod.nodeName node' (by rw [hcache]; exact hlook') tp.ours d
      rw [tally_onPodDeleted h hnode hlook', recorded_onPodDelete htp, hours] at hnew
      simpa [share, ← hat] using hnew
    · intro hrev n node hlook mine d
      rw [hcache] at hlook
      rw [tally_onPodDeleted h hnode hlook, recorded_onPodDelete htp, hours, share, ← hat]
      congr 1
      by_cases hn : pod.nodeName = n
      · subst hn
        have hmem : pod.nodeName ∈ c.cache.nodes := by
          by_contra hno
          simp only [Cache.onPodDeleted, onNode_lookup _ hnode, if_true,
            Finmap.lookup_eq_none.mpr hno, Option.map_none] at hlook
          cases hlook
        rw [hrev tp htp hmem d]
      · simp [hn]

lemma tallied_onNodeUpsert_iff (h : Tallied fixed c) (name : String)
    (allocatable : ResourceList V) (inPool : Bool) :
    Tallied fixed (c.onNodeUpsert name allocatable inPool) ↔
      (name ∉ c.cache.nodes → ∀ mine d, recorded fixed c mine name d = 0) := by
  cases hname : c.cache.nodes.lookup name with
  | some old =>
    have hmem := Finmap.mem_of_lookup_eq_some hname
    refine ⟨fun _ hno => absurd hmem hno, fun _ n node hlook mine d => ?_⟩
    simp only [Coordinator.onNodeUpsert, Cache.upsertNode, hname, lookup_insert_ite] at hlook
    split_ifs at hlook with hn
    · cases hlook
      rw [hn]
      cases mine with
      | true => exact h name old hname true d
      | false => exact h name old hname false d
    · exact h n node hlook mine d
  | none =>
    have hzero : ∀ mine d,
        get (tallyOf (V := V) ⟨inPool, fromResourceList allocatable, ∅, ∅⟩ mine) d = 0 := by
      intro mine d
      cases mine <;> rfl
    constructor
    · intro h' _ mine d
      have hnew := h' name ⟨inPool, fromResourceList allocatable, ∅, ∅⟩
        (by simp [Coordinator.onNodeUpsert, Cache.upsertNode, hname]) mine d
      rw [hzero] at hnew
      exact hnew.symm
    · intro hrec n node hlook mine d
      simp only [Coordinator.onNodeUpsert, Cache.upsertNode, hname, lookup_insert_ite] at hlook
      split_ifs at hlook with hn
      · cases hlook
        rw [hzero, hn]
        exact (hrec (Finmap.lookup_eq_none.mp hname) mine d).symm
      · exact h n node hlook mine d

lemma notMem_onPodDelete {name : String} (hno : name ∉ c.cache.nodes) {pod : Pod V}
    (hnode : pod.nodeName = name) : name ∉ (c.onPodDelete pod).cache.nodes := by
  cases htp : c.tracked.lookup pod.uid with
  | none => rwa [onPodDelete_untracked c htp]
  | some tp =>
    subst hnode
    have hlook := Finmap.lookup_eq_none.mpr hno
    rw [onPodDelete_tracked c htp]
    simp only [Cache.onPodDeleted, Cache.onNode, hlook]
    split_ifs <;> exact hno

lemma tallied_onNodeDelete (h : Tallied fixed c) (hk : Known fixed c) {name : String}
    (hname : name ≠ "") : Tallied fixed (c.onNodeDelete name) := by
  let removed : Coordinator V := { c with cache := c.cache.removeNode name }
  have hstart : Tallied fixed removed ∧ Known fixed removed ∧ name ∉ removed.cache.nodes := by
    refine ⟨fun n node hlook mine d => ?_, ⟨hk.tracked, hk.store⟩, ?_⟩
    · exact h n node (lookup_of_erase hlook) mine d
    · simp [removed, Cache.removeNode]
  refine (releaseNodePods_invariant
    (I := fun c' => Tallied fixed c' ∧ Known fixed c' ∧ name ∉ c'.cache.nodes) hstart ?_).1
  intro c' pod ⟨ht', hk', hno⟩ hpod hnode _
  have hrev : Reversible c' pod := by
    intro tp _ hmem
    rw [hnode] at hmem
    exact absurd hmem hno
  have hbound : pod.uid ∈ c'.tracked → pod.nodeName ≠ "" := fun _ => by rwa [hnode]
  exact ⟨(tallied_onPodDelete_iff ht' hk' (hk.store pod hpod) hbound).mpr hrev,
    known_onPodDelete hk' pod, notMem_onPodDelete hno hnode⟩

lemma tallied_deliver_iff (h : Tallied fixed c) (hk : Known fixed c) {e : Event V}
    (he : Delivered fixed c e) : Tallied fixed (deliver c e) ↔ Accountable fixed c e := by
  cases e with
  | nodeUpsert name allocatable inPool => exact tallied_onNodeUpsert_iff h name allocatable inPool
  | nodeDelete name => exact iff_of_true (tallied_onNodeDelete h hk he) trivial
  | podUpsert pod =>
    rcases onPodUpsert_cases c pod with ⟨hsame, hwhy⟩ | ⟨hdrop, hnode, hterm⟩ | ⟨hnode, hrun, hnew⟩
    · have hkept : Tallied fixed (c.onPodUpsert pod) := by rwa [hsame]
      refine iff_of_true hkept fun hnode hterm => ?_
      rcases hwhy with hunbound | ⟨hrun, _⟩
      · exact absurd hunbound hnode
      · rw [hrun] at hterm
        cases hterm
    · change Tallied fixed (c.onPodUpsert pod) ↔ _
      rw [hdrop, tallied_onPodDelete_iff h hk he.1 he.2]
      exact ⟨fun hrev _ _ => hrev, fun hrev => hrev hnode hterm⟩
    · refine iff_of_true (tallied_track h he.1 hnode hrun hnew) fun _ hterm => ?_
      rw [hrun] at hterm
      cases hterm
  | podDelete pod => exact tallied_onPodDelete_iff h hk he.1 he.2
  | store pods => exact iff_of_true h trivial

end Steps

section Bounds
variable {fixed : Fixed} {c : Coordinator ℤ}

/-- The objects are valid: no request and no allocatable amount is negative. -/
def Valid : Event ℤ → Prop
  | .nodeUpsert _ allocatable _ => ∀ d, 0 ≤ get (fromResourceList allocatable) d
  | .podUpsert pod => ∀ d, 0 ≤ get (effectiveRequest pod) d
  | _ => True

/-- No recorded request and no allocatable amount is negative. -/
structure Bounded (c : Coordinator ℤ) : Prop where
  tracked : ∀ uid tp, c.tracked.lookup uid = some tp → ∀ d, 0 ≤ get tp.req d
  nodes : ∀ n node, c.cache.nodes.lookup n = some node → ∀ d, 0 ≤ get node.allocatable d

lemma onNode_allocatable {cache : Cache ℤ} {pod : Pod ℤ} {fn : Node ℤ → Node ℤ}
    (hfn : ∀ node, (fn node).allocatable = node.allocatable) {n : String} {node : Node ℤ}
    (hlook : (cache.onNode pod fn).nodes.lookup n = some node) :
    ∃ old, cache.nodes.lookup n = some old ∧ node.allocatable = old.allocatable := by
  by_cases hnode : pod.nodeName = ""
  · rw [Cache.onNode, if_pos hnode] at hlook
    exact ⟨node, hlook, rfl⟩
  · rw [onNode_lookup _ hnode] at hlook
    split_ifs at hlook
    · obtain ⟨old, hold, rfl⟩ := Option.map_eq_some_iff.mp hlook
      exact ⟨old, hold, hfn old⟩
    · exact ⟨node, hlook, rfl⟩

lemma bounded_onPodDelete (h : Bounded c) (pod : Pod ℤ) : Bounded (c.onPodDelete pod) := by
  refine ⟨fun uid tp htp => ?_, fun n node hlook => ?_⟩
  · rw [onPodDelete_lookup] at htp
    split_ifs at htp
    exact h.tracked uid tp htp
  · cases htp : c.tracked.lookup pod.uid with
    | none =>
      rw [onPodDelete_untracked c htp] at hlook
      exact h.nodes n node hlook
    | some tp =>
      rw [onPodDelete_tracked c htp] at hlook
      obtain ⟨old, hold, ha⟩ := onNode_allocatable (fun node => by split_ifs <;> rfl) hlook
      rw [ha]
      exact h.nodes n old hold

lemma bounded_onPodUpsert (h : Bounded c) {pod : Pod ℤ}
    (hvalid : ∀ d, 0 ≤ get (effectiveRequest pod) d) : Bounded (c.onPodUpsert pod) := by
  rcases onPodUpsert_cases c pod with ⟨he, _⟩ | ⟨he, _⟩ | ⟨hnode, hrun, hnew⟩
  · rwa [he]
  · rw [he]
    exact bounded_onPodDelete h pod
  · rw [Coordinator.onPodUpsert_new c hnode hrun hnew]
    refine ⟨fun uid tp htp => ?_, fun n node hlook => ?_⟩
    · rcases lookup_insert_cases htp with ⟨-, rfl⟩ | ⟨-, htp⟩
      · exact hvalid
      · exact h.tracked uid tp htp
    · obtain ⟨old, hold, ha⟩ := onNode_allocatable (fun node => by split_ifs <;> rfl) hlook
      rw [ha]
      exact h.nodes n old hold

lemma bounded_deliver (h : Bounded c) {e : Event ℤ} (hvalid : Valid e) :
    Bounded (deliver c e) := by
  cases e with
  | nodeUpsert name allocatable inPool =>
    refine ⟨h.tracked, fun n node hlook => ?_⟩
    simp only [deliver, Coordinator.onNodeUpsert, Cache.upsertNode, lookup_insert_ite] at hlook
    split_ifs at hlook
    · have ha : node.allocatable = fromResourceList allocatable := by
        cases hname : c.cache.nodes.lookup name <;> simp [hname] at hlook <;> rw [← hlook]
      rw [ha]
      exact hvalid
    · exact h.nodes n node hlook
  | nodeDelete name =>
    refine releaseNodePods_invariant ⟨h.tracked, fun n node hlook => ?_⟩
      fun c' pod hc' _ _ _ => bounded_onPodDelete hc' pod
    exact h.nodes n node (lookup_of_erase hlook)
  | podUpsert pod => exact bounded_onPodUpsert h hvalid
  | podDelete pod => exact bounded_onPodDelete h pod
  | store pods => exact ⟨h.tracked, h.nodes⟩

lemma recorded_nonneg (h : Bounded c) (mine : Bool) (n d : String) :
    0 ≤ recorded fixed c mine n d := by
  apply total_nonneg
  intro uid tp htp
  rw [share]
  split_ifs
  · exact h.tracked uid tp htp d
  · exact le_rfl

lemma available_le {node : Node ℤ} {d : String} (ha : 0 ≤ get node.allocatable d)
    (ho : 0 ≤ get node.ours d) (hf : 0 ≤ get node.foreign d) :
    get node.available d ≤ get node.allocatable d := by
  rw [Node.available, clampNonNegative, get_tabulate]
  split_ifs
  · rw [get_sub, get_sub]
    omega
  · exact ha

end Bounds

/-- Whatever the order of the events, as long as each is accountable, the tallies of every
node are the sums of what is tracked; with valid objects they are not negative, and no node
offers more than it has. An event that is not accountable breaks the sums at once. -/
theorem tallies_match_tracked {fixed : Fixed} {e : Engine ℤ} {events : List (Event ℤ)}
    {c : Coordinator ℤ}
    (h : Run ((informers fixed).restrict (Accountable fixed)) (newCoordinator e) events c) :
    Tallied fixed c ∧
    ((∀ event ∈ events, Valid event) → ∀ n node, c.cache.nodes.lookup n = some node →
      (∀ mine d, 0 ≤ get (tallyOf node mine) d) ∧
        ∀ d, get node.available d ≤ get node.allocatable d) ∧
    ∀ event, Delivered fixed c event →
      (Tallied fixed (deliver c event) ↔ Accountable fixed c event) := by
  have hinv : Tallied fixed c ∧ Known fixed c := by
    apply h.invariant
    · refine ⟨fun n node hlook => ?_, known_new fixed e⟩
      simp [newCoordinator] at hlook
    · intro c' event hc' henabled
      exact ⟨(tallied_deliver_iff hc'.1 hc'.2 henabled.1).mpr henabled.2,
        known_deliver hc'.2 henabled.1⟩
  have hbounded : (∀ event ∈ events, Valid event) → Bounded c := by
    refine h.invariant_history (I := fun es c' => (∀ event ∈ es, Valid event) → Bounded c')
      (fun _ => ?_) fun es c' event ih _ hvalid => ?_
    · constructor <;> simp [newCoordinator]
    · have hpast : Bounded c' := ih fun x hx => hvalid x (List.mem_append_left _ hx)
      exact bounded_deliver hpast (hvalid event (by simp))
  refine ⟨hinv.1, fun hvalid n node hlook => ?_, fun event hevent =>
    tallied_deliver_iff hinv.1 hinv.2 hevent⟩
  have hb := hbounded hvalid
  have hnonneg : ∀ mine d, 0 ≤ get (tallyOf node mine) d := by
    intro mine d
    rw [hinv.1 n node hlook]
    exact recorded_nonneg hb mine n d
  exact ⟨hnonneg, fun d =>
    available_le (hb.nodes n node hlook d) (hnonneg true d) (hnonneg false d)⟩

def oneNode : Fixed where
  node _ := "node"
  scheduler uid := if uid = "foreign" then "other" else "ad-scheduler"

def foreignPod (cpu : ℤ) : Pod ℤ :=
  { barePod "foreign" "team" "runner" cpu with nodeName := "node", schedulerName := "other" }

def cpuAt (c : Coordinator ℤ) : Option (ℤ × ℤ × ℤ) :=
  (c.cache.nodes.lookup "node").map fun node =>
    (get node.ours "cpu", get node.foreign "cpu", get node.available "cpu")

/-- A pod seen before its node is never counted, nor is a foreign pod once its node went and
came back; and a pod that was resized takes more from the tally than it put in. -/
theorem tallies_follow_event_order :
    let run := fun events : List (Event ℤ) => events.foldl deliver (newCoordinator (newEngine 60))
    let early := [.podUpsert (boundPod 2), nodeAdded]
    let back := [nodeAdded, .podUpsert (foreignPod 2), .nodeDelete "node", nodeAdded]
    let resized := [nodeAdded, .podUpsert (boundPod 2), .podDelete (boundPod 5)]
    (∀ events ∈ [early, back, resized],
      Run (informers oneNode) (newCoordinator (newEngine 60)) events (run events)) ∧
    cpuAt (run early) = some (0, 0, 10) ∧ recorded oneNode (run early) true "node" "cpu" = 2 ∧
    cpuAt (run back) = some (0, 0, 10) ∧ recorded oneNode (run back) false "node" "cpu" = 2 ∧
    cpuAt (run resized) = some (-3, 0, 13) ∧
      recorded oneNode (run resized) true "node" "cpu" = 0 := by
  intro run early back resized
  have hof : ∀ cpu, oneNode.Of (boundPod cpu) := fun _ => ⟨.inr rfl, rfl⟩
  have hforeign : ∀ cpu, oneNode.Of (foreignPod cpu) := fun _ => ⟨.inr rfl, rfl⟩
  have hnode : "node" ≠ "" := by decide
  refine ⟨?_, by decide +kernel, by decide +kernel, by decide +kernel, by decide +kernel,
    by decide +kernel, by decide +kernel⟩
  intro events hevents
  have hlegal : (informers oneNode).Legal (newCoordinator (newEngine 60)) events := by
    simp only [List.mem_cons, List.not_mem_nil, or_false] at hevents
    rcases hevents with rfl | rfl | rfl
    · exact ⟨⟨hof 2, fun _ => hnode⟩, hnode, trivial⟩
    · exact ⟨hnode, ⟨hforeign 2, fun _ => hnode⟩, hnode, hnode, trivial⟩
    · exact ⟨hnode, ⟨hof 2, fun _ => hnode⟩, ⟨hof 5, fun _ => hnode⟩, trivial⟩
  exact hlegal.run

theorem unresized_pod_leaves_tally :
    let c := [nodeAdded, .podUpsert (boundPod 2), .podUpsert (foreignPod 3),
      .podDelete (boundPod 2)].foldl deliver (newCoordinator (newEngine 60))
    cpuAt c = some (0, 3, 7) ∧ Tallied oneNode c ∧
      ∀ node, c.cache.nodes.lookup "node" = some node →
        ∀ d, get node.available d ≤ get node.allocatable d := by
  intro c
  have hnode : "node" ≠ "" := by decide
  have hrec : ([nodeAdded, .podUpsert (boundPod 2), .podUpsert (foreignPod 3)].foldl deliver
      (newCoordinator (newEngine 60))).tracked.lookup "pod" =
        some ((newCoordinator (newEngine 60)).track (boundPod 2)) := by rfl
  have hlegal : ((informers oneNode).restrict (Accountable oneNode)).Legal
      (newCoordinator (newEngine 60)) [nodeAdded, .podUpsert (boundPod 2),
        .podUpsert (foreignPod 3), .podDelete (boundPod 2)] := by
    refine ⟨⟨hnode, fun _ mine d => ?_⟩, ⟨⟨⟨.inr rfl, rfl⟩, fun _ => hnode⟩, fun _ ht => ?_⟩,
      ⟨⟨⟨.inr rfl, rfl⟩, fun _ => hnode⟩, fun _ ht => ?_⟩,
      ⟨⟨⟨.inr rfl, rfl⟩, fun _ => hnode⟩, fun tp htp _ d => ?_⟩, trivial⟩
    · cases mine <;> rfl
    · exact absurd ht (by decide)
    · exact absurd ht (by decide)
    · obtain rfl := Option.some.inj (hrec.symm.trans htp)
      rfl
  have hall := tallies_match_tracked hlegal.run
  refine ⟨by decide +kernel, hall.1, fun node hlook => (hall.2.1 ?_ "node" node hlook).2⟩
  have hreq : ∀ cpu ∈ [(2 : ℤ), 3], ∀ d ∈ (effectiveRequest (boundPod cpu)).keys,
      0 ≤ get (effectiveRequest (boundPod cpu)) d := by decide +kernel
  intro event hevent
  simp only [List.mem_cons, List.not_mem_nil, or_false] at hevent
  rcases hevent with rfl | rfl | rfl | rfl
  · exact get_nonneg_of_keys (by decide +kernel)
  · exact get_nonneg_of_keys (hreq 2 (by simp))
  · exact get_nonneg_of_keys (hreq 3 (by simp))
  · trivial

end AdScheduler.NodeTallies
