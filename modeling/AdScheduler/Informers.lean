import AdScheduler.CoordinatorCore

/-! The events that the node and pod informers deliver to the coordinator, in any order. A
handler runs to its end before the next event. The store of the pod informer may be ahead
of the events, so it changes in steps of its own. -/
namespace AdScheduler.Informers
open KeyedMap Resources Manager EngineCore Runs Requests NodeCache Placement CoordinatorCore

/-- What the API never changes of a pod: the node it is bound to, and its scheduler. -/
structure Fixed where
  node : String → String
  scheduler : String → String

/-- The object is a state of the pod with its uid, bound or not yet bound. -/
def Fixed.Of {V : Type*} (fixed : Fixed) (pod : Pod V) : Prop :=
  (pod.nodeName = "" ∨ pod.nodeName = fixed.node pod.uid) ∧
    pod.schedulerName = fixed.scheduler pod.uid

inductive Event (V : Type*)
  | nodeUpsert (name : String) (allocatable : ResourceList V) (inPool : Bool)
  | nodeDelete (name : String)
  | podUpsert (pod : Pod V)
  | podDelete (pod : Pod V)
  | store (pods : List (Pod V))

variable {V : Type*} [CommRing V] [LinearOrder V]

def deliver (c : Coordinator V) : Event V → Coordinator V
  | .nodeUpsert name allocatable inPool => c.onNodeUpsert name allocatable inPool
  | .nodeDelete name => c.onNodeDelete name
  | .podUpsert pod => c.onPodUpsert pod
  | .podDelete pod => c.onPodDelete pod
  | .store pods => { c with pods := pods }

/-- Nodes have names, and a pod that was seen bound is not delivered unbound. -/
def Delivered (fixed : Fixed) (c : Coordinator V) : Event V → Prop
  | .nodeUpsert name _ _ | .nodeDelete name => name ≠ ""
  | .podUpsert pod | .podDelete pod =>
    fixed.Of pod ∧ (pod.uid ∈ c.tracked → pod.nodeName ≠ "")
  | .store pods => ∀ pod ∈ pods, fixed.Of pod

def informers (fixed : Fixed) : Machine (Coordinator V) (Event V) := ⟨Delivered fixed, deliver⟩

/-- What is known of the tracked pods and of the store. -/
structure Known (fixed : Fixed) (c : Coordinator V) : Prop where
  tracked : ∀ uid tp, c.tracked.lookup uid = some tp →
    tp.ours = decide (fixed.scheduler uid = c.cache.schedulerName) ∧ fixed.node uid ≠ ""
  store : ∀ pod ∈ c.pods, fixed.Of pod

section Handlers
variable (c : Coordinator V)

lemma onPodDelete_untracked {pod : Pod V} (h : c.tracked.lookup pod.uid = none) :
    c.onPodDelete pod = c := by
  simp [Coordinator.onPodDelete, h]

lemma onPodDelete_tracked {pod : Pod V} {tp : TrackedPod V}
    (h : c.tracked.lookup pod.uid = some tp) :
    c.onPodDelete pod = { c with
      tracked := c.tracked.erase pod.uid
      cache := c.cache.onPodDeleted pod
      engine := if tp.ours && !tp.gang then c.engine.observeDeleted pod.uid else c.engine } := by
  simp [Coordinator.onPodDelete, h]

lemma onPodUpsert_cases (pod : Pod V) :
    (c.onPodUpsert pod = c ∧
      (pod.nodeName = "" ∨ pod.terminal = false ∧ pod.uid ∈ c.tracked)) ∨
    (c.onPodUpsert pod = c.onPodDelete pod ∧ pod.nodeName ≠ "" ∧ pod.terminal = true) ∨
    (pod.nodeName ≠ "" ∧ pod.terminal = false ∧ pod.uid ∉ c.tracked) := by
  unfold Coordinator.onPodUpsert
  split_ifs with hnode hterm htracked
  · exact .inl ⟨rfl, .inl hnode⟩
  · exact .inr (.inl ⟨rfl, hnode, hterm⟩)
  · exact .inl ⟨rfl, .inr ⟨by simpa using hterm, htracked⟩⟩
  · exact .inr (.inr ⟨hnode, by simpa using hterm, htracked⟩)

lemma onPodDelete_schedulerName (pod : Pod V) :
    (c.onPodDelete pod).cache.schedulerName = c.cache.schedulerName := by
  cases h : c.tracked.lookup pod.uid with
  | none => rw [onPodDelete_untracked c h]
  | some tp =>
    rw [onPodDelete_tracked c h]
    exact Cache.onNode_schedulerName _ _ _

lemma onPodDelete_pods (pod : Pod V) : (c.onPodDelete pod).pods = c.pods := by
  cases h : c.tracked.lookup pod.uid with
  | none => rw [onPodDelete_untracked c h]
  | some tp => rw [onPodDelete_tracked c h]

lemma onPodDelete_lookup (pod : Pod V) (uid : String) :
    (c.onPodDelete pod).tracked.lookup uid =
      if uid = pod.uid then none else c.tracked.lookup uid := by
  cases h : c.tracked.lookup pod.uid with
  | none =>
    rw [onPodDelete_untracked c h]
    split_ifs with hu
    · rw [hu, h]
    · rfl
  | some tp =>
    rw [onPodDelete_tracked c h]
    exact lookup_erase_ite _ _ _

end Handlers

section Effects

/-- All that a node or pod event can do to the coordinator. For the engine it is a run of
the calls of the pod handlers. -/
structure Effect (c c' : Coordinator V) : Prop where
  engine : podCalls.Reaches c.engine c'.engine
  rest : c' = { c with
    engine := c'.engine
    cache := c'.cache
    tracked := c'.tracked
    pods := c'.pods }

lemma Effect.refl (c : Coordinator V) : Effect c c := ⟨.refl _ _, rfl⟩

lemma Effect.trans {c c' c'' : Coordinator V} (h : Effect c c') (h' : Effect c' c'') :
    Effect c c'' := by
  refine ⟨h.engine.trans h'.engine, ?_⟩
  rw [h'.rest, h.rest]

lemma effect_onPodDelete (c : Coordinator V) (pod : Pod V) : Effect c (c.onPodDelete pod) := by
  cases htp : c.tracked.lookup pod.uid with
  | none =>
    rw [onPodDelete_untracked c htp]
    exact .refl c
  | some tp =>
    rw [onPodDelete_tracked c htp]
    refine ⟨?_, rfl⟩
    dsimp only
    split
    · exact .step (a := Call.observeDeleted pod.uid) ⟨trivial, trivial⟩
    · exact .refl _ _

lemma releaseNodePods_invariant {c : Coordinator V} {I : Coordinator V → Prop} {name : String}
    (h : I c) (hstep : ∀ c' pod, I c' → pod ∈ c.pods → pod.nodeName = name →
      pod.schedulerName = c.cache.schedulerName → I (c'.onPodDelete pod)) :
    I (c.releaseNodePods name) := by
  refine List.foldlRecOn _ _ h fun c' hc' pod hpod => ?_
  obtain ⟨hmem, hfilter⟩ := List.mem_filter.mp hpod
  rw [decide_eq_true_eq] at hfilter
  exact hstep c' pod hc' hmem hfilter.1 hfilter.2

lemma effect_deliver (c : Coordinator V) (event : Event V) : Effect c (deliver c event) := by
  cases event with
  | nodeUpsert | store => exact ⟨.refl _ _, rfl⟩
  | nodeDelete name =>
    have hremoved : Effect c { c with cache := c.cache.removeNode name } := ⟨.refl _ _, rfl⟩
    exact releaseNodePods_invariant (I := Effect c) hremoved
      fun c' pod hc' _ _ _ => hc'.trans (effect_onPodDelete c' pod)
  | podUpsert pod =>
    rw [deliver]
    rcases onPodUpsert_cases c pod with ⟨he, -⟩ | ⟨he, -⟩ | ⟨hnode, hrun, hnew⟩
    · rw [he]
      exact .refl c
    · rw [he]
      exact effect_onPodDelete c pod
    · rw [Coordinator.onPodUpsert_new c hnode hrun hnew]
      refine ⟨?_, rfl⟩
      cases c.engine.tree with
      | none => exact .refl _ _
      | some t => exact reaches_bookTracked t c.engine _
  | podDelete pod => exact effect_onPodDelete c pod

lemma deliver_podGroups (c : Coordinator V) (event : Event V) :
    (deliver c event).podGroups = c.podGroups := by
  rw [(effect_deliver c event).rest]

end Effects

section Facts
variable {fixed : Fixed} {c : Coordinator V}

lemma known_onPodDelete (h : Known fixed c) (pod : Pod V) : Known fixed (c.onPodDelete pod) := by
  refine ⟨fun uid tp htp => ?_, ?_⟩
  · rw [onPodDelete_lookup] at htp
    rw [onPodDelete_schedulerName]
    split_ifs at htp
    exact h.tracked uid tp htp
  · rw [onPodDelete_pods]
    exact h.store

lemma known_onPodUpsert (h : Known fixed c) {pod : Pod V} (hpod : fixed.Of pod) :
    Known fixed (c.onPodUpsert pod) := by
  rcases onPodUpsert_cases c pod with ⟨he, _⟩ | ⟨he, _⟩ | ⟨hnode, hrun, hnew⟩
  · rwa [he]
  · rw [he]
    exact known_onPodDelete h pod
  · rw [Coordinator.onPodUpsert_new c hnode hrun hnew]
    refine ⟨fun uid tp htp => ?_, h.store⟩
    rw [Cache.onPodBound_schedulerName]
    rcases lookup_insert_cases htp with ⟨rfl, rfl⟩ | ⟨-, htp⟩
    · refine ⟨?_, fun hnone => ?_⟩
      · simp [Coordinator.track, Cache.isOurs, hpod.2]
      · exact hnode (hpod.1.elim id fun hn => hn.trans hnone)
    · exact h.tracked uid tp htp

lemma known_deliver (h : Known fixed c) {e : Event V} (he : Delivered fixed c e) :
    Known fixed (deliver c e) := by
  cases e with
  | nodeUpsert name allocatable inPool => exact ⟨h.tracked, h.store⟩
  | nodeDelete name =>
    have hremoved : Known fixed { c with cache := c.cache.removeNode name } :=
      ⟨h.tracked, h.store⟩
    exact releaseNodePods_invariant hremoved fun c' pod hc' _ _ _ => known_onPodDelete hc' pod
  | podUpsert pod => exact known_onPodUpsert h he.1
  | podDelete pod => exact known_onPodDelete h pod
  | store pods => exact ⟨h.tracked, he⟩

lemma known_new (fixed : Fixed) (e : Engine V) : Known fixed (newCoordinator e) := by
  constructor <;> simp [newCoordinator]

end Facts

def nodeAdded : Event ℤ := .nodeUpsert "node" (Finmap.singleton "cpu" ⟨0, 10⟩) true

def boundPod (cpu : ℤ) : Pod ℤ := { barePod "pod" "team" "runner" cpu with nodeName := "node" }

end AdScheduler.Informers
