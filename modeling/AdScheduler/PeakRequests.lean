import AdScheduler.Requests

/-! The effective request of a pod against the containers that run at each moment of
its life. The init containers start one after another; a restartable one keeps running,
an ordinary one ends before the next starts; then the app containers run beside all the
restartable ones. The readings of the scan hold over any integer type, so that the exact
numbers and the wrap-around ones share them. -/
namespace AdScheduler.PeakRequests
open KeyedMap Resources Requests

variable {V : Type*} [CommRing V]

def asked (c : Container V) (d : String) : V := (c.requests.lookup d).elim 0 (quantityToUnit d)

def restartable (c : Container V) : Bool := decide (c.restartPolicy = some .always)

def load (cs : List (Container V)) (d : String) : V := (cs.map (asked · d)).sum

/-- The containers that run once the pod is initialised. -/
def ready (pod : Pod V) : List (Container V) :=
  pod.containers ++ pod.initContainers.filter restartable

/-- The containers that run together at one moment of the pod's life. -/
inductive Running (pod : Pod V) : List (Container V) → Prop
  | starting {before after : List (Container V)} {c : Container V}
      (h : pod.initContainers = before ++ c :: after) :
      Running pod (before.filter restartable ++ [c])
  | initialised : Running pod (ready pod)

def overheadOf (pod : Pod V) (d : String) : V :=
  pod.overhead.elim 0 fun overhead => (overhead.lookup d).elim 0 (quantityToUnit d)

def loads (pod : Pod V) (d : String) : Set V := {x | ∃ cs, Running pod cs ∧ load cs d = x}

def startingLoads (inits : List (Container V)) (d : String) : Set V :=
  {x | ∃ before c after, inits = before ++ c :: after ∧
    load (before.filter restartable ++ [c]) d = x}

lemma loads_eq_insert (pod : Pod V) (d : String) :
    loads pod d = insert (load (ready pod) d) (startingLoads pod.initContainers d) := by
  ext x
  constructor
  · rintro ⟨cs, hrun, rfl⟩
    cases hrun with
    | starting h => exact Or.inr ⟨_, _, _, h, rfl⟩
    | initialised => exact Or.inl rfl
  · rintro (rfl | ⟨before, c, after, h, rfl⟩)
    · exact ⟨_, .initialised, rfl⟩
    · exact ⟨_, .starting h, rfl⟩

omit [CommRing V] in
lemma mem_of_running {pod : Pod V} {cs : List (Container V)} (h : Running pod cs) {c : Container V}
    (hc : c ∈ cs) : c ∈ pod.containers ++ pod.initContainers := by
  cases h with
  | starting h =>
    rw [h]
    simp only [List.mem_append, List.mem_filter, List.mem_cons] at hc ⊢
    tauto
  | initialised =>
    simp only [ready, List.mem_append, List.mem_filter] at hc ⊢
    tauto

@[simp] lemma load_nil (d : String) : load ([] : List (Container V)) d = 0 := rfl

@[simp] lemma load_append (cs ds : List (Container V)) (d : String) :
    load (cs ++ ds) d = load cs d + load ds d := by simp [load]

@[simp] lemma load_singleton (c : Container V) (d : String) : load [c] d = asked c d := by
  simp [load]

lemma startingLoads_concat (inits : List (Container V)) (c : Container V) (d : String) :
    startingLoads (inits ++ [c]) d =
      insert (load (inits.filter restartable ++ [c]) d) (startingLoads inits d) := by
  ext x
  constructor
  · rintro ⟨before, c', after, h, rfl⟩
    rcases List.eq_nil_or_concat after with rfl | ⟨after', last, rfl⟩
    · obtain ⟨rfl, hc⟩ := List.append_inj' h rfl
      cases hc
      exact Or.inl rfl
    · have hsplit : inits ++ [c] = (before ++ c' :: after') ++ [last] := by simpa using h
      obtain ⟨rfl, -⟩ := List.append_inj' hsplit rfl
      exact Or.inr ⟨before, c', after', rfl, rfl⟩
  · rintro (rfl | ⟨before, c', after, rfl, rfl⟩)
    · exact ⟨inits, c, [], rfl, rfl⟩
    · exact ⟨before, c', after ++ [c], by simp, rfl⟩

variable [LinearOrder V]

/-- The running totals after some of the init containers. -/
structure Scanned (containers inits : List (Container V)) (s : InitScan V) (d : String) : Prop where
  reqs : get s.reqs d = load (containers ++ inits.filter restartable) d
  restartableInit : get s.restartableInit d = load (inits.filter restartable) d
  initPeak : IsGreatest (insert 0 (startingLoads inits d)) (get s.initPeak d)

lemma Scanned.step {containers inits : List (Container V)} {s : InitScan V} {d : String}
    (hs : Scanned containers inits s d) (c : Container V) :
    Scanned containers (inits ++ [c]) (s.step c) d := by
  have hask : get (fromResourceList c.requests) d = asked c d := get_fromQuantityMap c.requests d
  have hnonneg : 0 ≤ get s.initPeak d := hs.initPeak.2 (Set.mem_insert 0 _)
  -- both kinds raise the peak to the sum that is met when the container starts
  have hpeak {r : Resource V} (hr : get r d = load (inits.filter restartable ++ [c]) d) :
      IsGreatest (insert 0 (startingLoads (inits ++ [c]) d))
          (get (Resources.max s.initPeak r) d) := by
    rw [get_max hnonneg, hr, startingLoads_concat, Set.insert_comm, max_comm]
    exact hs.initPeak.insert _
  by_cases hc : c.restartPolicy = some .always
  · have hkeep : [c].filter restartable = [c] := by simp [restartable, hc]
    rw [InitScan.step, if_pos hc]
    refine ⟨?_, ?_, hpeak ?_⟩
    · simp [hask, hs.reqs, hkeep, add_assoc]
    · simp [hask, hs.restartableInit, hkeep]
    · simp [hask, hs.restartableInit]
  · have hdrop : [c].filter restartable = [] := by simp [restartable, hc]
    rw [InitScan.step, if_neg hc]
    refine ⟨?_, ?_, hpeak ?_⟩
    · simp [hs.reqs, hdrop]
    · simp [hs.restartableInit, hdrop]
    · simp [hask, hs.restartableInit]

lemma scanned (containers inits : List (Container V)) {reqs : Resource V} {d : String}
    (hreqs : get reqs d = load containers d) :
    Scanned containers inits (inits.foldl InitScan.step ⟨reqs, ∅, ∅⟩) d := by
  induction inits using List.reverseRecOn with
  | nil =>
    refine ⟨by simpa using hreqs, by simp, ?_⟩
    have hnone : startingLoads ([] : List (Container V)) d = ∅ := by
      ext x
      simp [startingLoads]
    simp [hnone]
  | append_singleton inits c ih =>
    rw [List.foldl_append]
    exact ih.step c

lemma isGreatest_insert_of_zero {a m : V} {S : Set V} (ha : 0 ≤ a)
    (hm : IsGreatest (insert a (insert 0 S)) m) : IsGreatest (insert a S) m := by
  have hsub : insert a S ⊆ insert a (insert 0 S) := Set.insert_subset_insert (Set.subset_insert 0 S)
  refine ⟨?_, upperBounds_mono_set hsub hm.2⟩
  rcases hm.1 with rfl | rfl | hmem
  · exact Set.mem_insert _ S
  · have hle : a ≤ 0 := hm.2 (Set.mem_insert a _)
    exact Or.inl (le_antisymm ha hle)
  · exact Or.inr hmem

lemma effectiveRequest_peak {pod : Pod V} {d : String} (h : 0 ≤ load (ready pod) d) :
    ∃ peak, IsGreatest (loads pod d) peak ∧
      get (effectiveRequest pod) d = peak + overheadOf pod d := by
  have hreqs : get (pod.containers.foldl (fun acc c => add acc (fromResourceList c.requests)) ∅) d
      = load pod.containers d := by
    rw [get_foldl_add, get_empty, zero_add, load]
    congr 1
    exact List.map_congr_left fun c _ => get_fromQuantityMap c.requests d
  have hscan := scanned pod.containers pod.initContainers hreqs
  set scan := pod.initContainers.foldl InitScan.step
    ⟨pod.containers.foldl (fun acc c => add acc (fromResourceList c.requests)) ∅, ∅, ∅⟩ with hdef
  refine ⟨Max.max (get scan.reqs d) (get scan.initPeak d), ?_, ?_⟩
  · have hready : get scan.reqs d = load (ready pod) d := hscan.reqs
    rw [loads_eq_insert, hready]
    refine isGreatest_insert_of_zero h ?_
    exact hscan.initPeak.insert _
  · rw [effectiveRequest, overheadOf, ← hdef]
    rw [← get_max (by rw [hscan.reqs]; exact h)]
    cases pod.overhead with
    | none => simp
    | some overhead => simp [← get_fromQuantityMap, fromQuantityMap]

section Exact

lemma load_nonneg {cs : List (Container ℤ)} {d : String} (h : ∀ c ∈ cs, 0 ≤ asked c d) :
    0 ≤ load cs d := by
  apply List.sum_nonneg
  intro x hx
  obtain ⟨c, hc, rfl⟩ := List.mem_map.mp hx
  exact h c hc

/-- In every dimension a pod counts for its overhead on top of the most that its
containers ask for together at any moment of its life. -/
theorem effectiveRequest_isGreatest {pod : Pod ℤ}
    (hpod : ∀ c ∈ pod.containers ++ pod.initContainers, ∀ d, 0 ≤ asked c d) (d : String) :
    IsGreatest {x | ∃ cs, Running pod cs ∧ overheadOf pod d + load cs d = x}
      (get (effectiveRequest pod) d) := by
  have hready : 0 ≤ load (ready pod) d := load_nonneg fun c hc =>
    hpod c (mem_of_running .initialised hc) d
  obtain ⟨peak, ⟨⟨cs, hrun, hload⟩, hmax⟩, heff⟩ := effectiveRequest_peak hready
  rw [heff]
  constructor
  · exact ⟨cs, hrun, by rw [hload, add_comm]⟩
  · rintro x ⟨cs', hrun', rfl⟩
    have hle : load cs' d ≤ peak := hmax ⟨cs', hrun', rfl⟩
    omega

def stagedPod : Pod ℤ where
  __ := barePod "staged" "team" "default" 100
  initContainers :=
    [⟨Finmap.singleton "cpu" ⟨0, 50⟩, some .always⟩, ⟨Finmap.singleton "cpu" ⟨0, 300⟩, none⟩]
  overhead := some (Finmap.singleton "cpu" ⟨0, 7⟩)

theorem staged_peak :
    get (effectiveRequest stagedPod) "cpu" = 357 ∧
      IsGreatest {x | ∃ cs, Running stagedPod cs ∧ overheadOf stagedPod "cpu" + load cs "cpu" = x}
        (get (effectiveRequest stagedPod) "cpu") := by
  refine ⟨by decide +kernel, effectiveRequest_isGreatest ?_ "cpu"⟩
  intro c hc d
  have hasks : ∃ n : ℕ, c.requests = Finmap.singleton "cpu" ⟨0, (n : ℤ)⟩ := by
    simp only [stagedPod, barePod, List.cons_append, List.nil_append, List.mem_cons,
      List.not_mem_nil, or_false] at hc
    rcases hc with rfl | rfl | rfl
    · exact ⟨100, rfl⟩
    · exact ⟨50, rfl⟩
    · exact ⟨300, rfl⟩
  obtain ⟨n, hn⟩ := hasks
  rw [asked, hn]
  by_cases hd : d = "cpu"
  · rw [hd, Finmap.lookup_singleton_eq]
    exact Int.natCast_nonneg n
  · rw [Finmap.lookup_eq_none.mpr (by simpa using hd)]
    rfl

end Exact

end AdScheduler.PeakRequests
