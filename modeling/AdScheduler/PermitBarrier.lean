import AdScheduler.PodGroupStatus

/-! The barrier that holds the members of a gang back until enough of them wait, over any
sequence of Permit calls and timeouts of waiting pods, and the guard by which PostFilter
preempts only for the last member of a gang. -/
namespace AdScheduler.PermitBarrier
open KeyedMap Resources Manager EngineCore Requests CoordinatorCore Plugins PodGroupStatus Runs

section Groups
variable {V : Type*}

/-- The pod group a pod belongs to, by namespace and name. -/
def groupOf (pod : Pod V) : Option (String × String) := pod.gangKey.map fun k => (pod.ns, k.2)

lemma groupOf_some {pod : Pod V} {g : String × String} (h : groupOf pod = some g) :
    pod.gangKey = some (g.1 ++ "/" ++ g.2, g.2) ∧ pod.ns = g.1 := by
  obtain ⟨⟨key, name⟩, hk, rfl⟩ := Option.map_eq_some_iff.mp h
  exact ⟨by rw [hk, Pod.gangKey_eq hk], rfl⟩

lemma groupOf_eq_iff {p q : Pod V} (hp : '/' ∉ p.ns.toList) (hq : '/' ∉ q.ns.toList) :
    groupOf p = groupOf q ↔ p.gangKey.map Prod.fst = q.gangKey.map Prod.fst := by
  have hsplit : ∀ x : Pod V, '/' ∉ x.ns.toList →
      groupOf x = (x.gangKey.map Prod.fst).map splitGangKey := by
    intro x hx
    cases hk : x.gangKey with
    | none => simp [groupOf, hk]
    | some k =>
      obtain ⟨key, name⟩ := k
      simp [groupOf, hk, Pod.gangKey_eq hk, splitGangKey_key hx]
  constructor
  · intro h
    cases hg : groupOf q with
    | none =>
      rw [hg] at h
      have hpn : p.gangKey = none := by simpa [groupOf] using h
      have hqn : q.gangKey = none := by simpa [groupOf] using hg
      rw [hpn, hqn]
    | some g => rw [(groupOf_some (h.trans hg)).1, (groupOf_some hg).1]
  · intro h
    rw [hsplit p hp, hsplit q hq, h]

def waitingFor (pod : Pod V) (waiting : List (Pod V)) : List (Pod V) :=
  waiting.filter fun w => decide (w.gangKey.map Prod.fst = pod.gangKey.map Prod.fst)

end Groups

variable {V : Type*} [CommRing V] [LinearOrder V]

lemma permit_member {c : Coordinator V} {pod : Pod V} {g : String × String} {m : ℤ}
    (hpod : groupOf pod = some g)
    (hm : (c.gangInfo g.1 g.2).map GangInfo.minMember = some m) (h2 : 2 ≤ m)
    (waiting : List (Pod V)) :
    ∃ timeout, Gang.permit c waiting pod =
      if m ≤ 1 + (waitingFor pod waiting).length then .release (waitingFor pod waiting)
      else .wait (1 + (waitingFor pod waiting).length) m timeout := by
  obtain ⟨hkey, hns⟩ := groupOf_some hpod
  obtain ⟨info, hinfo, rfl⟩ := Option.map_eq_some_iff.mp hm
  have hbig : ¬ info.minMember ≤ 1 := by omega
  refine ⟨if 0 < info.timeoutSecs then info.timeoutSecs * second
    else c.engine.gangScheduleTimeout, ?_⟩
  simp only [Gang.permit, waitingFor, hkey, hns, hinfo, if_neg hbig, Option.map_some]

lemma permit_release {c : Coordinator V} {pod : Pod V} {waiting members : List (Pod V)}
    (h : Gang.permit c waiting pod = .release members) : members = waitingFor pod waiting := by
  unfold Gang.permit at h
  split at h
  · cases h
  rename_i key name hkey
  split at h
  · cases h
  split at h
  · cases h
  dsimp only at h
  split at h
  · cases h
    rw [waitingFor, hkey]
    rfl
  · cases h

/-- A Permit call, with the coordinator it reads, or the timeout of a waiting pod. -/
inductive Step (V : Type*) [CommRing V] [LinearOrder V]
  | permit (c : Coordinator V) (pod : Pod V)
  | timeout (uid : String)

def released (waiting : List (Pod V)) : Step V → List (Pod V)
  | .permit c pod =>
    match Gang.permit c waiting pod with
    | .success => [pod]
    | .release members => pod :: members
    | .wait _ _ _ => []
  | .timeout _ => []

/-- The waiting pods after a step: an allowed pod and one that timed out leave. -/
def next (waiting : List (Pod V)) : Step V → List (Pod V)
  | .permit c pod =>
    match Gang.permit c waiting pod with
    | .success => waiting
    | .release members => waiting.filter fun w => decide (w.uid ∉ members.map Pod.uid)
    | .wait _ _ _ => waiting ++ [pod]
  | .timeout uid => waiting.filter fun w => decide (w.uid ≠ uid)

/-- A pod that calls Permit does not wait already and its namespace is a Kubernetes name,
which has no slash; the registry knows the gang `g` with minimum `m` at each call. -/
def Enabled (g : String × String) (m : ℤ) (waiting : List (Pod V)) : Step V → Prop
  | .permit c pod => pod.uid ∉ waiting.map Pod.uid ∧ '/' ∉ pod.ns.toList ∧
      (c.gangInfo g.1 g.2).map GangInfo.minMember = some m
  | .timeout uid => uid ∈ waiting.map Pod.uid

instance (g : String × String) (m : ℤ) (waiting : List (Pod V)) :
    ∀ step, Decidable (Enabled g m waiting step)
  | .permit c pod => inferInstanceAs (Decidable (pod.uid ∉ waiting.map Pod.uid ∧
      '/' ∉ pod.ns.toList ∧ (c.gangInfo g.1 g.2).map GangInfo.minMember = some m))
  | .timeout uid => inferInstanceAs (Decidable (uid ∈ waiting.map Pod.uid))

def barrier (g : String × String) (m : ℤ) : Machine (List (Pod V)) (Step V) := ⟨Enabled g m, next⟩

instance (g : String × String) (m : ℤ) (waiting : List (Pod V)) (step : Step V) :
    Decidable ((barrier g m).enabled waiting step) :=
  inferInstanceAs (Decidable (Enabled g m waiting step))

/-- The waiting pods are different pods of proper namespaces. -/
structure Distinct (waiting : List (Pod V)) : Prop where
  nodup : (waiting.map Pod.uid).Nodup
  proper : ∀ w ∈ waiting, '/' ∉ w.ns.toList

omit [CommRing V] [LinearOrder V] in
lemma Distinct.filter {waiting : List (Pod V)} (h : Distinct waiting) (keep : Pod V → Bool) :
    Distinct (waiting.filter keep) := by
  refine ⟨?_, fun w hw => h.proper w (List.mem_of_mem_filter hw)⟩
  exact (List.filter_sublist.map Pod.uid).nodup h.nodup

lemma distinct_next {g : String × String} {m : ℤ} {waiting : List (Pod V)} (h : Distinct waiting)
    {step : Step V} (hs : Enabled g m waiting step) : Distinct (next waiting step) := by
  cases step with
  | timeout uid => exact h.filter _
  | permit c pod =>
    obtain ⟨hnew, hns, -⟩ := hs
    unfold next
    dsimp only
    cases Gang.permit c waiting pod with
    | success => exact h
    | release members => exact h.filter _
    | wait n k t =>
      refine ⟨?_, ?_⟩
      · rw [List.map_append, List.nodup_append]
        refine ⟨h.nodup, List.nodup_singleton _, ?_⟩
        intro uid huid u hu
        rw [List.map_singleton, List.mem_singleton] at hu
        subst hu
        rintro rfl
        exact hnew huid
      · intro w hw
        rcases List.mem_append.mp hw with hw | hw
        · exact h.proper w hw
        · rw [List.mem_singleton.mp hw]
          exact hns

lemma released_group {c : Coordinator V} {pod p : Pod V} {waiting : List (Pod V)}
    (h : Distinct waiting) (hns : '/' ∉ pod.ns.toList)
    (hp : p ∈ released waiting (.permit c pod)) : groupOf p = groupOf pod := by
  unfold released at hp
  dsimp only at hp
  cases hr : Gang.permit c waiting pod with
  | success =>
    rw [hr] at hp
    rw [List.mem_singleton.mp hp]
  | wait n k t =>
    rw [hr] at hp
    cases hp
  | release members =>
    rw [hr, permit_release hr] at hp
    rcases List.mem_cons.mp hp with rfl | hw
    · rfl
    · obtain ⟨hmem, hkey⟩ := List.mem_filter.mp hw
      exact (groupOf_eq_iff (h.proper p hmem) hns).mpr (of_decide_eq_true hkey)

lemma released_batch {g : String × String} {m : ℤ} (h2 : 2 ≤ m) {waiting : List (Pod V)}
    (h : Distinct waiting) {c : Coordinator V} {pod : Pod V}
    (hs : Enabled g m waiting (.permit c pod)) (hpod : groupOf pod = some g)
    (hne : released waiting (.permit c pod) ≠ []) :
    m ≤ (((released waiting (.permit c pod)).filter fun p => decide (groupOf p = some g)).map
      Pod.uid).toFinset.card := by
  obtain ⟨hnew, hns, hm⟩ := hs
  have hall : (released waiting (.permit c pod)).filter (fun p => decide (groupOf p = some g)) =
      released waiting (.permit c pod) := by
    rw [List.filter_eq_self]
    intro p hp
    rw [decide_eq_true_eq, released_group h hns hp, hpod]
  rw [hall]
  obtain ⟨timeout, hpermit⟩ := permit_member hpod hm h2 waiting
  unfold released at hne ⊢
  dsimp only at hne ⊢
  rw [hpermit] at hne ⊢
  split_ifs at hne ⊢ with henough
  · have hsub : (waitingFor pod waiting).Sublist waiting := List.filter_sublist
    have hnodup : ((pod :: waitingFor pod waiting).map Pod.uid).Nodup := by
      rw [List.map_cons, List.nodup_cons]
      exact ⟨fun hin => hnew ((hsub.map Pod.uid).subset hin), (hsub.map Pod.uid).nodup h.nodup⟩
    rw [List.toFinset_card_of_nodup hnodup, List.length_map, List.length_cons]
    push_cast
    omega
  · exact absurd rfl hne

/-- Over any sequence of Permit calls and timeouts, a step that lets a member of the gang
go lets as many different members go as the gang needs, and a call lets nobody go but
members of the caller's gang and the caller. -/
theorem permit_releases_full_batches {g : String × String} {m : ℤ} (h2 : 2 ≤ m)
    {steps : List (Step V)} {waiting : List (Pod V)} (h : Run (barrier g m) [] steps waiting)
    (step : Step V) (hs : Enabled g m waiting step) :
    ((∃ p ∈ released waiting step, groupOf p = some g) →
      m ≤ (((released waiting step).filter fun p => decide (groupOf p = some g)).map
        Pod.uid).toFinset.card) ∧
    ∀ c pod, step = .permit c pod → ∀ p ∈ released waiting step, groupOf p = groupOf pod := by
  have hd : Distinct waiting := h.invariant (I := Distinct) ⟨List.nodup_nil, by simp⟩
    fun _ _ hi he => distinct_next hi he
  constructor
  · rintro ⟨p, hp, hpg⟩
    cases step with
    | timeout uid => cases hp
    | permit c pod =>
      have hpod : groupOf pod = some g := (released_group hd hs.2.1 hp).symm.trans hpg
      exact released_batch h2 hd hs hpod (List.ne_nil_of_mem hp)
  · rintro c pod rfl p hp
    exact released_group hd hs.2.1 hp

def pairGang (pods : List (Pod ℤ)) : Coordinator ℤ :=
  { newCoordinator (newEngine 0) with
    gangs := Finmap.singleton "team/gang" ⟨2, Finmap.singleton "cpu" 2, "", 0, 0, false, 0⟩
    pods := pods }

def pairMember (uid nodeName : String) : Pod ℤ :=
  { barePod uid "team" "sa" 1 with
    annotations := Finmap.singleton podGroupAnnotation "gang"
    nodeName := nodeName }

theorem second_member_releases_both :
    2 ≤ (((released [pairMember "first" ""] (.permit (pairGang []) (pairMember "second" ""))).filter
      fun p => decide (groupOf p = some ("team", "gang"))).map Pod.uid).toFinset.card ∧
    ∀ p ∈ released [pairMember "first" ""] (.permit (pairGang []) (pairMember "second" "")),
      groupOf p = some ("team", "gang") := by
  have hlegal : (barrier ("team", "gang") 2).Legal []
      [.permit (pairGang []) (pairMember "first" "")] := by decide +kernel
  have hbatch := permit_releases_full_batches (by decide) hlegal.run
    (.permit (pairGang []) (pairMember "second" "")) (by decide +kernel)
  have hany : (released [pairMember "first" ""]
      (.permit (pairGang []) (pairMember "second" ""))).any
        (fun p => decide (groupOf p = some ("team", "gang"))) = true := by decide +kernel
  obtain ⟨p, hp, hpg⟩ := List.any_eq_true.mp hany
  exact ⟨by exact_mod_cast hbatch.1 ⟨p, hp, of_decide_eq_true hpg⟩,
    fun p hp => hbatch.2 _ _ rfl p hp⟩

/-- The guard of PostFilter: for a gang member, preemption waits until all other members
the gang needs are placed. -/
def gangGuard (c : Coordinator V) (state : PreFilterState V) (pod : Pod V) : Bool :=
  if state.gang then
    match gangProgress c pod.ns (textAt pod.annotations podGroupAnnotation) with
    | none => false
    | some (placed, minMember) => !decide (minMember ≤ 1 ∨ (placed : ℤ) < minMember - 1)
  else true

def proceeds : PermitResult V → Bool
  | .success | .release _ => true
  | .wait _ _ _ => false

/-- A member of the gang `g` for which PostFilter preempted, seen by the coordinator `c`,
reaches Permit at `c'`, with the placed members still bound. -/
structure Preempted (c c' : Coordinator V) (state : PreFilterState V) (pod : Pod V)
    (g : String × String) (m : ℤ) : Prop where
  member : groupOf pod = some g
  gang : state.gang = pod.gang
  guard : gangGuard c state pod = true
  minMember : (c.gangInfo g.1 g.2).map GangInfo.minMember = some m
  atLeastTwo : 2 ≤ m
  minMember' : (c'.gangInfo g.1 g.2).map GangInfo.minMember = some m
  bound : ∀ p ∈ c.pods, groupOf p = some g → p.nodeName ≠ "" → p ∈ c'.pods

/-- Permit counts the waiting members only, whatever is bound. -/
theorem preempted_pod_proceeds_iff {c c' : Coordinator V} {state : PreFilterState V} {pod : Pod V}
    {g : String × String} {m : ℤ} (h : Preempted c c' state pod g m) (waiting : List (Pod V)) :
    proceeds (Gang.permit c' waiting pod) = true ↔ m - 1 ≤ (waitingFor pod waiting).length := by
  obtain ⟨timeout, hpermit⟩ := permit_member h.member h.minMember' h.atLeastTwo waiting
  rw [hpermit]
  split_ifs with henough
  · exact ⟨fun _ => by omega, fun _ => rfl⟩
  · refine ⟨fun hp => ?_, fun hw => absurd ?_ henough⟩
    · cases hp
    · omega

lemma pair_preempted (pods : List (Pod ℤ)) (h : gangGuard (pairGang pods)
    ⟨"root.team.jobs", Finmap.singleton "cpu" 1, true⟩ (pairMember "last" "") = true) :
    Preempted (pairGang pods) (pairGang pods) ⟨"root.team.jobs", Finmap.singleton "cpu" 1, true⟩
      (pairMember "last" "") ("team", "gang") 2 :=
  ⟨by decide +kernel, by decide +kernel, h, rfl, by decide, rfl, fun _ hp _ _ => hp⟩

/-- One member of two is bound: PostFilter preempts for the other one, and Permit then
makes it wait. -/
theorem preempted_last_member_waits :
    Preempted (pairGang [pairMember "first" "node"]) (pairGang [pairMember "first" "node"])
      ⟨"root.team.jobs", Finmap.singleton "cpu" 1, true⟩ (pairMember "last" "")
      ("team", "gang") 2 ∧
    proceeds (Gang.permit (pairGang [pairMember "first" "node"]) [] (pairMember "last" "")) =
      false :=
  ⟨pair_preempted _ (by decide +kernel), by decide +kernel⟩

theorem preempted_member_with_waiting_proceeds :
    proceeds (Gang.permit (pairGang [pairMember "first" "node"]) [pairMember "spare" ""]
      (pairMember "last" "")) = true :=
  (preempted_pod_proceeds_iff (pair_preempted [pairMember "first" "node"] (by decide +kernel))
    [pairMember "spare" ""]).mpr (by decide +kernel)

end AdScheduler.PermitBarrier
