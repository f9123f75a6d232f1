import AdScheduler.GangAgreement
import AdScheduler.Plugins

/-! Gang members ride on the reservation of their gang: they pass the capacity plugin
without a booking of their own. Runs of the extension points over any pods, and when the
bound members of a gang stay within what the gang has reserved. -/
namespace AdScheduler.GangCover
open KeyedMap Resources QueueTree Manager Conservation EngineCore GangAgreement Runs
open Requests CoordinatorCore Plugins

variable {V : Type*} [CommRing V] [LinearOrder V]

/-- How far a pod has come in its scheduling cycle. -/
inductive Stage (V : Type*)
  | queued
  | filtered (state : PreFilterState V)
  | reserved (state : PreFilterState V)
  | waiting (state : PreFilterState V)
  | permitted (state : PreFilterState V)

structure Entry (V : Type*) where
  pod : Pod V
  stage : Stage V

/-- The coordinator, the pods on their way by uid, and the pods that are bound. -/
structure Scheduler (V : Type*) [CommRing V] [LinearOrder V] where
  coord : Coordinator V
  entries : Map String (Entry V)
  bound : List (Pod V)

inductive Action (V : Type*)
  | preEnqueue (pod : Pod V) (now : ℤ)
  | preFilter (uid : String)
  | reserve (uid : String)
  | permit (uid : String)
  | postBind (uid : String)

namespace Scheduler

def setStage (s : Scheduler V) (uid : String) (pod : Pod V) (stage : Stage V) : Scheduler V :=
  { s with entries := s.entries.insert uid ⟨pod, stage⟩ }

def waitingPods (s : Scheduler V) : List (Pod V) :=
  (sortedKeys s.entries).filterMap fun uid =>
    match s.entries.lookup uid with
    | some ⟨pod, .waiting _⟩ => some pod
    | _ => none

def allow (s : Scheduler V) (member : Pod V) : Scheduler V :=
  match s.entries.lookup member.uid with
  | some ⟨pod, .waiting state⟩ => s.setStage member.uid pod (.permitted state)
  | _ => s

/-- One extension point for one pod. A call that does not fit the stage of the pod does
not occur, and changes nothing here. -/
def step (cap : Capacity V) (s : Scheduler V) : Action V → Scheduler V
  | .preEnqueue pod now =>
    let r := Gang.preEnqueue s.coord pod now
    match r.2 with
    | .error _ => { s with coord := r.1 }
    | .ok () => setStage { s with coord := r.1 } pod.uid pod .queued
  | .preFilter uid =>
    match s.entries.lookup uid with
    | some ⟨pod, .queued⟩ =>
      match cap.preFilter s.coord pod with
      | .error _ => s
      | .ok state => s.setStage uid pod (.filtered state)
    | _ => s
  | .reserve uid =>
    match s.entries.lookup uid with
    | some ⟨pod, .filtered state⟩ =>
      setStage { s with coord := (Capacity.reserve s.coord (some state) pod).1 } uid pod
        (.reserved state)
    | _ => s
  | .permit uid =>
    match s.entries.lookup uid with
    | some ⟨pod, .reserved state⟩ =>
      match Gang.permit s.coord s.waitingPods pod with
      | .success => s.setStage uid pod (.permitted state)
      | .release members => (members.foldl allow s).setStage uid pod (.permitted state)
      | .wait _ _ _ => s.setStage uid pod (.waiting state)
    | _ => s
  | .postBind uid =>
    match s.entries.lookup uid with
    | some ⟨pod, .permitted state⟩ =>
      ⟨Capacity.postBind s.coord (some state) pod, s.entries.erase uid, s.bound ++ [pod]⟩
    | _ => s

end Scheduler

/-- A pod enters once; everything else may be called at any time. -/
def Enabled (s : Scheduler V) : Action V → Prop
  | .preEnqueue pod _ => pod.uid ∉ s.entries ∧ pod.uid ∉ s.bound.map Pod.uid
  | _ => True

def scheduling (cap : Capacity V) : Machine (Scheduler V) (Action V) :=
  ⟨Enabled, Scheduler.step cap⟩

/-- Nothing is on its way and no gang is admitted. The registry of pod groups, the tree
and its usage are arbitrary. -/
def idle (c : Coordinator V) : Scheduler V := ⟨c, ∅, []⟩

/-- The pod counts for a gang: it is ours, has not finished, and carries the gang's key. -/
def isMember (c : Coordinator V) (g : String) (pod : Pod V) : Bool :=
  c.cache.isOurs pod && !pod.terminal && decide (pod.gangKey.map Prod.fst = some g)

/-- What the bound members of a gang request together. -/
def memberRequests (s : Scheduler V) (g d : String) : V :=
  ((s.bound.filter (isMember s.coord g)).map fun p => get (effectiveRequest p) d).sum

def reservedFor (c : Coordinator V) (g d : String) : V :=
  (c.engine.gangBook.lookup g).elim 0 fun gb => get gb.minRes d

/-- Every bound member is covered by the reservation of its gang. -/
def Covered (s : Scheduler V) : Prop := ∀ g d, memberRequests s g d ≤ reservedFor s.coord g d

/-- What a pod group asks to have reserved; a group without a positive vector asks for
nothing. -/
def declared (c : Coordinator V) (g d : String) : V :=
  (c.gangs.lookup g).elim 0 fun info =>
    if strictlyGtZero info.minResources then get info.minResources d else 0

/-- A member is bound only if it fits, beside the members already bound, into what its
group declares. -/
def Declares (s : Scheduler V) : Action V → Prop
  | .postBind uid => ∀ pod state g name, s.entries.lookup uid = some ⟨pod, .permitted state⟩ →
      pod.gangKey = some (g, name) → isMember s.coord g pod = true →
      ∀ d, memberRequests s g d + get (effectiveRequest pod) d ≤ declared s.coord g d
  | _ => True

/-- The ledger holds what the registered groups declare, and a pod on its way has passed
PreEnqueue. -/
structure Inv (s : Scheduler V) : Prop where
  ledger : ∀ g gb, s.coord.engine.gangBook.lookup g = some gb → ∃ info,
    s.coord.gangs.lookup g = some info ∧ gb.minRes = info.minResources ∧
      strictlyGtZero info.minResources = true
  passed : ∀ uid en g name, s.entries.lookup uid = some en → en.pod.gangKey = some (g, name) →
    g ∈ s.coord.engine.gangBook ∨
      ∃ info, s.coord.gangs.lookup g = some info ∧ strictlyGtZero info.minResources = false

/-- Steps that leave the gang ledger, the registry and the set of pods on their way as
they are, except that a pod may leave. -/
structure Frame (s s' : Scheduler V) : Prop where
  gangBook : s'.coord.engine.gangBook = s.coord.engine.gangBook
  gangs : s'.coord.gangs = s.coord.gangs
  cache : s'.coord.cache = s.coord.cache
  pods : ∀ uid en', s'.entries.lookup uid = some en' →
    ∃ en, s.entries.lookup uid = some en ∧ en.pod = en'.pod

lemma Frame.refl (s : Scheduler V) : Frame s s := ⟨rfl, rfl, rfl, fun _ en h => ⟨en, h, rfl⟩⟩

lemma Frame.trans {s s' s'' : Scheduler V} (h : Frame s s') (h' : Frame s' s'') : Frame s s'' := by
  refine ⟨h'.gangBook.trans h.gangBook, h'.gangs.trans h.gangs, h'.cache.trans h.cache, ?_⟩
  intro uid en'' hen''
  obtain ⟨en', hen', hp'⟩ := h'.pods uid en'' hen''
  obtain ⟨en, hen, hp⟩ := h.pods uid en' hen'
  exact ⟨en, hen, hp.trans hp'⟩

lemma frame_setStage {s s' : Scheduler V} (h : Frame s s') {uid : String} {en : Entry V}
    (hen : s.entries.lookup uid = some en) (stage : Stage V) :
    Frame s (s'.setStage uid en.pod stage) := by
  refine ⟨h.gangBook, h.gangs, h.cache, fun k en' hen' => ?_⟩
  rcases lookup_insert_cases hen' with ⟨rfl, rfl⟩ | ⟨-, hen'⟩
  · exact ⟨en, hen, rfl⟩
  · exact h.pods k en' hen'

lemma frame_allow (s : Scheduler V) (member : Pod V) :
    Frame s (s.allow member) ∧ (s.allow member).bound = s.bound := by
  unfold Scheduler.allow
  split
  · rename_i hen
    exact ⟨frame_setStage (.refl s) hen _, rfl⟩
  · exact ⟨.refl s, rfl⟩

lemma frame_allowAll (s : Scheduler V) (members : List (Pod V)) :
    Frame s (members.foldl Scheduler.allow s) ∧
      (members.foldl Scheduler.allow s).bound = s.bound := by
  refine List.foldlRecOn (motive := fun x : Scheduler V => Frame s x ∧ x.bound = s.bound) _ _
    ⟨.refl s, rfl⟩ ?_
  intro x hx member _
  obtain ⟨hf, hb⟩ := frame_allow x member
  exact ⟨hx.1.trans hf, hb.trans hx.2⟩

lemma reserve_frame (c : Coordinator V) (state : PreFilterState V) (pod : Pod V) :
    let c' := (Capacity.reserve c (some state) pod).1
    c'.engine.gangBook = c.engine.gangBook ∧ c'.gangs = c.gangs ∧ c'.cache = c.cache := by
  unfold Capacity.reserve
  dsimp only
  split_ifs
  · exact ⟨rfl, rfl, rfl⟩
  · exact ⟨(sameGangs_reserve _ _ _ _).gangBook, rfl, rfl⟩

lemma postBind_frame (c : Coordinator V) (state : PreFilterState V) (pod : Pod V) :
    let c' := Capacity.postBind c (some state) pod
    c'.engine.gangBook = c.engine.gangBook ∧ c'.gangs = c.gangs ∧ c'.cache = c.cache := by
  unfold Capacity.postBind
  dsimp only
  split_ifs
  · exact ⟨rfl, rfl, rfl⟩
  · exact ⟨(sameGangs_commit _ _).gangBook, rfl, rfl⟩

/-- What a step other than PreEnqueue can do: at most move a pod on, or bind a pod that
Permit has let go. -/
lemma step_frame (cap : Capacity V) (s : Scheduler V) (a : Action V)
    (ha : ∀ pod now, a ≠ .preEnqueue pod now) :
    Frame s (s.step cap a) ∧ ((s.step cap a).bound = s.bound ∨
      ∃ uid pod state, a = .postBind uid ∧ s.entries.lookup uid = some ⟨pod, .permitted state⟩ ∧
        (s.step cap a).bound = s.bound ++ [pod]) := by
  cases a with
  | preEnqueue pod now => exact absurd rfl (ha pod now)
  | preFilter uid =>
    dsimp only [Scheduler.step]
    split
    · rename_i pod hen
      split
      · exact ⟨.refl s, .inl rfl⟩
      · exact ⟨frame_setStage (.refl s) hen _, .inl rfl⟩
    · exact ⟨.refl s, .inl rfl⟩
  | reserve uid =>
    dsimp only [Scheduler.step]
    split
    · rename_i pod state hen
      obtain ⟨hg, hr, hc⟩ := reserve_frame s.coord state pod
      have hf : Frame s { s with coord := (Capacity.reserve s.coord (some state) pod).1 } :=
        ⟨hg, hr, hc, fun _ en h => ⟨en, h, rfl⟩⟩
      exact ⟨frame_setStage hf hen _, .inl rfl⟩
    · exact ⟨.refl s, .inl rfl⟩
  | permit uid =>
    dsimp only [Scheduler.step]
    split
    · rename_i pod state hen
      split
      · exact ⟨frame_setStage (.refl s) hen _, .inl rfl⟩
      · rename_i members _
        obtain ⟨hf, hb⟩ := frame_allowAll s members
        exact ⟨frame_setStage hf hen _, .inl hb⟩
      · exact ⟨frame_setStage (.refl s) hen _, .inl rfl⟩
    · exact ⟨.refl s, .inl rfl⟩
  | postBind uid =>
    dsimp only [Scheduler.step]
    split
    · rename_i pod state hen
      obtain ⟨hg, hr, hc⟩ := postBind_frame s.coord state pod
      refine ⟨⟨hg, hr, hc, fun k en' hen' => ?_⟩, .inr ⟨uid, pod, state, rfl, hen, rfl⟩⟩
      exact ⟨en', lookup_of_erase hen', rfl⟩
    · exact ⟨.refl s, .inl rfl⟩

lemma Inv.frame {s s' : Scheduler V} (h : Inv s) (hf : Frame s s') : Inv s' := by
  refine ⟨fun g gb hgb => ?_, fun uid en' g name hen' hkey => ?_⟩
  · rw [hf.gangBook] at hgb
    rw [hf.gangs]
    exact h.ledger g gb hgb
  · obtain ⟨en, hen, hp⟩ := hf.pods uid en' hen'
    rw [hf.gangBook, hf.gangs]
    exact h.passed uid en g name hen (hp ▸ hkey)

lemma Inv.reserved_eq {s : Scheduler V} (h : Inv s) {uid g name : String} {en : Entry V}
    (hen : s.entries.lookup uid = some en) (hkey : en.pod.gangKey = some (g, name)) (d : String) :
    reservedFor s.coord g d = declared s.coord g d := by
  unfold reservedFor declared
  cases hgb : s.coord.engine.gangBook.lookup g with
  | some gb =>
    obtain ⟨info, hinfo, hmin, hpos⟩ := h.ledger g gb hgb
    simp [hinfo, hmin, hpos]
  | none =>
    rcases h.passed uid en g name hen hkey with hmem | ⟨info, hinfo, hpos⟩
    · exact absurd hmem (Finmap.lookup_eq_none.mp hgb)
    · simp [hinfo, hpos]

lemma preEnqueue_ledger (c : Coordinator V) (pod : Pod V) (now : ℤ) :
    let c' := (Gang.preEnqueue c pod now).1
    c'.gangs = c.gangs ∧ c'.cache = c.cache ∧
    (c'.engine.gangBook = c.engine.gangBook ∨ ∃ g leaf info, c.engine.gangBook.lookup g = none ∧
      c.gangs.lookup g = some info ∧ strictlyGtZero info.minResources = true ∧
      c'.engine.gangBook = c.engine.gangBook.insert g ⟨leaf, info.minResources⟩) := by
  intro c'
  have heffect : Gang.Effect c pod now c' := Gang.preEnqueue_effect c pod now
  generalize c' = c₁ at heffect
  cases heffect with
  | none => exact ⟨rfl, rfl, .inl rfl⟩
  | @admission key name leaf info member registered _ positive _ _ =>
    refine ⟨rfl, rfl, ?_⟩
    have hinfo : c.gangs.lookup key = some info := by
      rw [Pod.gangKey_eq member]
      exact registered
    rcases admitGangWW_step c.engine leaf key info.minResources
      ⟨Gang.gangPriority pod, info.age, key⟩ now with
      ⟨_, hsame⟩ | ⟨_, _, hnew, _, _, hbook⟩ | ⟨_, _, hnew, _, _, hbook⟩
    · exact .inl hsame
    · exact .inr ⟨key, leaf, info, hnew, hinfo, positive, hbook⟩
    · exact .inr ⟨key, leaf, info, hnew, hinfo, positive, hbook⟩

lemma isMember_congr {c c' : Coordinator V} (h : c'.cache = c.cache) :
    isMember c' = isMember c := by
  funext g pod
  simp only [isMember, h]

lemma inv_preEnqueue {s : Scheduler V} (h : Inv s) (cap : Capacity V) (pod : Pod V) (now : ℤ) :
    Inv (s.step cap (.preEnqueue pod now)) := by
  obtain ⟨hgangs, -, hbook⟩ := preEnqueue_ledger s.coord pod now
  have hok : ∀ key name, (Gang.preEnqueue s.coord pod now).2 = .ok () →
      pod.gangKey = some (key, name) → _ := fun _ _ => Gang.preEnqueue_ok
  dsimp only [Scheduler.step]
  generalize Gang.preEnqueue s.coord pod now = r at hgangs hbook hok ⊢
  have hgrow : ∀ g, g ∈ s.coord.engine.gangBook → g ∈ r.1.engine.gangBook := by
    intro g hg
    rcases hbook with hsame | ⟨_, _, _, _, _, _, hins⟩
    · rw [hsame]
      exact hg
    · rw [hins, Finmap.mem_insert]
      exact .inr hg
  have hcoord : Inv { s with coord := r.1 } := by
    refine ⟨fun g gb hgb => ?_, fun uid en g name hen hkey => ?_⟩
    · rcases hbook with hsame | ⟨g', leaf, info, _, hinfo, hpos, hins⟩
      · dsimp only at hgb ⊢
        rw [hsame] at hgb
        rw [hgangs]
        exact h.ledger g gb hgb
      · dsimp only at hgb ⊢
        rw [hins, lookup_insert_ite] at hgb
        rw [hgangs]
        split_ifs at hgb with hg
        · cases hgb
          exact ⟨info, hg ▸ hinfo, rfl, hpos⟩
        · exact h.ledger g gb hgb
    · dsimp only
      rw [hgangs]
      exact (h.passed uid en g name hen hkey).imp_left (hgrow g)
  split
  · exact hcoord
  · rename_i hpass
    refine ⟨hcoord.ledger, fun uid en g name hen hkey => ?_⟩
    rw [Scheduler.setStage, lookup_insert_ite] at hen
    split_ifs at hen
    · cases hen
      refine (hok g name hpass hkey).imp_right ?_
      rintro ⟨info, hinfo, hpos⟩
      refine ⟨info, ?_, hpos⟩
      rw [Pod.gangKey_eq hkey]
      exact hgangs ▸ hinfo
    · exact hcoord.passed uid en g name hen hkey

lemma covered_preEnqueue {s : Scheduler V} (h : Covered s) (cap : Capacity V) (pod : Pod V)
    (now : ℤ) : Covered (s.step cap (.preEnqueue pod now)) := by
  obtain ⟨-, hcache, hbook⟩ := preEnqueue_ledger s.coord pod now
  dsimp only [Scheduler.step]
  generalize Gang.preEnqueue s.coord pod now = r at hcache hbook ⊢
  have hcoord : Covered { s with coord := r.1 } := by
    intro g d
    have hmem : memberRequests { s with coord := r.1 } g d = memberRequests s g d := by
      simp only [memberRequests, isMember_congr hcache]
    rw [hmem]
    refine (h g d).trans ?_
    rcases hbook with hsame | ⟨g', leaf, info, hnew, _, hpos, hins⟩
    · simp only [reservedFor, hsame, le_refl]
    · simp only [reservedFor, hins, lookup_insert_ite]
      split_ifs with hg
      · rw [hg, hnew]
        exact get_nonneg_of_strictlyGtZero hpos d
      · exact le_refl _
  split
  · exact hcoord
  · exact hcoord

lemma inv_step {s : Scheduler V} (h : Inv s) (cap : Capacity V) (a : Action V) :
    Inv (s.step cap a) := by
  cases a with
  | preEnqueue pod now => exact inv_preEnqueue h cap pod now
  | _ => exact h.frame (step_frame cap s _ (by simp)).1

lemma memberRequests_bind {s s' : Scheduler V} (hf : Frame s s') {pod : Pod V}
    (hb : s'.bound = s.bound ++ [pod]) (g d : String) :
    memberRequests s' g d = memberRequests s g d +
      if isMember s.coord g pod = true then get (effectiveRequest pod) d else 0 := by
  rw [memberRequests, memberRequests, hb, isMember_congr hf.cache, List.filter_append,
    List.map_append, List.sum_append]
  split_ifs with hm <;> simp [hm]

lemma reservedFor_frame {s s' : Scheduler V} (hf : Frame s s') (g d : String) :
    reservedFor s'.coord g d = reservedFor s.coord g d := by
  rw [reservedFor, reservedFor, hf.gangBook]

lemma covered_step_iff {s : Scheduler V} (hi : Inv s) (h : Covered s) (cap : Capacity V)
    (a : Action V) : Covered (s.step cap a) ↔ Declares s a := by
  by_cases ha : ∃ pod now, a = .preEnqueue pod now
  · obtain ⟨pod, now, rfl⟩ := ha
    exact iff_of_true (covered_preEnqueue h cap pod now) trivial
  obtain ⟨hf, hsame | ⟨uid, pod, state, rfl, hen, hb⟩⟩ :=
    step_frame cap s a fun pod now he => ha ⟨pod, now, he⟩
  · have hcov : Covered (s.step cap a) := by
      intro g d
      rw [reservedFor_frame hf, memberRequests, hsame, isMember_congr hf.cache]
      exact h g d
    refine iff_of_true hcov ?_
    cases a with
    | postBind uid =>
      intro pod state g name hen
      simp only [Scheduler.step, hen] at hsame
      exact absurd hsame (by simp)
    | _ => trivial
  · constructor
    · intro hcov pod' state' g name hen' hkey hmem d
      cases hen.symm.trans hen'
      have hle := hcov g d
      rw [memberRequests_bind hf hb, reservedFor_frame hf, if_pos hmem,
        hi.reserved_eq hen hkey] at hle
      exact hle
    · intro hdecl g d
      rw [memberRequests_bind hf hb, reservedFor_frame hf]
      split_ifs with hmem
      · obtain ⟨name, hkey⟩ : ∃ name, pod.gangKey = some (g, name) := by
          simp only [isMember, Bool.and_eq_true, decide_eq_true_eq] at hmem
          obtain ⟨⟨g', name⟩, hk, hg⟩ := Option.map_eq_some_iff.mp hmem.2
          exact ⟨name, by rw [hk]; exact congrArg (fun x => some (x, name)) hg⟩
        rw [hi.reserved_eq hen hkey]
        exact hdecl pod state g name hen hkey hmem d
      · rw [add_zero]
        exact h g d

/-- In every run in which members are bound only within what their group declares, all
bound members are covered by the gang's reservation. From each state of such a run a
further step keeps them covered exactly when it meets the condition. -/
theorem members_covered {cap : Capacity V} {c : Coordinator V} (hc : c.engine.gangBook = ∅)
    {as : List (Action V)} {s : Scheduler V}
    (h : Run ((scheduling cap).restrict Declares) (idle c) as s) :
    Covered s ∧ ∀ a, Covered ((scheduling cap).next s a) ↔ Declares s a := by
  have hstart : Inv (idle c) ∧ Covered (idle c) := by
    refine ⟨⟨fun g gb hgb => ?_, fun uid en g name hen => by cases hen⟩, fun g d => ?_⟩
    · rw [idle, hc] at hgb
      cases hgb
    · simp [memberRequests, reservedFor, idle, hc]
  obtain ⟨hi, hcov⟩ := h.invariant (I := fun s => Inv s ∧ Covered s) hstart
    fun s a hs ha => ⟨inv_step hs.1 cap a, (covered_step_iff hs.1 hs.2 cap a).mpr ha.2⟩
  exact ⟨hcov, covered_step_iff hi hcov cap⟩

def oneGang (minResources : ℤ) : Coordinator ℤ :=
  { newCoordinator (engineOn 60 (treeOf (Placement.oneTenant 10) Placement.oneTenant_isOk)) with
    gangs := Finmap.singleton "team/g"
      ⟨1, Finmap.singleton "cpu" minResources, "", 0, 0, false, 0⟩ }

def memberRun (cpu : ℤ) : List (Action ℤ) :=
  [.preEnqueue { barePod "member" "team" "runner" cpu with
      annotations := Finmap.singleton podGroupAnnotation "g" } 0,
    .preFilter "member", .reserve "member", .permit "member", .postBind "member"]

def noDevices : Capacity ℤ := ⟨none, none, true, false⟩

/-- A group that declares one millicore takes a member of twenty, twice the maximum of
the queue, all the way to a node. -/
theorem oversized_member_not_covered :
    let s := (memberRun 20).foldl (scheduling noDevices).next (idle (oneGang 1))
    Run (scheduling noDevices) (idle (oneGang 1)) (memberRun 20) s ∧
      memberRequests s "team/g" "cpu" = 20 ∧ reservedFor s.coord "team/g" "cpu" = 1 ∧
      ¬ Covered s := by
  intro s
  have hfacts : memberRequests s "team/g" "cpu" = 20 ∧ reservedFor s.coord "team/g" "cpu" = 1 := by
    decide +kernel
  refine ⟨Machine.Legal.run ⟨⟨Finmap.notMem_empty, List.not_mem_nil⟩, trivial, trivial, trivial,
    trivial, trivial⟩, hfacts.1, hfacts.2, fun h => ?_⟩
  have hle := h "team/g" "cpu"
  rw [hfacts.1, hfacts.2] at hle
  exact absurd hle (by decide)

theorem fitting_member_covered :
    let s := (memberRun 2).foldl (scheduling noDevices).next (idle (oneGang 3))
    memberRequests s "team/g" "cpu" = 2 ∧ reservedFor s.coord "team/g" "cpu" = 3 ∧ Covered s := by
  intro s
  let before := ((memberRun 2).take 4).foldl (scheduling noDevices).next (idle (oneGang 3))
  have hfacts : ((before.entries.lookup "member").elim false fun en =>
      (before.coord.gangs.lookup "team/g").elim false fun info =>
        decide (en.pod.gangKey = some ("team/g", "g") ∧
          effectiveRequest en.pod = Finmap.singleton "cpu" 2 ∧
          info.minResources = Finmap.singleton "cpu" 3 ∧ before.bound.length = 0)) = true := by
    decide +kernel
  have hdeclares : Declares before (.postBind "member") := by
    intro pod state g name hen hkey _ d
    generalize before = b at hfacts hen ⊢
    cases hinfo : b.coord.gangs.lookup "team/g" with
    | none => simp [hen, hinfo] at hfacts
    | some info =>
      simp only [hen, hinfo, Option.elim_some, decide_eq_true_eq, hkey] at hfacts
      obtain ⟨hk, hreq, hmin, hbound⟩ := hfacts
      cases hk
      have hpos : strictlyGtZero info.minResources = true := by
        rw [hmin]
        decide
      rw [memberRequests, List.length_eq_zero_iff.mp hbound, declared, hinfo, Option.elim_some,
        if_pos hpos, hreq, hmin, get_singleton, get_singleton]
      split_ifs <;> simp
  have hrun : Run ((scheduling noDevices).restrict Declares) (idle (oneGang 3)) (memberRun 2) s :=
    Machine.Legal.run ⟨⟨⟨Finmap.notMem_empty, List.not_mem_nil⟩, trivial⟩, ⟨trivial, trivial⟩,
      ⟨trivial, trivial⟩, ⟨trivial, trivial⟩, ⟨trivial, hdeclares⟩, trivial⟩
  exact ⟨by decide +kernel, by decide +kernel, (members_covered rfl hrun).1⟩

end AdScheduler.GangCover
