import AdScheduler.PodGroupStatus

/-! PreEnqueue and the loops over the gangs cut into their critical sections. What a call or a
loop has read so far is kept in the stage it has reached. -/
namespace AdScheduler.GangSections
open KeyedMap Resources EngineCore WoundWait Requests CoordinatorCore Plugins PodGroupStatus

section Admission

/-- How far a PreEnqueue call has come: the registry has no entry for the gang, or has the one
that was read; the leaf is resolved; and the gang was not found on any leaf. -/
inductive Stage (V : Type*)
  | unregistered
  | registered (info : GangInfo V)
  | routed (info : GangInfo V) (leaf : String)
  | unbound (info : GangInfo V) (leaf : String)

def Stage.info? {V : Type*} : Stage V → Option (GangInfo V)
  | .unregistered => none
  | .registered info | .routed info _ | .unbound info _ => some info

def Stage.admits {V : Type*} : Stage V → Bool
  | .unbound _ _ => true
  | .unregistered | .registered _ | .routed _ _ => false

/-- A PreEnqueue call of a gang member that has read the registry. -/
structure MemberCall (V : Type*) where
  pod : Pod V
  key : String
  stage : Stage V

inductive Outcome (V : Type*)
  | done (answer : Except GangStatus Unit)
  | goesOn (stage : Stage V)

variable {V : Type*} [CommRing V] [LinearOrder V]

/-- The read of the registry and the exits that it decides. -/
def readRegistry (c : Coordinator V) (pod : Pod V) (key name : String) : Outcome V :=
  match c.gangInfo pod.ns name with
  | none => .goesOn .unregistered
  | some info =>
    if info.failed then .done (.error (.gangFailed key))
    else if strictlyGtZero info.minResources = false then .done (.ok ())
    else .goesOn (.registered info)

def admission (e : Engine V) (call : MemberCall V) (info : GangInfo V) (leaf : String) (now : ℤ) :
    Engine V × Except EngineErr Bool :=
  e.admitGangWW leaf call.key info.minResources ⟨Gang.gangPriority call.pod, info.age, call.key⟩ now

/-- The next section of a call: `IsGangAdmitted`, the tree, `GangLeaf`, or `AdmitGangWW`. -/
def MemberCall.step (c : Coordinator V) (call : MemberCall V) (now : ℤ) :
    Coordinator V × Outcome V :=
  match call.stage with
  | .unregistered =>
    (c, .done (if c.engine.isGangAdmitted call.key then .ok () else .error (.notObserved call.key)))
  | .registered info =>
    (c, match Gang.resolveLeaf c call.pod info.queue with
      | .error status => .done (.error status)
      | .ok leaf => .goesOn (.routed info leaf))
  | .routed info leaf =>
    (c, match c.engine.gangLeaf call.key with
      | some bound =>
        .done (if leaf ≠ bound then .error (.wrongLeaf leaf call.key bound) else .ok ())
      | none => .goesOn (.unbound info leaf))
  | .unbound info leaf =>
    ({ c with engine := (admission c.engine call info leaf now).1 },
      .done (match (admission c.engine call info leaf now).2 with
        | .error err => .error (.engine err)
        | .ok false => .error (.awaitingHeadroom call.key)
        | .ok true => .ok ()))

/-- A call that has its answer stays as it is. -/
def advance (pod : Pod V) (key : String) (now : ℤ) (p : Coordinator V × Outcome V) :
    Coordinator V × Outcome V :=
  match p.2 with
  | .done _ => p
  | .goesOn stage => MemberCall.step p.1 ⟨pod, key, stage⟩ now

/-- The sections in a row are a PreEnqueue call. -/
theorem preEnqueue_sections {pod : Pod V} {key name : String}
    (h : pod.gangKey = some (key, name)) (c : Coordinator V) (now : ℤ) :
    (advance pod key now)^[3] (c, readRegistry c pod key name) =
      ((Gang.preEnqueue c pod now).1, .done (Gang.preEnqueue c pod now).2) := by
  unfold Gang.preEnqueue readRegistry
  rw [h]
  dsimp only [Function.iterate_succ_apply, Function.iterate_zero, id]
  cases c.gangInfo pod.ns name with
  | none => rfl
  | some info =>
    dsimp only
    split_ifs
    · rfl
    · rfl
    · unfold Gang.admitMember
      simp only [advance, MemberCall.step]
      cases Gang.resolveLeaf c pod info.queue with
      | error status => rfl
      | ok leaf =>
        dsimp only
        cases c.engine.gangLeaf key <;> rfl

/-- The calls on their way after a member has read the registry. -/
def enter (c : Coordinator V) (calls : List (MemberCall V)) (pod : Pod V) : List (MemberCall V) :=
  match pod.gangKey with
  | none => calls
  | some (key, name) =>
    match readRegistry c pod key name with
    | .done _ => calls
    | .goesOn stage => calls ++ [⟨pod, key, stage⟩]

def proceed (c : Coordinator V) (calls : List (MemberCall V)) (i : ℕ) (now : ℤ) :
    Coordinator V × List (MemberCall V) :=
  match calls[i]? with
  | none => (c, calls)
  | some call =>
    ((call.step c now).1, match (call.step c now).2 with
      | .done _ => calls.eraseIdx i
      | .goesOn stage => calls.set i { call with stage := stage })

lemma step_coord (c : Coordinator V) (call : MemberCall V) (now : ℤ) :
    (call.step c now).1 = c ∨ ∃ info leaf, call.stage = .unbound info leaf ∧
      (call.step c now).1 = { c with engine := (admission c.engine call info leaf now).1 } := by
  unfold MemberCall.step
  cases hstage : call.stage with
  | unregistered | registered | routed => exact .inl rfl
  | unbound info leaf => exact .inr ⟨info, leaf, rfl, rfl⟩

lemma proceed_coord (c : Coordinator V) (calls : List (MemberCall V)) (i : ℕ) (now : ℤ) :
    (proceed c calls i now).1 = c ∨ ∃ call info leaf, calls[i]? = some call ∧
      call.stage = .unbound info leaf ∧ (proceed c calls i now).1 =
        { c with engine := (admission c.engine call info leaf now).1 } := by
  unfold proceed
  cases hi : calls[i]? with
  | none => exact .inl rfl
  | some call =>
    rcases step_coord c call now with hsame | ⟨info, leaf, hstage, hadmission⟩
    · exact .inl hsame
    · exact .inr ⟨call, info, leaf, rfl, hstage, hadmission⟩

lemma mem_enter {c : Coordinator V} {calls : List (MemberCall V)} {pod : Pod V}
    {call : MemberCall V}
    (h : call ∈ enter c calls pod) : call ∈ calls ∨ ∃ name, call.pod = pod ∧
      pod.gangKey = some (call.key, name) ∧
      readRegistry c pod call.key name = .goesOn call.stage := by
  unfold enter at h
  split at h
  · exact .inl h
  rename_i key name hkey
  split at h
  · exact .inl h
  rename_i stage hread
  rcases List.mem_append.mp h with h | h
  · exact .inl h
  · rw [List.mem_singleton.mp h]
    exact .inr ⟨name, rfl, hkey, hread⟩

lemma mem_proceed {c : Coordinator V} {calls : List (MemberCall V)} {i : ℕ} {now : ℤ}
    {call : MemberCall V} (h : call ∈ (proceed c calls i now).2) : call ∈ calls ∨ ∃ old ∈ calls,
      (old.step c now).2 = .goesOn call.stage ∧ call = { old with stage := call.stage } := by
  unfold proceed at h
  cases hi : calls[i]? with
  | none =>
    rw [hi] at h
    exact .inl h
  | some old =>
    rw [hi] at h
    dsimp only at h
    split at h
    · exact .inl (List.mem_of_mem_eraseIdx h)
    · rename_i stage hstep
      rcases List.mem_or_eq_of_mem_set h with h | rfl
      · exact .inl h
      · exact .inr ⟨old, List.mem_of_getElem? hi, hstep, rfl⟩

end Admission

section Timeouts
variable {V : Type*} [CommRing V] [LinearOrder V]

/-- How far `syncGangStatuses` has come: the ledger is copied, or the clocks are set and some of
the listed pod groups are still to be looked at. -/
inductive Sync (V : Type*)
  | idle
  | copied (admitted : Map String (GangBooking V))
  | writing (admitted : Map String (GangBooking V)) (left : List (PodGroup V))

/-- The next section of `syncGangStatuses`, with the patches it sends. -/
def Sync.step (r : Reconciler V) (now : ℤ) : Sync V → (Reconciler V × List (Patch V)) × Sync V
  | .idle => ((r, []), .copied r.coord.engine.gangBook)
  | .copied admitted =>
    (({ r with gangAdmittedAt := stampAdmissions admitted r.gangAdmittedAt now }, []),
      .writing admitted r.coord.podGroups)
  | .writing admitted (pg :: left) => ((r, (gangPatch admitted pg).toList), .writing admitted left)
  | .writing _ [] => ((r, []), .idle)

lemma Sync.step_coord (r : Reconciler V) (now : ℤ) (sync : Sync V) :
    (sync.step r now).1.1.coord = r.coord := by
  cases sync with
  | idle | copied => rfl
  | writing admitted left => cases left <;> rfl

/-- How far `checkGangTimeouts` has come: the ledger is copied; the candidates are collected, and
the members of the first are counted, or it is to be latched as failed, or to be released. -/
inductive Check (V : Type*)
  | idle
  | copied (now : ℤ) (admitted : Map String (GangBooking V))
  | judging (cands : List Candidate)
  | counted (created : ℕ) (t : Candidate) (cands : List Candidate)
  | latching (t : Candidate) (cands : List Candidate)
  | releasing (t : Candidate) (cands : List Candidate)

def latch (r : Reconciler V) (key : String) : Reconciler V :=
  { r with
    coord := { r.coord with
      gangs := match r.coord.gangs.lookup key with
        | none => r.coord.gangs
        | some info => r.coord.gangs.insert key { info with failed := true } }
    gangAdmittedAt := r.gangAdmittedAt.erase key }

def release (r : Reconciler V) (key : String) : Reconciler V :=
  { r with coord := { r.coord with engine := r.coord.engine.releaseGang key } }

lemma failGang_sections (r : Reconciler V) (key : String) :
    r.failGang key = release (latch r key) key := rfl

/-- The next section of `checkGangTimeouts`, with the patches it sends; the order is that of the
copy of the ledger. -/
def Check.step (r : Reconciler V) (now : ℤ) (order : List String) :
    Check V → (Reconciler V × List (Patch V)) × Check V
  | .idle => ((r, []), .copied now r.coord.engine.gangBook)
  | .copied now admitted =>
    ((r, []), .judging ((entries order admitted).filterMap fun entry => r.candidate now entry.1))
  | .judging [] => ((r, []), .idle)
  | .judging (t :: cands) =>
    let created := createdGangMembers r.coord.pods (splitGangKey t.key).1 (splitGangKey t.key).2
    ((r, []), .counted created t cands)
  | .counted created t cands =>
    let bound := boundGangMembers r.coord.pods (splitGangKey t.key).1 (splitGangKey t.key).2
    ((r, []), match gangTimeoutVerdict t.elapsed t.membersReadyTO t.scheduleTO created bound
        t.minMember with
      | none => .judging cands
      | some _ => .latching t cands)
  | .latching t cands => ((latch r t.key, []), .releasing t cands)
  | .releasing t cands =>
    ((release r t.key, [⟨(splitGangKey t.key).1, (splitGangKey t.key).2, .failed⟩]), .judging cands)

lemma check_step_reads (r : Reconciler V) (now : ℤ) (order : List String) {check : Check V}
    (h : ∀ t cands, check ≠ .latching t cands ∧ check ≠ .releasing t cands) :
    (check.step r now order).1.1 = r := by
  cases check with
  | idle | copied | counted => rfl
  | judging cands => cases cands <;> rfl
  | latching t cands => exact absurd rfl (h t cands).1
  | releasing t cands => exact absurd rfl (h t cands).2

/-- The check is between the latch of the gang and its release. -/
def Check.Releases (key : String) : Check V → Prop
  | .releasing t _ => t.key = key
  | _ => False

instance (key : String) : ∀ check : Check V, Decidable (check.Releases key)
  | .releasing t _ => inferInstanceAs (Decidable (t.key = key))
  | .idle | .copied _ _ | .judging _ | .counted _ _ _ | .latching _ _ =>
    inferInstanceAs (Decidable False)

/-- The loop visits every entry of its copy of the ledger. -/
def Check.Ordered (order : List String) : Check V → Prop
  | .copied _ admitted => Visits order admitted
  | _ => True

instance (order : List String) : ∀ check : Check V, Decidable (check.Ordered order)
  | .copied _ admitted => inferInstanceAs (Decidable (Visits order admitted))
  | .idle | .judging _ | .counted _ _ _ | .latching _ _ | .releasing _ _ =>
    inferInstanceAs (Decidable True)

abbrev Sent (V : Type*) [CommRing V] [LinearOrder V] (S : Type*) :=
  (Reconciler V × List (Patch V)) × S

def syncOn (now : ℤ) (p : Sent V (Sync V)) : Sent V (Sync V) :=
  (((p.2.step p.1.1 now).1.1, p.1.2 ++ (p.2.step p.1.1 now).1.2), (p.2.step p.1.1 now).2)

def checkOn (now : ℤ) (order : List String) (p : Sent V (Check V)) : Sent V (Check V) :=
  (((p.2.step p.1.1 now order).1.1, p.1.2 ++ (p.2.step p.1.1 now order).1.2),
    (p.2.step p.1.1 now order).2)

lemma writing_sections (r : Reconciler V) (now : ℤ) (admitted : Map String (GangBooking V))
    (left : List (PodGroup V)) (patches : List (Patch V)) :
    (syncOn now)^[left.length + 1] ((r, patches), .writing admitted left) =
      ((r, patches ++ left.filterMap (gangPatch admitted)), .idle) := by
  induction left generalizing patches with
  | nil => simp [syncOn, Sync.step]
  | cons pg left ih =>
    rw [List.length_cons, Function.iterate_succ_apply]
    have hstep : syncOn now ((r, patches), .writing admitted (pg :: left)) =
        ((r, patches ++ (gangPatch admitted pg).toList), .writing admitted left) := rfl
    rw [hstep, ih]
    cases hpatch : gangPatch admitted pg <;> simp [hpatch]

/-- The sections in a row are a pass of `syncGangStatuses`. -/
theorem syncGangStatuses_sections (r : Reconciler V) (now : ℤ) :
    ∃ n, (syncOn now)^[n] ((r, []), .idle) = (r.syncGangStatuses now, .idle) := by
  refine ⟨(r.coord.podGroups.length + 1) + 2, ?_⟩
  rw [Function.iterate_add_apply]
  exact writing_sections _ now _ _ []

lemma judging_sections (now : ℤ) (order : List String) (cands : List Candidate)
    (acc : Reconciler V × List (Patch V)) :
    ∃ n, (checkOn now order)^[n] (acc, .judging cands) =
      (cands.foldl Reconciler.giveUp acc, .idle) := by
  induction cands generalizing acc with
  | nil => exact ⟨1, by simp [checkOn, Check.step]⟩
  | cons t cands ih =>
    obtain ⟨n, hn⟩ := ih (Reconciler.giveUp acc t)
    have hcounted : (checkOn now order)^[1] (acc, .judging (t :: cands)) = (acc, .counted
        (createdGangMembers acc.1.coord.pods (splitGangKey t.key).1 (splitGangKey t.key).2) t
        cands) := by
      simp [checkOn, Check.step]
    cases hverdict : t.verdict acc.1.coord.pods with
    | none =>
      have hspared : (checkOn now order)^[2] (acc, .judging (t :: cands)) =
          (Reconciler.giveUp acc t, .judging cands) := by
        rw [Function.iterate_succ_apply' _ 1, hcounted]
        unfold Candidate.verdict at hverdict
        simp [checkOn, Check.step, Reconciler.giveUp, Candidate.verdict, hverdict]
      refine ⟨n + 2, ?_⟩
      rw [Function.iterate_add_apply, hspared, hn]
      rfl
    | some reason =>
      have hfailed : (checkOn now order)^[4] (acc, .judging (t :: cands)) =
          (Reconciler.giveUp acc t, .judging cands) := by
        rw [Function.iterate_add_apply _ 3 1, hcounted]
        unfold Candidate.verdict at hverdict
        simp [checkOn, Check.step, Reconciler.giveUp, Candidate.verdict, hverdict,
          failGang_sections]
      refine ⟨n + 4, ?_⟩
      rw [Function.iterate_add_apply, hfailed, hn]
      rfl

/-- The sections in a row are a pass of `checkGangTimeouts`. -/
theorem checkGangTimeouts_sections (r : Reconciler V) (now : ℤ) (order : List String) :
    ∃ n, (checkOn now order)^[n] ((r, []), .idle) = (r.checkGangTimeouts now order, .idle) := by
  obtain ⟨n, hn⟩ := judging_sections now order
    ((entries order r.coord.engine.gangBook).filterMap fun entry => r.candidate now entry.1) (r, [])
  refine ⟨n + 2, ?_⟩
  rw [Function.iterate_add_apply]
  exact hn

end Timeouts

end AdScheduler.GangSections
