import AdScheduler.Placement
import AdScheduler.Reconciling
import AdScheduler.Runs
import AdScheduler.TreeAssembly

/-! The quotas that bound the number of pods, after `syncCountQuotas` in
`pkg/framework/countquota.go`: one for each namespace of the tree, created and never changed. -/
namespace AdScheduler.CountGuards
open KeyedMap Resources Requests Manager TreeAssembly Reconciling Runs

def countGuardName : String := "ad-scheduler-count-guard"

abbrev QuotaKey := String × String

abbrev Quotas := Map QuotaKey (ResourceQuota ℤ)

def countGuard (ns : String) (limit : ℤ) : ResourceQuota ℤ :=
  ⟨ns, Finmap.singleton "count/pods" ⟨limit, 1000 * limit⟩, ∅⟩

/-- What is there already is not created again. -/
def create (reply : Reply) (k : QuotaKey) (rq : ResourceQuota ℤ) (quotas : Quotas) : Quotas :=
  if k ∈ quotas then quotas else put reply k rq quotas

/-- One turn of the reconcile loop: its settings, the tree it reads, and how its calls end. -/
structure Tick where
  autoCountQuota : Bool
  countPodsLimit : ℤ
  client : Bool
  tree : Option (QueueManager ℤ)
  reply : String → Reply

namespace Tick
variable (tk : Tick)

def guardOne (acc : Finset String × Quotas) (q : QueueTree.Queue ℤ) : Finset String × Quotas :=
  let ns := namespaceOf q.path
  if ns = "" ∨ ns ∈ acc.1 then acc
  else (insert ns acc.1, create (tk.reply ns) (ns, countGuardName)
    (countGuard ns tk.countPodsLimit) acc.2)

def syncCountQuotas (quotas : Quotas) : Quotas :=
  if !tk.autoCountQuota || !tk.client then quotas
  else
    match tk.tree with
    | none => quotas
    | some t => ((all t.index).foldl tk.guardOne (∅, quotas)).2

end Tick

/-- The quotas at the API server, and what they would be without the loop. -/
structure World where
  api : Quotas
  admin : Quotas

/-- The quota controller copies the hard limits of one quota into its status. -/
def observe (k : QuotaKey) (quotas : Quotas) : Quotas :=
  match quotas.lookup k with
  | none => quotas
  | some rq => quotas.insert k { rq with statusHard := rq.specHard }

inductive Step
  | tick (tk : Tick)
  | write (k : QuotaKey) (rq : ResourceQuota ℤ)
  | remove (k : QuotaKey)
  | observe (k : QuotaKey)

def World.next (w : World) : Step → World
  | .tick tk => { w with api := tk.syncCountQuotas w.api }
  | .write k rq => ⟨w.api.insert k rq, w.admin.insert k rq⟩
  | .remove k => ⟨w.api.erase k, w.admin.erase k⟩
  | .observe k => ⟨CountGuards.observe k w.api, CountGuards.observe k w.admin⟩

/-- Ticks, the administrators and the quota controller, in any order. -/
def world : Machine World Step := ⟨fun _ _ => True, World.next⟩

section Loop
variable {tk : Tick} {quotas : Quotas} {k : QuotaKey}

lemma lookup_create (reply : Reply) (j : QuotaKey) (rq : ResourceQuota ℤ) (quotas : Quotas)
    (k : QuotaKey) :
    (create reply j rq quotas).lookup k = quotas.lookup k ∨
      k = j ∧ j ∉ quotas ∧ (create reply j rq quotas).lookup k = some rq := by
  unfold create
  by_cases hj : j ∈ quotas
  · simp [hj]
  · rw [if_neg hj, lookup_put]
    by_cases happ : k = j ∧ reply.applied = true
    · simp [happ, hj]
    · simp [happ]

lemma lookup_guardAll (queues : List (QueueTree.Queue ℤ)) (acc : Finset String × Quotas)
    (k : QuotaKey) :
    (queues.foldl tk.guardOne acc).2.lookup k = acc.2.lookup k ∨
      acc.2.lookup k = none ∧ k.2 = countGuardName ∧
        (queues.foldl tk.guardOne acc).2.lookup k = some (countGuard k.1 tk.countPodsLimit) := by
  induction queues generalizing acc with
  | nil => exact .inl rfl
  | cons q rest ih =>
    rw [List.foldl_cons]
    by_cases hskip : namespaceOf q.path = "" ∨ namespaceOf q.path ∈ acc.1
    · rw [Tick.guardOne, if_pos hskip]
      exact ih acc
    rw [Tick.guardOne, if_neg hskip]
    have hfirst := lookup_create (tk.reply (namespaceOf q.path))
      (namespaceOf q.path, countGuardName)
      (countGuard (namespaceOf q.path) tk.countPodsLimit) acc.2 k
    generalize create _ _ _ acc.2 = made at hfirst ⊢
    have hrest := ih (insert (namespaceOf q.path) acc.1, made)
    rcases hfirst with hsame | ⟨rfl, hnew, hmade⟩
    · rwa [hsame] at hrest
    · refine .inr ⟨Finmap.lookup_eq_none.mpr hnew, rfl, ?_⟩
      rcases hrest with hkept | ⟨hnone, -⟩
      · rw [hkept, hmade]
      · rw [hmade] at hnone
        cases hnone

lemma lookup_syncCountQuotas (tk : Tick) (quotas : Quotas) (k : QuotaKey) :
    (tk.syncCountQuotas quotas).lookup k = quotas.lookup k ∨
      quotas.lookup k = none ∧ k.2 = countGuardName ∧
        (tk.syncCountQuotas quotas).lookup k = some (countGuard k.1 tk.countPodsLimit) := by
  unfold Tick.syncCountQuotas
  split
  · exact .inl rfl
  split
  · exact .inl rfl
  · exact lookup_guardAll _ _ k

lemma seen_guardOne (tk : Tick) (acc : Finset String × Quotas) (q : QueueTree.Queue ℤ) :
    acc.1 ⊆ (tk.guardOne acc q).1 ∧
      (namespaceOf q.path ≠ "" → namespaceOf q.path ∈ (tk.guardOne acc q).1) := by
  by_cases hskip : namespaceOf q.path = "" ∨ namespaceOf q.path ∈ acc.1
  · rw [Tick.guardOne, if_pos hskip]
    exact ⟨subset_rfl, hskip.resolve_left⟩
  · rw [Tick.guardOne, if_neg hskip]
    exact ⟨Finset.subset_insert _ _, fun _ => Finset.mem_insert_self _ _⟩

lemma mem_create_done (k j : QuotaKey) (rq : ResourceQuota ℤ) (quotas : Quotas) :
    k ∈ create .done j rq quotas ↔ k = j ∨ k ∈ quotas := by
  unfold create put
  by_cases hj : j ∈ quotas
  · rw [if_pos hj]
    exact ⟨.inr, fun h => h.elim (fun hk => hk ▸ hj) id⟩
  · rw [if_neg hj, Reply.applied, if_pos rfl, Finmap.mem_insert]

lemma guardOne_guards (hdone : ∀ ns, tk.reply ns = .done) {acc : Finset String × Quotas}
    (h : ∀ ns ∈ acc.1, (ns, countGuardName) ∈ acc.2) (q : QueueTree.Queue ℤ) :
    ∀ ns ∈ (tk.guardOne acc q).1, (ns, countGuardName) ∈ (tk.guardOne acc q).2 := by
  by_cases hskip : namespaceOf q.path = "" ∨ namespaceOf q.path ∈ acc.1
  · rw [Tick.guardOne, if_pos hskip]
    exact h
  · rw [Tick.guardOne, if_neg hskip, hdone]
    intro ns hns
    rw [mem_create_done]
    rcases Finset.mem_insert.mp hns with rfl | hns
    · exact .inl rfl
    · exact .inr (h ns hns)

lemma mem_syncCountQuotas {t : QueueManager ℤ} (hon : tk.autoCountQuota = true)
    (hclient : tk.client = true)
    (ht : tk.tree = some t) (hdone : ∀ ns, tk.reply ns = .done) {q : QueueTree.Queue ℤ}
    (hq : q ∈ all t.index) (hns : namespaceOf q.path ≠ "") (quotas : Quotas) :
    (namespaceOf q.path, countGuardName) ∈ tk.syncCountQuotas quotas := by
  simp only [Tick.syncCountQuotas, hon, hclient, ht, Bool.not_true, Bool.or_self,
    Bool.false_eq_true, if_false]
  have hguards : ∀ ns ∈ ((all t.index).foldl tk.guardOne (∅, quotas)).1,
      (ns, countGuardName) ∈ ((all t.index).foldl tk.guardOne (∅, quotas)).2 :=
    List.foldlRecOn (motive := fun acc : Finset String × Quotas =>
      ∀ ns ∈ acc.1, (ns, countGuardName) ∈ acc.2)
      _ _ (by simp) fun _ h q _ => guardOne_guards hdone h q
  refine hguards _ ?_
  exact foldl_establishes (fun acc : Finset String × Quotas => namespaceOf q.path ∈ acc.1)
    (fun acc x _ hin => (seen_guardOne tk acc x).1 hin) hq
      (fun acc => (seen_guardOne tk acc q).2 hns) _

end Loop

section Shadow
variable {w : World}

/-- Every limit of the quota is one on the number of pods. -/
def CountsOnly (rq : ResourceQuota ℤ) : Prop :=
  (∀ name ∈ rq.specHard, name = "count/pods") ∧ ∀ name ∈ rq.statusHard, name = "count/pods"

/-- Beside the quotas of the administrators there are guards only. -/
def Shadows (w : World) : Prop :=
  ∀ k, w.api.lookup k = w.admin.lookup k ∨
    w.admin.lookup k = none ∧ k.2 = countGuardName ∧ ∃ rq, w.api.lookup k = some rq ∧ CountsOnly rq

lemma countsOnly_countGuard (ns : String) (limit : ℤ) : CountsOnly (countGuard ns limit) :=
  ⟨fun _ hname => (Finmap.mem_singleton _ _ _).mp hname,
    fun _ hname => absurd hname Finmap.notMem_empty⟩

lemma lookup_observe (j : QuotaKey) (quotas : Quotas) (k : QuotaKey) :
    (observe j quotas).lookup k = (quotas.lookup k).map fun rq =>
      if k = j then { rq with statusHard := rq.specHard } else rq := by
  unfold observe
  by_cases hk : k = j
  · subst hk
    cases hrq : quotas.lookup k with
    | none => simp [hrq]
    | some rq => simp
  · cases hrq : quotas.lookup j with
    | none => simp [hk]
    | some rq => simp [hk, Finmap.lookup_insert_of_ne]

lemma shadows_next (h : Shadows w) (step : Step) : Shadows (w.next step) := by
  intro k
  cases step with
  | tick tk =>
    rcases lookup_syncCountQuotas tk w.api k with hsame | ⟨hnone, hname, hmade⟩
    · exact hsame.symm ▸ h k
    · rcases h k with heq | ⟨-, -, rq, hrq, -⟩
      · exact .inr ⟨heq ▸ hnone, hname, _, hmade, countsOnly_countGuard _ _⟩
      · rw [hnone] at hrq
        cases hrq
  | write j rq =>
    simp only [World.next, lookup_insert_ite]
    split_ifs
    · exact .inl rfl
    · exact h k
  | remove j =>
    simp only [World.next, lookup_erase_ite]
    split_ifs
    · exact .inl rfl
    · exact h k
  | observe j =>
    simp only [World.next, lookup_observe]
    rcases h k with heq | ⟨hnone, hname, rq, hrq, hcounts⟩
    · exact .inl (by rw [heq])
    · refine .inr ⟨by simp [hnone], hname, _, by rw [hrq, Option.map_some], ?_⟩
      split_ifs
      · exact ⟨hcounts.1, hcounts.1⟩
      · exact hcounts

def listing (order : List QuotaKey) (quotas : Quotas) : List (ResourceQuota ℤ) :=
  order.filterMap quotas.lookup

lemma quotaEnvelope_eq_empty {hard : ResourceList ℤ} (h : ∀ name ∈ hard, name = "count/pods") :
    quotaEnvelope hard = ∅ := by
  refine List.foldlRecOn (motive := fun env => env = ∅) _ _ rfl fun env henv name _ => ?_
  unfold quotaEnvelope.tighten
  split
  · exact henv
  · rename_i rq hrq
    have hdim : envelopeDim name = "" := by
      rw [h name (Finmap.mem_of_lookup_eq_some hrq)]
      decide
    simp [hdim, henv]

lemma collect_countsOnly {rq : ResourceQuota ℤ} (h : CountsOnly rq)
    (out : Map String (Resource ℤ)) :
    envelopes.collect out rq = out := by
  have hempty :
      quotaEnvelope (if rq.statusHard.keys = ∅ then rq.specHard else rq.statusHard) = ∅ := by
    split_ifs
    · exact quotaEnvelope_eq_empty h.1
    · exact quotaEnvelope_eq_empty h.2
  simp [envelopes.collect, hempty]

lemma envelopes_listing (h : Shadows w) (order : List QuotaKey) :
    envelopes (listing order w.api) = envelopes (listing order w.admin) := by
  unfold envelopes
  generalize (∅ : Map String (Resource ℤ)) = out
  induction order generalizing out with
  | nil => rfl
  | cons k rest ih =>
    rcases h k with heq | ⟨hnone, -, rq, hrq, hcounts⟩
    · cases hrq : w.admin.lookup k with
      | none =>
        rw [hrq] at heq
        simpa [listing, heq, hrq] using ih out
      | some rq =>
        rw [hrq] at heq
        simpa [listing, heq, hrq] using ih (envelopes.collect out rq)
    · simpa [listing, hnone, hrq, collect_countsOnly hcounts] using ih out

/-- The guards are seen by nobody but the API server. However the ticks, the administrators and the
quota controller follow one another and the calls fail: what an administrator wrote is there
unchanged, what is there besides has the name of a guard, and every list of Queues makes the same
tree, or fails in the same way, as it would without the loop. -/
theorem count_guards_leave_trees_alone {w w' : World} {steps : List Step} (h0 : w.api = w.admin)
    (hrun : Run world w steps w') :
    (∀ k rq, w'.admin.lookup k = some rq → w'.api.lookup k = some rq) ∧
      (∀ k ∈ w'.api, k ∉ w'.admin → k.2 = countGuardName) ∧
      ∀ queues order,
        assemble queues (listing order w'.api) = assemble queues (listing order w'.admin) := by
  have h : Shadows w' := hrun.invariant (I := Shadows) (fun k => .inl (by rw [h0]))
    fun _ step hw _ => shadows_next hw step
  refine ⟨fun k rq hrq => ?_, fun k hk hforeign => ?_, fun queues order => ?_⟩
  · rcases h k with heq | ⟨hnone, -⟩
    · rw [heq, hrq]
    · rw [hrq] at hnone
      cases hnone
  · rcases h k with heq | ⟨-, hname, -⟩
    · rw [Finmap.mem_iff, heq] at hk
      exact absurd (Finmap.mem_iff.mpr hk) hforeign
    · exact hname
  · rw [assemble, envelopes_listing h, assemble]

/-- A tick whose calls succeed leaves a quota of this name in every namespace of its tree, and no
tick after it, whatever tree and limit it reads, changes or deletes one: a new limit does not reach
the guards of before. -/
theorem guards_outlive_limits (tk : Tick) {t : QueueManager ℤ} (hon : tk.autoCountQuota = true)
    (hclient : tk.client = true) (ht : tk.tree = some t) (hdone : ∀ ns, tk.reply ns = .done)
    {q : QueueTree.Queue ℤ} (hq : q ∈ all t.index) (hns : namespaceOf q.path ≠ "") (quotas : Quotas)
    (later : List Tick) :
    ∃ rq, (tk.syncCountQuotas quotas).lookup (namespaceOf q.path, countGuardName) = some rq ∧
      (later.foldl (fun quotas tk' => tk'.syncCountQuotas quotas)
        (tk.syncCountQuotas quotas)).lookup
        (namespaceOf q.path, countGuardName) = some rq := by
  obtain ⟨rq, hrq⟩ := Finmap.mem_iff.mp (mem_syncCountQuotas hon hclient ht hdone hq hns quotas)
  refine ⟨rq, hrq, ?_⟩
  refine List.foldlRecOn (motive := fun quotas : Quotas =>
    quotas.lookup (namespaceOf q.path, countGuardName) = some rq) _ _ hrq
      fun quotas' hkept tk' _ => ?_
  rcases lookup_syncCountQuotas tk' quotas' (namespaceOf q.path, countGuardName)
    with hsame | ⟨hnone, -⟩
  · rw [hsame, hkept]
  · rw [hkept] at hnone
    cases hnone

def guardTick (limit : ℤ) : Tick :=
  ⟨true, limit, true, some (treeOf (Placement.oneTenant 10) Placement.oneTenant_isOk),
    fun _ => .done⟩

def envelopeOnly : World :=
  let quotas := Finmap.singleton ("team", "envelope") ⟨"team", Finmap.singleton "cpu" ⟨4, 4000⟩, ∅⟩
  ⟨quotas, quotas⟩

theorem guarded_tenant_keeps_tree :
    let w := [Step.tick (guardTick 5000), .observe ("team", countGuardName)].foldl
      world.next envelopeOnly
    let order := [("team", "envelope"), ("team", countGuardName)]
    assemble [bareQueue "team" "jobs" 10 []] (listing order w.api)
      = assemble [bareQueue "team" "jobs" 10 []] (listing order envelopeOnly.admin) := by
  intro w order
  have hlegal : world.Legal envelopeOnly
      [.tick (guardTick 5000), .observe ("team", countGuardName)] :=
    ⟨trivial, trivial, trivial⟩
  exact (count_guards_leave_trees_alone rfl hlegal.run).2.2 _ order

theorem guard_keeps_first_limit :
    ∃ rq, ((guardTick 5000).syncCountQuotas ∅).lookup ("team", countGuardName) = some rq ∧
      ((guardTick 100).syncCountQuotas ((guardTick 5000).syncCountQuotas ∅)).lookup
        ("team", countGuardName)
        = some rq := by
  have htenant : ∃ q ∈ all (treeOf (Placement.oneTenant 10) Placement.oneTenant_isOk).index,
      namespaceOf q.path = "team" := by decide +kernel
  obtain ⟨q, hq, hns⟩ := htenant
  have hguarded := guards_outlive_limits (guardTick 5000) rfl rfl rfl (fun _ => rfl) hq
    (by rw [hns]; decide) ∅ [guardTick 100]
  rwa [hns] at hguarded

end Shadow

end AdScheduler.CountGuards
