import AdScheduler.RebuildRecompute
import AdScheduler.TenantTrees

/-! What the queues of one namespace do to the tree of another: a rebuild either publishes
all namespaces or keeps the old tree whole. -/
namespace AdScheduler.TenantIsolation
open KeyedMap Resources QueueTree TreeShape Manager Requests EngineCore TreeAssembly
open CoordinatorCore RebuildRecompute SpecTree QueueSpecs TenantTrees DottedPath Fences Outcomes

variable {V : Type*} [CommRing V] [LinearOrder V]

/-- The tree of the namespace's own queues is accepted. -/
def BuildsAlone (queues : List (QueueCR V)) (quotas : List (ResourceQuota V))
    (ns : String) : Prop :=
  ∃ m, assemble (queues.filter fun q => decide (q.ns = ns)) quotas = .ok m

section Alone
variable {queues : List (QueueCR V)} {quotas : List (ResourceQuota V)} {ns : String}

omit [CommRing V] [LinearOrder V] in
lemma tenantQueues_filter (ns' : String) :
    tenantQueues (queues.filter fun q => decide (q.ns = ns)) ns' =
      if ns' = ns then tenantQueues queues ns else [] := by
  rw [tenantQueues, List.filter_filter]
  split_ifs with hns
  · subst hns
    exact List.filter_congr fun q _ => by by_cases hq : q.ns = ns' <;> simp [hq]
  · refine List.filter_eq_nil_iff.mpr fun q _ => ?_
    rintro hq
    simp only [Bool.and_eq_true, decide_eq_true_eq] at hq
    exact hns (hq.1.2.symm.trans hq.2)

lemma buildsAlone_iff : BuildsAlone queues quotas ns ↔
    ((∃ cr, cr ∈ tenantQueues queues ns) → ∃ node, NodeOf queues quotas ns node ∧ Tenant node) := by
  have hnode : ∀ node, NodeOf (queues.filter fun q => decide (q.ns = ns)) quotas ns node ↔
      NodeOf queues quotas ns node := by
    intro node
    constructor
    · rintro ⟨honboarded, hbuilt⟩
      rw [tenantQueues_filter, if_pos rfl] at honboarded hbuilt
      exact ⟨honboarded, hbuilt⟩
    · rintro ⟨honboarded, hbuilt⟩
      constructor
      · rwa [tenantQueues_filter, if_pos rfl]
      · rwa [tenantQueues_filter, if_pos rfl]
  rw [BuildsAlone, assemble_ok_iff]
  constructor
  · intro h hcr
    obtain ⟨node, hn, htenant⟩ := h ns (by rwa [tenantQueues_filter, if_pos rfl])
    exact ⟨node, (hnode node).mp hn, htenant⟩
  · intro h ns' hcr
    rw [tenantQueues_filter] at hcr
    split_ifs at hcr with hns
    · subst hns
      obtain ⟨node, hn, htenant⟩ := h hcr
      exact ⟨node, (hnode node).mpr hn, htenant⟩
    · simp at hcr

lemma assemble_ok_iff_alone :
    (∃ m, assemble queues quotas = .ok m) ↔ ∀ ns, BuildsAlone queues quotas ns := by
  simp only [assemble_ok_iff, buildsAlone_iff]

lemma assemble_ok_of_others (halone : BuildsAlone queues quotas ns)
    (hothers : ∀ ns', ns' ≠ ns → BuildsAlone queues quotas ns') :
    ∃ m, assemble queues quotas = .ok m := by
  refine assemble_ok_iff_alone.mpr fun ns' => ?_
  by_cases hns : ns' = ns
  · exact hns ▸ halone
  · exact hothers ns' hns

lemma lookup_within {m : QueueManager V} (h : assemble queues quotas = .ok m) {p : String}
    (hdot : '.' ∉ ns.toList) (hp : pathWithinSubtree p (rootName ++ "." ++ ns) = true)
    (x : Queue V) :
    m.index.lookup p = some x ↔ ∃ node b, NodeOf queues quotas ns node ∧
      (tenantSite node).Below b ∧ b.path = p ∧ x = b.queue := by
  rw [pathWithinSubtree_iff, segments_append, segments_name (by decide), segments_name hdot] at hp
  constructor
  · intro hx
    rcases assemble_lookup h hx with ⟨rfl, -⟩ | ⟨ns', node, b, hn, htenant, hb, hpath, rfl⟩
    · have hlen := hp.length_le
      rw [segments_name (by decide)] at hlen
      simp at hlen
    · have hundotted : '.' ∉ node.name.toList := (htenant.sound _ (Site.below_self _)).undotted
      have hns : ns = ns' := by
        rw [← hn.name_eq, ← namespaceOf_below hundotted hb, hpath, namespaceOf_segments hp rfl,
          String.ofList_toList]
      subst hns
      exact ⟨node, b, hn, hb, hpath, rfl⟩
  · rintro ⟨node, b, hn, hb, rfl, rfl⟩
    exact lookup_of_below h hn hb

end Alone

/-- Whatever the engine holds, and in whatever order its maps are visited, a rebuild leaves a
live tree with these queues at and below the node of the namespace. -/
def Publishes (c : Coordinator V) (ns : String) (subtree : String → Option (Queue V)) : Prop :=
  ∀ (e : Engine V) (bookOrder gangOrder trackedOrder : List String), Visits bookOrder e.book →
    Visits gangOrder e.gangBook → Visits trackedOrder c.tracked →
    ∃ t, ({ c with engine := e }.rebuild bookOrder gangOrder trackedOrder).engine.tree = some t ∧
      ∀ p, pathWithinSubtree p (rootName ++ "." ++ ns) = true → t.index.lookup p = subtree p

lemma publishes_of_assemble {c : Coordinator V} {m : QueueManager V}
    (h : assemble c.queues c.quotas = .ok m) (ns : String) : Publishes c ns m.index.lookup := by
  intro e bookOrder gangOrder trackedOrder hb _ ht
  obtain ⟨t, ht, hindex⟩ := (rebuild_spec (c := { c with engine := e }) h hb gangOrder ht).1.tree
  exact ⟨t, ht, fun p _ => by rw [hindex]⟩

lemma assemble_of_publishes {c : Coordinator V} {ns : String} {subtree : String → Option (Queue V)}
    (h : Publishes c ns subtree) : ∃ m, assemble c.queues c.quotas = .ok m := by
  obtain ⟨t, ht, -⟩ := h (newEngine 0) [] [] (sortedKeys c.tracked) (sortedKeys_visits ∅)
    (sortedKeys_visits ∅) (sortedKeys_visits _)
  cases hm : assemble c.queues c.quotas with
  | ok m => exact ⟨m, rfl⟩
  | error err =>
    rw [Coordinator.rebuild] at ht
    simp only [hm] at ht
    cases ht

/-- Two rebuilds publish the same subtree of a namespace whose queues they agree on exactly
where every other namespace of either of them is accepted by itself. -/
theorem rebuild_isolates_tenant_iff (c₁ c₂ : Coordinator V) (ns : String)
    (hdot : '.' ∉ ns.toList) (hquotas : c₁.quotas = c₂.quotas)
    (hagree : (c₁.queues.filter fun q => decide (q.ns = ns)).Perm
      (c₂.queues.filter fun q => decide (q.ns = ns)))
    (halone : BuildsAlone c₁.queues c₁.quotas ns) :
    (∃ subtree, Publishes c₁ ns subtree ∧ Publishes c₂ ns subtree) ↔
      ∀ ns', ns' ≠ ns → BuildsAlone c₁.queues c₁.quotas ns' ∧
        BuildsAlone c₂.queues c₂.quotas ns' := by
  have hperm : (tenantQueues c₁.queues ns).Perm (tenantQueues c₂.queues ns) := by
    have hvalid := hagree.filter fun q => (validateQueue q).isOk
    simpa only [List.filter_filter, tenantQueues] using hvalid
  constructor
  · rintro ⟨subtree, h₁, h₂⟩ ns' -
    exact ⟨assemble_ok_iff_alone.mp (assemble_of_publishes h₁) ns',
      assemble_ok_iff_alone.mp (assemble_of_publishes h₂) ns'⟩
  · intro h
    have halone₂ : BuildsAlone c₂.queues c₂.quotas ns := by
      rw [buildsAlone_iff] at halone ⊢
      rintro ⟨cr, hcr⟩
      obtain ⟨node, hn, htenant⟩ := halone ⟨cr, hperm.mem_iff.mpr hcr⟩
      exact ⟨node, hquotas ▸ hn.perm hperm, htenant⟩
    obtain ⟨m₁, hm₁⟩ := assemble_ok_of_others halone fun ns' hns => (h ns' hns).1
    obtain ⟨m₂, hm₂⟩ := assemble_ok_of_others halone₂ fun ns' hns => (h ns' hns).2
    have hsame : ∀ p, pathWithinSubtree p (rootName ++ "." ++ ns) = true →
        m₂.index.lookup p = m₁.index.lookup p := by
      intro p hp
      refine Option.ext fun x => ?_
      rw [lookup_within hm₂ hdot hp, lookup_within hm₁ hdot hp]
      constructor
      · rintro ⟨node, b, hn, hb⟩
        exact ⟨node, b, hquotas ▸ hn.perm hperm.symm, hb⟩
      · rintro ⟨node, b, hn, hb⟩
        exact ⟨node, b, hquotas ▸ hn.perm hperm, hb⟩
    refine ⟨m₁.index.lookup, publishes_of_assemble hm₁ ns, ?_⟩
    intro e bookOrder gangOrder trackedOrder hb hg ht
    obtain ⟨t, ht, hindex⟩ := publishes_of_assemble hm₂ ns e bookOrder gangOrder
      trackedOrder hb hg ht
    exact ⟨t, ht, fun p hp => (hindex p hp).trans (hsame p hp)⟩

def onlyQueues (queues : List (QueueCR ℤ)) : Coordinator ℤ :=
  { newCoordinator (newEngine 0) with queues := queues }

/-- A queue of another namespace that names an unknown parent withholds the tree of a
namespace that is in order. -/
theorem unknown_parent_withholds_tree :
    let jobs := bareQueue "team" "jobs" 10 []
    let stray := { bareQueue "other" "etl" 10 [] with parent := "missing" }
    (validateQueue jobs).isOk = true ∧ BuildsAlone [jobs] [] "team" ∧
    (validateQueue stray).isOk = true ∧
    ((onlyQueues [jobs]).rebuild [] [] []).engine.tree.any
      (fun t => decide ("root.team.jobs" ∈ t.index)) = true ∧
    ((onlyQueues [jobs, stray]).rebuild [] [] []).engine.tree.isNone = true ∧
    ¬ ∃ subtree, Publishes (onlyQueues [jobs]) "team" subtree ∧
      Publishes (onlyQueues [jobs, stray]) "team" subtree := by
  intro jobs stray
  have hnone : ((onlyQueues [jobs, stray]).rebuild [] [] []).engine.tree.isNone = true := by
    decide +kernel
  refine ⟨by decide +kernel, exists_ok_of_isOk (by decide +kernel), by decide +kernel,
    by decide +kernel, hnone, ?_⟩
  rintro ⟨subtree, -, h⟩
  obtain ⟨t, ht, -⟩ := h (newEngine 0) [] [] [] (sortedKeys_visits ∅) (sortedKeys_visits ∅)
    (sortedKeys_visits ∅)
  have hsame : ((onlyQueues [jobs, stray]).rebuild [] [] []).engine.tree = some t := ht
  simp [hsame] at hnone

theorem sound_neighbour_publishes :
    let jobs := bareQueue "team" "jobs" 10 []
    let etl := bareQueue "other" "etl" 10 []
    ∃ subtree, Publishes (onlyQueues [jobs]) "team" subtree ∧
      Publishes (onlyQueues [etl, jobs]) "team" subtree := by
  intro jobs etl
  refine (rebuild_isolates_tenant_iff (onlyQueues [jobs]) (onlyQueues [etl, jobs]) "team"
    (by decide) rfl (List.Perm.refl _) (exists_ok_of_isOk (by decide +kernel))).mpr fun ns' _ => ?_
  have hone : ∃ m, assemble [jobs] [] = .ok m := exists_ok_of_isOk (by decide +kernel)
  have htwo : ∃ m, assemble [etl, jobs] [] = .ok m := exists_ok_of_isOk (by decide +kernel)
  exact ⟨assemble_ok_iff_alone.mp hone ns', assemble_ok_iff_alone.mp htwo ns'⟩

end AdScheduler.TenantIsolation
