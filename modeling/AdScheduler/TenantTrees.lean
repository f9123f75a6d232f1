import AdScheduler.Fences
import AdScheduler.PlacementRules
import AdScheduler.QueueSpecs

/-! An assembled tree as a forest of namespaces: what stands below the node of a namespace
depends on the queues and quotas of that namespace alone, and the tree is accepted where
each namespace is. -/
namespace AdScheduler.TenantTrees
open KeyedMap Resources QueueTree TreeShape Manager Requests TreeAssembly SpecTree PlacementRules
open QueueSpecs DottedPath Fences

variable {V : Type*} [CommRing V] [LinearOrder V]

/-- The node of a namespace at its place below the root. -/
def tenantSite (node : Spec V) : Site V := ⟨some rootName, rootName ++ "." ++ node.name, node⟩

/-- The node of a namespace, with all that is below it, is accepted. -/
structure Tenant (node : Spec V) : Prop where
  sound : Sound (tenantSite node)
  sited : ∀ b, (tenantSite node).Below b → Sited b.queue
  compatible : ∀ a b, (tenantSite node).Below a → (tenantSite node).Below b → a.path ≠ b.path →
    Compatible a.queue b.queue

abbrev forest (nodes : List (Spec V)) : Spec V := bareSpec rootName ∅ nodes

omit [CommRing V] [LinearOrder V] in
lemma children_forest (nodes : List (Spec V)) :
    (rootSite (forest nodes)).children = nodes.map tenantSite := rfl

omit [CommRing V] [LinearOrder V] in
lemma below_forest_iff {nodes : List (Spec V)} {b : Site V} :
    (rootSite (forest nodes)).Below b ↔ b = rootSite (forest nodes) ∨
      ∃ node ∈ nodes, (tenantSite node).Below b := by
  simp only [Site.below_iff (a := rootSite (forest nodes)), children_forest, List.mem_map,
    exists_exists_and_eq_and]

omit [CommRing V] [LinearOrder V] in
lemma namespaceOf_below {node : Spec V} (hdot : '.' ∉ node.name.toList) {b : Site V}
    (h : (tenantSite node).Below b) : namespaceOf b.path = node.name := by
  have hpre := h.segments
  rw [tenantSite, segments_append, segments_name (by decide), segments_name hdot] at hpre
  rw [namespaceOf_segments hpre rfl, String.ofList_toList]

lemma checked_forest {nodes : List (Spec V)} (h : (nodes.map Spec.name).Nodup) :
    Checked (rootSite (forest nodes)).spec where
  name_ne := show rootName ≠ "" by decide
  undotted := show '.' ∉ rootName.toList by decide
  guaranteed_nonneg := by simp [rootSite, siteOf, bareSpec, nonNegative]
  max_nonneg := by simp [rootSite, siteOf, bareSpec, nonNegative]
  distinct := h
  within := by simp [rootSite, siteOf, bareSpec, maxWithinParent]
  covered := by simp [rootSite, siteOf, bareSpec, guaranteedCovers]

omit [CommRing V] [LinearOrder V] in
lemma root_compatible (nodes : List (Spec V)) (q : Queue V) :
    Compatible (rootSite (forest nodes)).queue q := by
  intro _
  simp [rootSite, siteOf, bareSpec, Site.queue, Queue.isDefaultLeaf]

/-- Namespaces are accepted one by one. -/
theorem acceptable_forest_iff (nodes : List (Spec V)) :
    Acceptable (forest nodes) ↔ (nodes.map Spec.name).Nodup ∧ ∀ node ∈ nodes, Tenant node := by
  constructor
  · intro h
    have hbelow : ∀ node ∈ nodes, ∀ b, (tenantSite node).Below b →
        (rootSite (forest nodes)).Below b := fun node hnode b hb =>
      below_forest_iff.mpr (.inr ⟨node, hnode, hb⟩)
    refine ⟨(h.sound _ (Site.below_self _)).distinct, fun node hnode => ⟨?_, ?_, ?_⟩⟩
    · exact fun b hb => h.sound b (hbelow node hnode b hb)
    · exact fun b hb => h.sited b (hbelow node hnode b hb)
    · exact fun a b ha hb => h.compatible a b (hbelow node hnode a ha) (hbelow node hnode b hb)
  · rintro ⟨hnodup, htenants⟩
    refine ⟨?_, fun b hb => ?_, fun a b ha hb hne => ?_⟩
    · rw [sound_iff, children_forest, List.forall_mem_map]
      exact ⟨checked_forest hnodup, fun node hnode => (htenants node hnode).sound⟩
    · rcases below_forest_iff.mp hb with rfl | ⟨node, hnode, hb⟩
      · intro hrouted
        exact absurd ⟨rfl, rfl⟩ hrouted
      · exact (htenants node hnode).sited b hb
    · rcases below_forest_iff.mp ha with rfl | ⟨node, hnode, ha⟩
      · exact root_compatible nodes _
      rcases below_forest_iff.mp hb with rfl | ⟨node', hnode', hb⟩
      · exact (root_compatible nodes _).symm
      by_cases hsame : node.name = node'.name
      · rw [List.inj_on_of_nodup_map hnodup hnode' hnode hsame.symm] at hb
        exact (htenants node hnode).compatible a b ha hb hne
      · -- in different namespaces nothing is shared
        intro hns
        have hdot : ∀ node ∈ nodes, '.' ∉ node.name.toList := fun node hnode =>
          ((htenants node hnode).sound (tenantSite node) (Site.below_self _)).undotted
        refine absurd ?_ hsame
        rw [← namespaceOf_below (hdot node hnode) ha, ← namespaceOf_below (hdot node' hnode') hb]
        exact hns

section Assembled

/-- The envelope of a namespace; without quotas nothing is bounded. -/
def envelopeOf (quotas : List (ResourceQuota V)) (ns : String) : Resource V :=
  ((envelopes quotas).lookup ns).getD ∅

/-- The node of a namespace with queues, as it is built from them and its quotas. -/
structure NodeOf (queues : List (QueueCR V)) (quotas : List (ResourceQuota V)) (ns : String)
    (node : Spec V) : Prop where
  onboarded : ∃ cr, cr ∈ tenantQueues queues ns
  built : buildNamespace ns (tenantQueues queues ns) (envelopeOf quotas ns) = .ok node

variable {queues : List (QueueCR V)} {quotas : List (ResourceQuota V)}

lemma NodeOf.name_eq {ns : String} {node : Spec V} (h : NodeOf queues quotas ns node) :
    node.name = ns := by
  obtain ⟨specs, rfl, -⟩ := buildNamespace_ok h.built
  rfl

lemma NodeOf.unique {ns : String} {node node' : Spec V} (h : NodeOf queues quotas ns node)
    (h' : NodeOf queues quotas ns node') : node = node' :=
  Except.ok.inj (h.built.symm.trans h'.built)

lemma NodeOf.perm {queues' : List (QueueCR V)} {ns : String}
    (hperm : (tenantQueues queues ns).Perm (tenantQueues queues' ns)) {node : Spec V}
    (h : NodeOf queues quotas ns node) : NodeOf queues' quotas ns node where
  onboarded := by
    obtain ⟨cr, hcr⟩ := h.onboarded
    exact ⟨cr, hperm.mem_iff.mp hcr⟩
  built := buildNamespace_perm hperm h.built

/-- The nodes of all namespaces with queues, in the order of their names. -/
def Nodes (queues : List (QueueCR V)) (quotas : List (ResourceQuota V)) (nodes : List (Spec V)) :
    Prop :=
  (sortedKeys (groupByNamespace queues)).map (fun ns =>
    buildNamespace ns (tenantQueues queues ns) (envelopeOf quotas ns)) = nodes.map .ok

lemma buildSpec_ok_iff {spec : Spec V} :
    buildSpec (queues.filter fun q => (validateQueue q).isOk) (envelopes quotas) = .ok spec ↔
      ∃ nodes, spec = forest nodes ∧ Nodes queues quotas nodes := by
  have hgroup : groupByNamespace (queues.filter fun q => (validateQueue q).isOk) =
      groupByNamespace queues := by
    simp only [groupByNamespace_eq, List.filter_filter, Bool.and_self]
  have htenants : tenantQueues (queues.filter fun q => (validateQueue q).isOk) =
      tenantQueues queues := by
    funext ns
    simp only [tenantQueues, List.filter_filter]
    exact List.filter_congr fun q _ => by cases (validateQueue q).isOk <;> simp
  simp only [buildSpec_eq_ok_iff, BuiltNodes, hgroup, htenants]
  rfl

lemma Nodes.built {nodes : List (Spec V)} (h : Nodes queues quotas nodes) :
    BuiltNodes queues (envelopeOf quotas) nodes := h

lemma Nodes.mem_iff {nodes : List (Spec V)} (h : Nodes queues quotas nodes) {node : Spec V} :
    node ∈ nodes ↔ ∃ ns, NodeOf queues quotas ns node := by
  rw [h.built.mem_iff]
  exact ⟨fun ⟨ns, hns, hbuilt⟩ => ⟨ns, hns, hbuilt⟩, fun ⟨ns, hn⟩ => ⟨ns, hn.onboarded, hn.built⟩⟩

lemma Nodes.nodup {nodes : List (Spec V)} (h : Nodes queues quotas nodes) :
    (nodes.map Spec.name).Nodup := by
  rw [h.built.names]
  exact (sortedKeys_visits _).1

lemma assemble_eq_ok_iff {m : QueueManager V} : assemble queues quotas = .ok m ↔
    ∃ nodes, Nodes queues quotas nodes ∧ newManager (forest nodes) = .ok m := by
  unfold assemble
  constructor
  · intro h
    split at h
    · cases h
    rename_i spec hspec
    obtain ⟨nodes, rfl, hnodes⟩ := buildSpec_ok_iff.mp hspec
    refine ⟨nodes, hnodes, ?_⟩
    split at h
    · cases h
    · rename_i mgr hmgr
      rw [hmgr, Except.ok.inj h]
  · rintro ⟨nodes, hnodes, hmgr⟩
    simp only [buildSpec_ok_iff.mpr ⟨nodes, rfl, hnodes⟩, hmgr]

/-- Assembly succeeds exactly where each namespace with queues is built and accepted. -/
theorem assemble_ok_iff : (∃ m, assemble queues quotas = .ok m) ↔
    ∀ ns, (∃ cr, cr ∈ tenantQueues queues ns) → ∃ node, NodeOf queues quotas ns node ∧
      Tenant node := by
  simp only [assemble_eq_ok_iff]
  constructor
  · rintro ⟨m, nodes, hnodes, hmgr⟩ ns hns
    obtain ⟨hacceptable, -⟩ := newManager_ok hmgr
    obtain ⟨node, hnode, hbuilt⟩ := hnodes.built.exists_node hns
    exact ⟨node, ⟨hns, hbuilt⟩, ((acceptable_forest_iff nodes).mp hacceptable).2 node hnode⟩
  · intro h
    obtain ⟨nodes, hok⟩ : ∃ nodes, Nodes queues quotas nodes := by
      refine exists_builtNodes fun ns hns => ?_
      obtain ⟨node, hn, -⟩ := h ns hns
      exact ⟨node, hn.built⟩
    have hacceptable : Acceptable (forest nodes) := by
      refine (acceptable_forest_iff nodes).mpr ⟨hok.nodup, fun node hnode => ?_⟩
      obtain ⟨ns, hn⟩ := hok.mem_iff.mp hnode
      obtain ⟨node', hn', htenant⟩ := h ns hn.onboarded
      rwa [hn.unique hn']
    obtain ⟨m, hm⟩ := newManager_of_acceptable hacceptable
    exact ⟨m, nodes, hok, hm⟩

/-- The queues of an assembled tree: the root, and what stands below the nodes of the
namespaces. -/
theorem assemble_lookup {m : QueueManager V} (h : assemble queues quotas = .ok m) {p : String}
    {x : Queue V} : m.index.lookup p = some x → p = rootName ∧ x.max = ∅ ∧ x.parent = none ∨
      ∃ ns node b, NodeOf queues quotas ns node ∧ Tenant node ∧ (tenantSite node).Below b ∧
        b.path = p ∧ x = b.queue := by
  obtain ⟨nodes, hnodes, hmgr⟩ := assemble_eq_ok_iff.mp h
  obtain ⟨hacceptable, hlook⟩ := newManager_ok hmgr
  intro hx
  obtain ⟨b, hb, hpath, rfl⟩ := (hlook p x).mp hx
  rcases below_forest_iff.mp hb with rfl | ⟨node, hnode, hb⟩
  · exact .inl ⟨hpath.symm, rfl, rfl⟩
  · obtain ⟨ns, hn⟩ := hnodes.mem_iff.mp hnode
    have htenant := ((acceptable_forest_iff nodes).mp hacceptable).2 node hnode
    exact .inr ⟨ns, node, b, hn, htenant, hb, hpath, rfl⟩

lemma lookup_of_below {m : QueueManager V} (h : assemble queues quotas = .ok m) {ns : String}
    {node : Spec V} (hn : NodeOf queues quotas ns node) {b : Site V}
    (hb : (tenantSite node).Below b) : m.index.lookup b.path = some b.queue := by
  obtain ⟨nodes, hnodes, hmgr⟩ := assemble_eq_ok_iff.mp h
  obtain ⟨-, hlook⟩ := newManager_ok hmgr
  exact (hlook _ _).mpr
    ⟨b, below_forest_iff.mpr (.inr ⟨node, hnodes.mem_iff.mpr ⟨ns, hn⟩, hb⟩), rfl,
    rfl⟩

end Assembled

end AdScheduler.TenantTrees
