import AdScheduler.Headroom
import AdScheduler.TenantTrees

/-! The queues of an assembled tree by what they come from: the root, the node of a
namespace, or a custom resource. -/
namespace AdScheduler.DeclaredQueues
open KeyedMap Resources QueueTree TreeShape Manager Requests TreeAssembly Conservation Headroom
open SpecTree PlacementRules QueueSpecs TenantTrees DottedPath Fences

variable {V : Type*} [CommRing V] [LinearOrder V]

/-- The queue of the tree stands for a custom resource: it has its name, in its namespace,
and is below the namespace's node. -/
structure CrOf (queues : List (QueueCR V)) (x : Queue V) (cr : QueueCR V) : Prop where
  mem : cr ∈ queues
  valid : (validateQueue cr).isOk = true
  name_eq : x.name = cr.name
  ns_eq : namespaceOf x.path = cr.ns
  nested : ∃ pp, x.parent = some pp ∧ pp ≠ rootName

/-- The queue of the tree is the node of a namespace. -/
structure NodeQueue (quotas : List (ResourceQuota V)) (ns : String) (x : Queue V) : Prop where
  ns_eq : namespaceOf x.path = ns
  parent_eq : x.parent = some rootName
  max_eq : x.max = envelopeOf quotas ns

omit [CommRing V] [LinearOrder V] in
lemma path_ne_rootName {node : Spec V} {b : Site V} (hb : (tenantSite node).Below b) :
    b.path ≠ rootName := by
  intro he
  have hle := hb.segments.length_le
  have hpos := List.length_pos_of_ne_nil (segments_ne_nil node.name)
  rw [he, tenantSite, segments_append, segments_name (by decide), List.length_append] at hle
  simp only [List.length_singleton] at hle
  omega

lemma declared_below {ns : String} {envelope : Resource V} {crs : List (QueueCR V)}
    {specs : List (Spec V)} (hspecs : ∀ s ∈ specs, Declared crs s) {b : Site V}
    (hb : (tenantSite (bareSpec ns envelope specs)).Below b) :
    b = tenantSite (bareSpec ns envelope specs) ∨
      Declared crs b.spec ∧ ∃ pp, b.parent = some pp ∧ pp ≠ rootName := by
  induction hb with
  | refl => exact .inl rfl
  | tail hab hstep ih =>
    rename_i a b
    obtain ⟨c, hc, rfl⟩ := List.mem_map.mp hstep
    refine .inr ⟨?_, _, rfl, path_ne_rootName hab⟩
    rcases ih with rfl | ⟨hdeclared, -⟩
    · exact hspecs c hc
    · obtain ⟨cr, -, -, hbelow⟩ := hdeclared.exists_cr
      exact hbelow c hc

variable {queues : List (QueueCR V)} {quotas : List (ResourceQuota V)} {m : QueueManager V}

/-- Every queue of an assembled tree by its origin. -/
theorem assemble_origin (h : assemble queues quotas = .ok m) {p : String} {x : Queue V}
    (hx : m.index.lookup p = some x) : p = rootName ∧ x.max = ∅ ∧ x.parent = none ∨
      (∃ ns, NodeQueue quotas ns x) ∨
      ∃ cr, CrOf queues x cr ∧ x.max = fromQuantityMap cr.max := by
  rcases assemble_lookup h hx with hroot | ⟨ns, node, b, hn, htenant, hb, rfl, rfl⟩
  · exact .inl hroot
  right
  have hundotted : '.' ∉ node.name.toList := (htenant.sound _ (Site.below_self _)).undotted
  have hns : namespaceOf b.path = ns := (namespaceOf_below hundotted hb).trans hn.name_eq
  obtain ⟨specs, rfl, hstands⟩ := buildNamespace_ok hn.built
  rcases declared_below hstands.declared hb with rfl | ⟨hdeclared, hparent⟩
  · exact .inl ⟨ns, hns, rfl, rfl⟩
  · obtain ⟨cr, hcr, hspec, -⟩ := hdeclared.exists_cr
    obtain ⟨hmem, hvalid, hcrns⟩ := mem_tenantQueues.mp hcr
    have hname : b.queue.name = cr.name := congrArg Spec.name hspec
    exact .inr ⟨cr, ⟨hmem, hvalid, hname, hns.trans hcrns.symm, hparent⟩, congrArg Spec.max hspec⟩

lemma cr_unique (h : assemble queues quotas = .ok m) {x : Queue V} {cr cr' : QueueCR V}
    (hcr : CrOf queues x cr) (hcr' : CrOf queues x cr') : cr = cr' := by
  have hmem : cr ∈ tenantQueues queues cr.ns := mem_tenantQueues.mpr ⟨hcr.mem, hcr.valid, rfl⟩
  have hmem' : cr' ∈ tenantQueues queues cr.ns :=
    mem_tenantQueues.mpr ⟨hcr'.mem, hcr'.valid, hcr'.ns_eq.symm.trans hcr.ns_eq⟩
  obtain ⟨node, hn, -⟩ := assemble_ok_iff.mp ⟨m, h⟩ cr.ns ⟨cr, hmem⟩
  obtain ⟨specs, -, hstands⟩ := buildNamespace_ok hn.built
  exact List.inj_on_of_nodup_map hstands.distinct hmem hmem' (hcr.name_eq.symm.trans hcr'.name_eq)

lemma max_eq_of_crOf (h : assemble queues quotas = .ok m) {p : String} {x : Queue V}
    (hx : m.index.lookup p = some x) {cr : QueueCR V} (hcr : CrOf queues x cr) :
    x.max = fromQuantityMap cr.max := by
  obtain ⟨pp, hparent, hne⟩ := hcr.nested
  rcases assemble_origin h hx with ⟨-, -, hroot⟩ | ⟨ns, hnode⟩ | ⟨cr', hcr', hmax⟩
  · rw [hroot] at hparent
    cases hparent
  · exact absurd (Option.some.inj (hparent.symm.trans hnode.parent_eq)) hne
  · rw [hmax, cr_unique h hcr hcr']

lemma exists_node (h : assemble queues quotas = .ok m) {p : String} (hp : p ∈ m.index)
    (hne : p ≠ rootName) : ∃ n ∈ pathUp m.index p, NodeQueue quotas (namespaceOf p) n := by
  obtain ⟨x, hx⟩ := Finmap.mem_iff.mp hp
  rcases assemble_lookup h hx with ⟨hroot, -⟩ | ⟨ns, node, b, hn, htenant, hb, rfl, rfl⟩
  · exact absurd hroot hne
  have hundotted : '.' ∉ node.name.toList := (htenant.sound _ (Site.below_self _)).undotted
  have hns : namespaceOf b.path = ns := (namespaceOf_below hundotted hb).trans hn.name_eq
  have hself : namespaceOf (tenantSite node).path = ns :=
    (namespaceOf_below hundotted (Site.below_self _)).trans hn.name_eq
  refine ⟨(tenantSite node).queue, mem_pathUp_of_segments m.wf.toShape hp
    (lookup_of_below h hn (Site.below_self _)) hb.segments, ?_⟩
  obtain ⟨specs, rfl, -⟩ := buildNamespace_ok hn.built
  rw [hns]
  exact ⟨hself, rfl, rfl⟩

lemma exists_node_of_crOf (h : assemble queues quotas = .ok m) {p : String} (hp : p ∈ m.index)
    {n : Queue V} (hn : n ∈ pathUp m.index p) {cr : QueueCR V} (hcr : CrOf queues n cr) :
    ∃ node ∈ pathUp m.index p, NodeQueue quotas cr.ns node := by
  have hlook := lookup_of_mem_pathUp m.wf.toShape hn
  obtain ⟨pp, hparent, -⟩ := hcr.nested
  have hne : n.path ≠ rootName := by
    intro he
    have hlen := congrArg List.length (segments_child m.wf.toShape hlook hparent)
    have hpos := List.length_pos_of_ne_nil (segments_ne_nil pp)
    rw [he, segments_name (by decide), List.length_append] at hlen
    simp only [List.length_singleton] at hlen
    omega
  obtain ⟨node, hnode, hns⟩ := exists_node h (Finmap.mem_of_lookup_eq_some hlook) hne
  refine ⟨node, ?_, hcr.ns_eq ▸ hns⟩
  refine mem_pathUp_of_segments m.wf.toShape hp (lookup_of_mem_pathUp m.wf.toShape hnode) ?_
  exact (segments_of_mem_pathUp m.wf.toShape hnode).trans (segments_of_mem_pathUp m.wf.toShape hn)

lemma NodeQueue.segments_eq {ns p : String} {n : Queue V} (hnode : NodeQueue quotas ns n)
    (hn : m.index.lookup p = some n) : segments p = [rootName.toList, n.name.toList] := by
  rw [segments_child m.wf.toShape hn hnode.parent_eq, segments_name (by decide)]
  rfl

lemma NodeQueue.ns_of_mem_pathUp {ns p : String} {n : Queue V} (hnode : NodeQueue quotas ns n)
    (hn : n ∈ pathUp m.index p) : p ≠ rootName ∧ namespaceOf p = ns := by
  have hpre := segments_of_mem_pathUp m.wf.toShape hn
  have hsegs := hnode.segments_eq (lookup_of_mem_pathUp m.wf.toShape hn)
  rw [hsegs] at hpre
  constructor
  · rintro rfl
    have hle := hpre.length_le
    rw [segments_name (by decide)] at hle
    simp at hle
  · have hself : namespaceOf n.path = String.ofList n.name.toList :=
      namespaceOf_segments (by rw [hsegs]) rfl
    rw [namespaceOf_segments hpre rfl, ← hself, hnode.ns_eq]

section Caps
variable {rl : ResourceList V} {d : String}

lemma mem_fromQuantityMap :
    d ∈ (fromQuantityMap rl).keys ↔ ∃ q, rl.lookup d = some q ∧ quantityToUnit d q ≠ 0 := by
  have hget : d ∈ (fromQuantityMap rl).keys ↔ get (fromQuantityMap rl) d ≠ 0 := mem_prune_iff
  rw [hget, get_fromQuantityMap]
  cases rl.lookup d <;> simp

lemma allows_fromQuantityMap (x : V) : Allows (fromQuantityMap rl) d x ↔
    ∀ q, rl.lookup d = some q → quantityToUnit d q ≠ 0 → x ≤ quantityToUnit d q := by
  rw [Allows, mem_fromQuantityMap, get_fromQuantityMap]
  cases rl.lookup d <;> simp

end Caps

end AdScheduler.DeclaredQueues
