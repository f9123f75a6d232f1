import AdScheduler.QueueDrain
import AdScheduler.QueueForests
import AdScheduler.Routing
import AdScheduler.TenantTrees

/-! Where a Queue is found in the tree. `FindByNamespaceName` of `pkg/queue/manager.go` goes
by the second and the last segment of a path, and the nodes of the namespaces have them too. -/
namespace AdScheduler.QueueLookup
open KeyedMap Resources QueueTree Manager Requests TreeAssembly QueueSpecs SpecTree PlacementRules
open TenantTrees QueueForests QueueDrain Routing DottedPath SubmitRights Outcomes

variable {V : Type*}

/-- The path convention: under the node of the namespace, or under the parent. -/
inductive PathOf (crs : List (QueueCR V)) : QueueCR V → String → Prop
  | top {cr : QueueCR V} (h : cr.parent = "") :
      PathOf crs cr (rootName ++ "." ++ cr.ns ++ "." ++ cr.name)
  | under {cr p : QueueCR V} {path : String} (hp : p ∈ crs) (hname : p.name = cr.parent)
      (h : PathOf crs p path) : PathOf crs cr (path ++ "." ++ cr.name)

lemma PathOf.unique {crs : List (QueueCR V)} (hd : (crs.map QueueCR.name).Nodup)
    (hne : ∀ cr ∈ crs, cr.name ≠ "") {cr : QueueCR V} {path path' : String}
    (h : PathOf crs cr path) (h' : PathOf crs cr path') : path = path' := by
  induction h generalizing path' with
  | top htop =>
    cases h' with
    | top => rfl
    | under hp hname _ => exact absurd (hname.trans htop) (hne _ hp)
  | under hp hname _ ih =>
    cases h' with
    | top htop => exact absurd (hname.trans htop) (hne _ hp)
    | under hp' hname' h' =>
      obtain rfl := List.inj_on_of_nodup_map hd hp hp' (hname.trans hname'.symm)
      rw [ih h']

lemma PathOf.exists_append {crs : List (QueueCR V)} {cr : QueueCR V} {path : String}
    (h : PathOf crs cr path) : ∃ above, path = above ++ "." ++ cr.name := by
  cases h with
  | top => exact ⟨_, rfl⟩
  | under => exact ⟨_, rfl⟩

lemma PathOf.three_le {crs : List (QueueCR V)} {cr : QueueCR V} {path : String}
    (h : PathOf crs cr path) : 3 ≤ (segments path).length := by
  have hpos : ∀ n : String, 0 < (segments n).length := fun n =>
    List.length_pos_of_ne_nil (segments_ne_nil n)
  induction h with
  | @top cr _ =>
    simp only [segments_append, List.length_append]
    have hroot := hpos rootName
    have hns := hpos cr.ns
    have hname := hpos cr.name
    omega
  | under _ _ _ ih =>
    rw [segments_append, List.length_append]
    omega

lemma bareName_append (above : String) {n : String} (hdot : '.' ∉ n.toList) :
    bareName (above ++ "." ++ n) = n := by
  rw [bareName, segments_append, segments_name hdot]
  simp

def isLeafCR (crs : List (QueueCR V)) (cr : QueueCR V) : Bool :=
  decide (∀ c ∈ crs, c.parent ≠ cr.name)

section Stations
variable [CommRing V] [LinearOrder V]

structure Stationed (crs : List (QueueCR V)) (b : Site V) (cr : QueueCR V) : Prop where
  mem : cr ∈ crs
  name_eq : b.spec.name = cr.name
  path : PathOf crs cr b.path
  names : b.spec.children.map Spec.name = childNames crs cr.name
  below : ∀ c ∈ b.spec.children, Declared crs c

lemma Stationed.isLeaf {crs : List (QueueCR V)} {b : Site V} {cr : QueueCR V}
    (h : Stationed crs b cr) : b.queue.isLeaf = isLeafCR crs cr := by
  rw [Bool.eq_iff_iff, Site.isLeaf_queue, isLeafCR, decide_eq_true_eq,
    ← List.map_eq_nil_iff (f := Spec.name),
    h.names, List.eq_nil_iff_forall_not_mem]
  simp only [mem_childNames]
  constructor
  · intro hnone c hc hparent
    exact hnone c.name ⟨c, hc, hparent, rfl⟩
  · rintro hnone n ⟨c, hc, hparent, -⟩
    exact hnone c hc hparent

variable {ns : String} {crs : List (QueueCR V)} {specs : List (Spec V)} {envelope : Resource V}
  (h : Stands ns crs specs)
include h

lemma stationed_child {b : Site V} {parent : String}
    (hnames : b.spec.children.map Spec.name = childNames crs parent) {c : Spec V}
    (hc : c ∈ b.spec.children) (hdeclared : Declared crs c) :
    ∃ cr ∈ crs, cr.parent = parent ∧ cr.name = c.name ∧
      (PathOf crs cr (b.child c).path → Stationed crs (b.child c) cr) := by
  obtain ⟨cr, children, hcr, hbelow, hall⟩ := hdeclared
  have hmem : cr.name ∈ childNames crs parent := by
    rw [← hnames]
    exact List.mem_map_of_mem hc
  obtain ⟨cr', hcr', hparent, hname⟩ := mem_childNames.mp hmem
  obtain rfl := List.inj_on_of_nodup_map h.distinct hcr' hcr hname
  exact ⟨cr', hcr, hparent, rfl, fun hpath => ⟨hcr, rfl, hpath, hbelow, hall⟩⟩

lemma stationed_below (hns : ∀ cr ∈ crs, cr.ns = ns) {b : Site V}
    (hb : (tenantSite (bareSpec ns envelope specs)).Below b) :
    b = tenantSite (bareSpec ns envelope specs) ∨ ∃ cr, Stationed crs b cr := by
  induction hb with
  | refl => exact .inl rfl
  | tail _ hstep ih =>
    rename_i a b
    obtain ⟨c, hc, rfl⟩ := List.mem_map.mp hstep
    rcases ih with rfl | ⟨p, hp⟩
    · obtain ⟨cr, hcr, hparent, hname, hstation⟩ := stationed_child h h.tops hc (h.declared c hc)
      have hpath : PathOf crs cr _ := .top hparent
      rw [hns cr hcr, hname] at hpath
      exact .inr ⟨cr, hstation hpath⟩
    · obtain ⟨cr, hcr, hparent, hname, hstation⟩ := stationed_child h hp.names hc (hp.below c hc)
      have hpath := PathOf.under hp.mem hparent.symm hp.path
      rw [hname] at hpath
      exact .inr ⟨cr, hstation hpath⟩

lemma exists_stationed (hns : ∀ cr ∈ crs, cr.ns = ns) {cr : QueueCR V} (hcr : cr ∈ crs)
    (hrooted : Rooted crs cr) :
    ∃ b, (tenantSite (bareSpec ns envelope specs)).Below b ∧ Stationed crs b cr := by
  induction hrooted with
  | @top cr htop =>
    have hmem : cr.name ∈ specs.map Spec.name := by
      rw [h.tops]
      exact mem_childNames.mpr ⟨cr, hcr, htop, rfl⟩
    obtain ⟨c, hc, hname⟩ := List.mem_map.mp hmem
    obtain ⟨cr', hcr', -, hname', hstation⟩ := stationed_child h
      (b := tenantSite (bareSpec ns envelope specs)) h.tops hc (h.declared c hc)
    obtain rfl := List.inj_on_of_nodup_map h.distinct hcr' hcr (hname'.trans hname)
    have hpath : PathOf crs cr' _ := .top htop
    rw [hns cr' hcr', hname'] at hpath
    exact ⟨_, .tail (Site.below_self _) (List.mem_map_of_mem hc), hstation hpath⟩
  | @under cr p hp hname _ ih =>
    obtain ⟨b, hb, hstation⟩ := ih hp
    have hmem : cr.name ∈ b.spec.children.map Spec.name := by
      rw [hstation.names]
      exact mem_childNames.mpr ⟨cr, hcr, hname.symm, rfl⟩
    obtain ⟨c, hc, hcname⟩ := List.mem_map.mp hmem
    obtain ⟨cr', hcr', -, hname', hchild⟩ :=
      stationed_child h hstation.names hc (hstation.below c hc)
    obtain rfl := List.inj_on_of_nodup_map h.distinct hcr' hcr (hname'.trans hcname)
    have hpath := PathOf.under hp hname hstation.path
    rw [hname'] at hpath
    exact ⟨_, hb.tail (List.mem_map_of_mem hc), hchild hpath⟩

end Stations

section Find
variable [CommRing V] [LinearOrder V] {m : QueueManager V} {order : List String}
  {id : String × String} {p : String} {x : Queue V}

lemma findByNamespaceName_of_unique (ho : Visits order m.index) (hp : m.index.lookup p = some x)
    (hid : ident p = id) (hone : ∀ p' ∈ m.index, ident p' = id → p' = p) :
    findByNamespaceName m order id = some (p, x.isLeaf) := by
  have hmem : (p, x) ∈ entries order m.index := (mem_entries_iff ho).mpr hp
  cases hfind : (entries order m.index).find? fun entry => decide (ident entry.1 = id) with
  | none => exact absurd hid (by simpa using List.find?_eq_none.mp hfind _ hmem)
  | some entry =>
    obtain ⟨p', x'⟩ := entry
    have hp' := lookup_of_mem_entries (List.mem_of_find?_eq_some hfind)
    have hid' : ident p' = id := by simpa using List.find?_some hfind
    obtain rfl := hone p' (Finmap.mem_of_lookup_eq_some hp') hid'
    rw [hp] at hp'
    cases hp'
    simp [findByNamespaceName, hfind]

lemma findByNamespaceName_of_none (hnone : ∀ p ∈ m.index, ident p ≠ id) :
    findByNamespaceName m order id = none := by
  have hfind : ((entries order m.index).find? fun entry => decide (ident entry.1 = id)) = none := by
    rw [List.find?_eq_none]
    rintro ⟨p, x⟩ hmem
    simpa using hnone p (Finmap.mem_of_lookup_eq_some (lookup_of_mem_entries hmem))
  simp [findByNamespaceName, hfind]

lemma exists_order_find (hp : m.index.lookup p = some x) (hid : ident p = id) :
    ∃ order, Visits order m.index ∧ findByNamespaceName m order id = some (p, x.isLeaf) := by
  have hmem : p ∈ sortedKeys m.index :=
    ((sortedKeys_visits _).2 p).mpr (Finmap.mem_of_lookup_eq_some hp)
  have hperm := List.perm_cons_erase hmem
  refine ⟨p :: (sortedKeys m.index).erase p,
    ⟨hperm.nodup_iff.mp (sortedKeys_visits _).1, fun k => ?_⟩, ?_⟩
  · rw [← hperm.mem_iff]
    exact (sortedKeys_visits m.index).2 k
  · simp [findByNamespaceName, entries, hp, hid]

end Find

section Accepted
variable [CommRing V] [LinearOrder V] {queues : List (QueueCR V)}
  {envelopes : Map String (Resource V)} {spec : Spec V} {m₀ : QueueManager V}

/-- The queues of a tree built from custom resources. -/
inductive Origin (queues : List (QueueCR V)) (p : String) (x : Queue V) : Prop
  | root (path_eq : p = rootName)
  | node (ns : String) (onboarded : ∃ cr, cr ∈ tenantQueues queues ns)
      (path_eq : p = rootName ++ "." ++ ns) (ident_eq : ident p = (ns, ns))
  | queue (ns : String) (cr : QueueCR V) (mem : cr ∈ tenantQueues queues ns)
      (path : PathOf (tenantQueues queues ns) cr p) (ident_eq : ident p = (ns, cr.name))
      (leaf : x.isLeaf = isLeafCR (tenantQueues queues ns) cr)

lemma ident_root : ident rootName = ("", rootName) := by decide +kernel

section Idents
variable {ns : String} {envelope : Resource V} {specs : List (Spec V)}
  (h : Tenant (bareSpec ns envelope specs))
include h

lemma undotted_of_tenant : '.' ∉ ns.toList := (h.sound _ (Site.below_self _)).undotted

lemma ident_node : ident (rootName ++ "." ++ ns) = (ns, ns) := by
  have hself : namespaceOf (tenantSite (bareSpec ns envelope specs)).path = ns :=
    namespaceOf_below (undotted_of_tenant h) (Site.below_self _)
  rw [ident, bareName_append rootName (undotted_of_tenant h)]
  exact congrArg (·, ns) hself

lemma ident_stationed {crs : List (QueueCR V)} {b : Site V}
    (hb : (tenantSite (bareSpec ns envelope specs)).Below b) {cr : QueueCR V}
    (hcr : Stationed crs b cr) : ident b.path = (ns, cr.name) := by
  obtain ⟨above, habove⟩ := hcr.path.exists_append
  have hname : '.' ∉ cr.name.toList := hcr.name_eq ▸ (h.sound b hb).undotted
  rw [ident, namespaceOf_below (undotted_of_tenant h) hb, habove, bareName_append above hname]
  rfl

end Idents

variable (hspec : buildSpec queues envelopes = .ok spec) (hm : newManager spec = .ok m₀)
include hspec hm

lemma exists_node {ns : String} (hns : ∃ cr, cr ∈ tenantQueues queues ns) :
    ∃ envelope specs, Stands ns (tenantQueues queues ns) specs ∧ Forest (tenantQueues queues ns) ∧
      Tenant (bareSpec ns envelope specs) ∧
      ∀ b, (tenantSite (bareSpec ns envelope specs)).Below b →
        m₀.index.lookup b.path = some b.queue := by
  obtain ⟨nodes, rfl, hnodes⟩ := buildSpec_eq_ok_iff.mp hspec
  obtain ⟨hacc, hix⟩ := newManager_ok hm
  obtain ⟨node, hnode, hbuilt⟩ := hnodes.exists_node hns
  obtain ⟨specs, rfl, hstands⟩ := buildNamespace_ok hbuilt
  refine ⟨_, specs, hstands, forest_of_buildNamespace hbuilt,
    ((acceptable_forest_iff nodes).mp hacc).2 _ hnode, fun b hb => ?_⟩
  exact (hix _ _).mpr ⟨b, below_forest_iff.mpr (.inr ⟨_, hnode, hb⟩), rfl, rfl⟩

lemma origin {p : String} {x : Queue V} (hp : m₀.index.lookup p = some x) : Origin queues p x := by
  obtain ⟨nodes, rfl, hnodes⟩ := buildSpec_eq_ok_iff.mp hspec
  obtain ⟨hacc, hix⟩ := newManager_ok hm
  obtain ⟨b, hb, rfl, rfl⟩ := (hix _ _).mp hp
  rcases below_forest_iff.mp hb with rfl | ⟨node, hnode, hb⟩
  · exact .root rfl
  obtain ⟨ns, hns, hbuilt⟩ := hnodes.mem_iff.mp hnode
  obtain ⟨specs, rfl, hstands⟩ := buildNamespace_ok hbuilt
  have htenant := ((acceptable_forest_iff nodes).mp hacc).2 _ hnode
  rcases stationed_below hstands (fun cr hcr => (mem_tenantQueues.mp hcr).2.2) hb
    with rfl | ⟨cr, hcr⟩
  · exact .node ns hns rfl (ident_node htenant)
  · exact .queue ns cr hcr.mem hcr.path (ident_stationed htenant hb hcr) hcr.isLeaf

/-- A Queue is found at its own path, whatever the order of the index, its liveness is that of
its own usage, and what is no Queue is not found. -/
structure FoundRight (queues : List (QueueCR V)) (m : QueueManager V)
    (ns name : String) : Prop where
  found : ∀ cr ∈ tenantQueues queues ns, cr.name = name →
    ∃ path, PathOf (tenantQueues queues ns) cr path ∧ ∀ order, Visits order m.index →
      findByNamespaceName m order (ns, name) =
        some (path, isLeafCR (tenantQueues queues ns) cr) ∧
      live m order (ns, name) = !isEmpty (m.used path)
  absent : (∀ cr ∈ tenantQueues queues ns, cr.name ≠ name) →
    ∀ order, Visits order m.index → findByNamespaceName m order (ns, name) = none

variable {m : QueueManager V} (hindex : m.index = m₀.index)
include hindex

lemma not_foundRight_node {ns : String} (hns : ∃ cr, cr ∈ tenantQueues queues ns) :
    ¬ FoundRight queues m ns ns := by
  intro h
  obtain ⟨envelope, specs, -, -, htenant, hlook⟩ := exists_node hspec hm hns
  obtain ⟨order, ho, hfind⟩ := exists_order_find (m := m) (hindex ▸ hlook _ (Site.below_self _))
    (ident_node htenant)
  by_cases hcr : ∃ cr ∈ tenantQueues queues ns, cr.name = ns
  · obtain ⟨cr, hcr, hname⟩ := hcr
    obtain ⟨path, hpathOf, hright⟩ := h.found cr hcr hname
    have hsame := hfind.symm.trans (hright order ho).1
    have hlen := hpathOf.three_le
    rw [← (Prod.mk.inj (Option.some.inj hsame)).1, segments_append,
      segments_name (undotted_of_tenant htenant), segments_name (by decide)] at hlen
    simp at hlen
  · push Not at hcr
    rw [h.absent hcr order ho] at hfind
    cases hfind

lemma not_foundRight_root : ¬ FoundRight queues m "" rootName := by
  intro h
  obtain ⟨hacc, hix⟩ := newManager_ok hm
  have hroot : m.index.lookup rootName = some (rootSite spec).queue := by
    rw [hindex]
    exact (hix _ _).mpr ⟨rootSite spec, Site.below_self _, rfl, rfl⟩
  obtain ⟨order, ho, hfind⟩ := exists_order_find hroot ident_root
  have hnone : ∀ cr ∈ tenantQueues queues "", cr.name ≠ rootName := by
    intro cr hcr
    obtain ⟨envelope, specs, -, -, htenant, -⟩ := exists_node hspec hm ⟨cr, hcr⟩
    exact absurd rfl (htenant.sound _ (Site.below_self _)).name_ne
  rw [h.absent hnone order ho] at hfind
  cases hfind

lemma exists_cr_of_ident {ns name : String}
    (hnode : ¬ (name = ns ∧ ∃ cr, cr ∈ tenantQueues queues ns))
    (hroot : ¬ (ns = "" ∧ name = rootName)) {p : String} (hp : p ∈ m.index)
    (hid : ident p = (ns, name)) :
    ∃ cr ∈ tenantQueues queues ns, cr.name = name ∧ PathOf (tenantQueues queues ns) cr p := by
  rw [hindex] at hp
  obtain ⟨x, hx⟩ := Finmap.mem_iff.mp hp
  cases origin hspec hm hx with
  | root hpath =>
    rw [hpath, ident_root] at hid
    cases hid
    exact absurd ⟨rfl, rfl⟩ hroot
  | node ns' hns _ hident =>
    rw [hident] at hid
    cases hid
    exact absurd ⟨rfl, hns⟩ hnode
  | queue ns' cr hcr hpath hident _ =>
    rw [hident] at hid
    cases hid
    exact ⟨cr, hcr, rfl, hpath⟩

lemma exists_found {ns : String} {cr : QueueCR V} (hcr : cr ∈ tenantQueues queues ns)
    (hnode : ¬ (cr.name = ns ∧ ∃ cr, cr ∈ tenantQueues queues ns))
    (hroot : ¬ (ns = "" ∧ cr.name = rootName)) :
    ∃ path, PathOf (tenantQueues queues ns) cr path ∧ ∀ order, Visits order m.index →
      findByNamespaceName m order (ns, cr.name) =
        some (path, isLeafCR (tenantQueues queues ns) cr) := by
  obtain ⟨envelope, specs, hstands, hforest, htenant, hlook⟩ := exists_node hspec hm ⟨cr, hcr⟩
  have hstations : ∀ cr ∈ tenantQueues queues ns,
      ∃ b, (tenantSite (bareSpec ns envelope specs)).Below b ∧
        Stationed (tenantQueues queues ns) b cr := fun cr hcr =>
    exists_stationed hstands (fun cr hcr => (mem_tenantQueues.mp hcr).2.2) hcr
      (hforest.rooted cr hcr)
  have hne : ∀ cr ∈ tenantQueues queues ns, cr.name ≠ "" := by
    intro cr hcr
    obtain ⟨b, hb, hstation⟩ := hstations cr hcr
    rw [← hstation.name_eq]
    exact (htenant.sound b hb).name_ne
  obtain ⟨b, hb, hstation⟩ := hstations cr hcr
  have hx : m.index.lookup b.path = some b.queue := hindex ▸ hlook b hb
  have hid : ident b.path = (ns, cr.name) := ident_stationed htenant hb hstation
  refine ⟨b.path, hstation.path, fun order ho => ?_⟩
  rw [← hstation.isLeaf]
  refine findByNamespaceName_of_unique ho hx hid fun p' hp' hid' => ?_
  obtain ⟨cr', hcr', hname', hpath'⟩ := exists_cr_of_ident hspec hm hindex hnode hroot hp' hid'
  obtain rfl := List.inj_on_of_nodup_map hforest.distinct hcr' hcr hname'
  exact hpath'.unique hforest.distinct hne hstation.path

/-- The lookup of a namespace and a name is right exactly where they are not those of the node
of a namespace with queues, nor those of the root. -/
theorem found_at_own_path_iff (ns name : String) : FoundRight queues m ns name ↔
    ¬ (name = ns ∧ ∃ cr, cr ∈ tenantQueues queues ns) ∧ ¬ (ns = "" ∧ name = rootName) := by
  constructor
  · intro h
    refine ⟨?_, ?_⟩
    · rintro ⟨rfl, hns⟩
      exact not_foundRight_node hspec hm hindex hns h
    · rintro ⟨rfl, rfl⟩
      exact not_foundRight_root hspec hm hindex h
  · rintro ⟨hnode, hroot⟩
    refine ⟨fun cr hcr hname => ?_, fun hnone order ho => ?_⟩
    · subst hname
      obtain ⟨path, hpath, hfind⟩ := exists_found hspec hm hindex hcr hnode hroot
      exact ⟨path, hpath, fun order ho => ⟨hfind order ho, by simp [live, hfind order ho]⟩⟩
    · refine findByNamespaceName_of_none fun p hp hid => ?_
      obtain ⟨cr, hcr, hname, -⟩ := exists_cr_of_ident hspec hm hindex hnode hroot hp hid
      exact hnone cr hcr hname

end Accepted

/-- A Queue with the name of its namespace is found at its own path or at the node of the
namespace, as the order of the index has it. -/
theorem namesake_found_at_node :
    let order := ["root.team", "root.team.team", "root"]
    (match assemble [bareQueue "team" "team" 10 []] [] with
      | .error _ => false
      | .ok m => decide (order.Nodup ∧ order.toFinset = m.index.keys ∧
          findByNamespaceName m order ("team", "team") = some ("root.team", false) ∧
          findByNamespaceName m order.reverse ("team", "team") = some ("root.team.team", true))) =
      true := by
  decide +kernel

theorem jobs_found_at_own_path :
    ∃ spec m, buildSpec [bareQueue "team" "jobs" 10 []] ∅ = .ok spec ∧ newManager spec = .ok m ∧
      FoundRight [bareQueue "team" "jobs" 10 []] m "team" "jobs" := by
  obtain ⟨spec, hspec, hok⟩ : ∃ spec : Spec ℤ,
      buildSpec [bareQueue "team" "jobs" 10 []] ∅ = .ok spec ∧ (newManager spec).isOk = true :=
    exists_ok_of_any (by decide +kernel)
  obtain ⟨m, hm⟩ := exists_ok_of_isOk hok
  exact ⟨spec, m, hspec, hm, (found_at_own_path_iff hspec hm rfl "team" "jobs").mpr (by simp)⟩

end AdScheduler.QueueLookup
