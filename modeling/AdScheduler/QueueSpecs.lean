import AdScheduler.TreeAssembly

/-! What `buildSpec` makes of the custom resources: under the node of each namespace stand
the specifications of its queues, each under its parent's. -/
namespace AdScheduler.QueueSpecs
open KeyedMap Resources QueueTree Manager Requests TreeAssembly

lemma mapM_ok_iff {ε α β : Type*} {f : α → Except ε β} {xs : List α} {ys : List β} :
    xs.mapM f = .ok ys ↔ xs.map f = ys.map .ok := by
  induction xs generalizing ys with
  | nil => cases ys <;> simp [pure, Except.pure]
  | cons x rest ih =>
    rw [List.mapM_cons]
    cases hx : f x with
    | error e => cases ys <;> simp [bind, Except.bind, hx]
    | ok y =>
      cases hrest : rest.mapM f with
      | error e => cases ys <;> simp [bind, Except.bind, ← ih, hrest, hx]
      | ok zs => cases ys <;> simp [bind, Except.bind, pure, Except.pure, ← ih, hrest, hx]

variable {V : Type*}

lemma groupByNamespace_eq (queues : List (QueueCR V)) :
    groupByNamespace queues =
      collect (fun q => some q.ns) id (queues.filter fun q => (validateQueue q).isOk) ∅ := rfl

/-- The valid queues of a namespace, in their order. -/
def tenantQueues (queues : List (QueueCR V)) (ns : String) : List (QueueCR V) :=
  queues.filter fun q => (validateQueue q).isOk && decide (q.ns = ns)

lemma mem_tenantQueues {queues : List (QueueCR V)} {ns : String} {cr : QueueCR V} :
    cr ∈ tenantQueues queues ns ↔ cr ∈ queues ∧ (validateQueue cr).isOk = true ∧ cr.ns = ns := by
  simp [tenantQueues]

lemma lookup_groupByNamespace (queues : List (QueueCR V)) (ns : String) :
    ((groupByNamespace queues).lookup ns).getD [] = tenantQueues queues ns := by
  rw [groupByNamespace_eq, lookup_collect, List.map_id, List.filter_filter]
  simp [tenantQueues, Bool.and_comm]

lemma mem_groupByNamespace (queues : List (QueueCR V)) (ns : String) :
    ns ∈ groupByNamespace queues ↔ ∃ cr, cr ∈ tenantQueues queues ns := by
  rw [groupByNamespace_eq, mem_collect]
  simp [mem_tenantQueues, and_assoc, Finmap.notMem_empty]

section Namespace
variable {ns : String}

lemma indexByName_ok_iff (crs : List (QueueCR V)) (m byName : Map String (QueueCR V)) :
    indexByName ns crs m = .ok byName ↔ (crs.map QueueCR.name).Nodup ∧
      (∀ cr ∈ crs, cr.name ∉ m) ∧ byName = crs.foldl (fun m cr => m.insert cr.name cr) m := by
  induction crs generalizing m with
  | nil => simp [indexByName, eq_comm]
  | cons cr rest ih =>
    rw [indexByName, List.map_cons, List.nodup_cons, List.forall_mem_cons, List.foldl_cons]
    by_cases hcr : cr.name ∈ m
    · simp [hcr]
    · simp only [hcr, if_false, ih, Finmap.mem_insert, not_or]
      simp only [List.mem_map, not_exists, not_and, not_false_eq_true, true_and]
      constructor
      · rintro ⟨hnodup, hrest, rfl⟩
        exact ⟨⟨fun x hx he => (hrest x hx).1 he, hnodup⟩, fun x hx => (hrest x hx).2, rfl⟩
      · rintro ⟨⟨hne, hnodup⟩, hrest, rfl⟩
        exact ⟨hnodup, fun x hx => ⟨hne x hx, hrest x hx⟩, rfl⟩

lemma lookup_foldl_insert_name {crs : List (QueueCR V)} (hnodup : (crs.map QueueCR.name).Nodup)
    (m : Map String (QueueCR V)) (n : String) (cr : QueueCR V) :
    (crs.foldl (fun m cr => m.insert cr.name cr) m).lookup n = some cr ↔
      (cr ∈ crs ∧ cr.name = n) ∨ (n ∉ crs.map QueueCR.name ∧ m.lookup n = some cr) := by
  induction crs generalizing m with
  | nil => simp
  | cons x rest ih =>
    rw [List.map_cons, List.nodup_cons] at hnodup
    rw [List.foldl_cons, ih hnodup.2, lookup_insert_ite]
    by_cases hn : n = x.name
    · subst hn
      have hrest : ∀ cr ∈ rest, cr.name ≠ x.name := fun cr hcr he =>
        hnodup.1 (he ▸ List.mem_map_of_mem hcr)
      simp only [if_true, Option.some.injEq, List.map_cons, List.mem_cons, not_true_eq_false,
        false_and, or_false, hnodup.1, not_false_eq_true, true_and]
      constructor
      · rintro (⟨hcr, hname⟩ | rfl)
        · exact absurd hname (hrest cr hcr)
        · exact ⟨.inl rfl, rfl⟩
      · rintro ⟨rfl | hcr, hname⟩
        · exact .inr rfl
        · exact absurd hname (hrest cr hcr)
    · have hx : cr = x → cr.name ≠ n := fun he hname => hn (by rw [← hname, he])
      simp only [hn, if_false, List.map_cons, List.mem_cons, false_or]
      tauto

lemma groupByParent_ok_iff (byName : Map String (QueueCR V)) (crs : List (QueueCR V))
    (m childrenOf : Map String (List String)) :
    groupByParent ns byName crs m = .ok childrenOf ↔
      (∀ cr ∈ crs, cr.parent = "" ∨ cr.parent ∈ byName) ∧
        childrenOf = collect (fun cr => some cr.parent) QueueCR.name crs m := by
  induction crs generalizing m with
  | nil =>
    rw [groupByParent, Except.ok.injEq, eq_comm]
    simp [collect]
  | cons cr rest ih =>
    rw [groupByParent, List.forall_mem_cons]
    by_cases hcr : cr.parent ≠ "" ∧ cr.parent ∉ byName
    · simp [hcr]
    · have hok : cr.parent = "" ∨ cr.parent ∈ byName := by
        rw [not_and_or, not_not, not_not] at hcr
        exact hcr
      simp only [hcr, if_false, ih, hok, true_and]
      rfl

def childNames (crs : List (QueueCR V)) (parent : String) : List String :=
  sortedStrings ((crs.filter fun cr => decide (cr.parent = parent)).map QueueCR.name)

structure Indexed (crs : List (QueueCR V)) (byName : Map String (QueueCR V))
    (childrenOf : Map String (List String)) : Prop where
  distinct : (crs.map QueueCR.name).Nodup
  lookup_iff : ∀ n cr, byName.lookup n = some cr ↔ cr ∈ crs ∧ cr.name = n
  children : ∀ n, sortedStrings ((childrenOf.lookup n).getD []) = childNames crs n

lemma indexed {crs : List (QueueCR V)} {byName : Map String (QueueCR V)}
    {childrenOf : Map String (List String)} (hindex : indexByName ns crs ∅ = .ok byName)
    (hgroup : groupByParent ns byName crs ∅ = .ok childrenOf) : Indexed crs byName childrenOf := by
  obtain ⟨hnodup, -, rfl⟩ := (indexByName_ok_iff crs ∅ byName).mp hindex
  obtain ⟨-, rfl⟩ := (groupByParent_ok_iff _ crs ∅ childrenOf).mp hgroup
  refine ⟨hnodup, fun n cr => ?_, fun n => ?_⟩
  · simp [lookup_foldl_insert_name hnodup]
  · simp [lookup_collect, childNames]

lemma Indexed.keys_eq {crs : List (QueueCR V)} {byName : Map String (QueueCR V)}
    {childrenOf : Map String (List String)} (h : Indexed crs byName childrenOf) :
    byName.keys = (crs.map QueueCR.name).toFinset := by
  ext n
  rw [Finmap.mem_keys, Finmap.mem_iff, List.mem_toFinset, List.mem_map]
  simp only [h.lookup_iff]

lemma Indexed.card_keys {crs : List (QueueCR V)} {byName : Map String (QueueCR V)}
    {childrenOf : Map String (List String)} (h : Indexed crs byName childrenOf) :
    byName.keys.card = crs.length := by
  rw [h.keys_eq, List.toFinset_card_of_nodup h.distinct, List.length_map]

lemma buildEach_cons_ok {build : Finset String → String → Except BuildErr (Spec V × Finset String)}
    {n : String} {rest : List String} {built built' : Finset String} {specs : List (Spec V)}
    (h : buildEach build (n :: rest) built = .ok (specs, built')) :
    ∃ s built₁ specs', build built n = .ok (s, built₁) ∧
      buildEach build rest built₁ = .ok (specs', built') ∧ specs = s :: specs' := by
  rw [buildEach] at h
  split at h
  · cases h
  rename_i s built₁ hs
  split at h
  · cases h
  rename_i specs' built₂ hrest
  cases h
  exact ⟨s, built₁, specs', hs, hrest, rfl⟩

lemma buildEach_ok {build : Finset String → String → Except BuildErr (Spec V × Finset String)}
    {P : Spec V → Prop}
    (hbuild : ∀ built n s built', build built n = .ok (s, built') → s.name = n ∧ P s)
    {names : List String} {built built' : Finset String} {specs : List (Spec V)}
    (h : buildEach build names built = .ok (specs, built')) :
    specs.map Spec.name = names ∧ ∀ s ∈ specs, P s := by
  induction names generalizing built specs with
  | nil =>
    simp only [buildEach, Except.ok.injEq, Prod.mk.injEq] at h
    simp [← h.1]
  | cons n rest ih =>
    obtain ⟨s, built₁, specs', hb, hrest, rfl⟩ := buildEach_cons_ok h
    obtain ⟨hname, hspec⟩ := hbuild _ _ _ _ hb
    obtain ⟨hnames, hspecs⟩ := ih hrest
    exact ⟨by simp [hname, hnames], List.forall_mem_cons.mpr ⟨hspec, hspecs⟩⟩

section Declared
variable [CommRing V] [LinearOrder V]

/-- A specification made of custom resources: a queue over the queues that name it as their
parent, in the order of their names. -/
inductive Declared (crs : List (QueueCR V)) : Spec V → Prop
  | queue (cr : QueueCR V) (children : List (Spec V)) (mem : cr ∈ crs)
      (names : children.map Spec.name = childNames crs cr.name)
      (below : ∀ c ∈ children, Declared crs c) : Declared crs (crToSpec cr children)

lemma Declared.exists_cr {crs : List (QueueCR V)} {s : Spec V} (h : Declared crs s) :
    ∃ cr ∈ crs, s = crToSpec cr s.children ∧ ∀ c ∈ s.children, Declared crs c := by
  obtain ⟨cr, children, hmem, -, hbelow⟩ := h
  exact ⟨cr, hmem, rfl, hbelow⟩

lemma buildQueue_succ_ok {byName : Map String (QueueCR V)} {childrenOf : Map String (List String)}
    {depth : ℕ} {visiting built built' : Finset String} {name : String} {s : Spec V}
    (h : buildQueue ns byName childrenOf (depth + 1) visiting built name = .ok (s, built')) :
    ∃ cr specs built₁, byName.lookup name = some cr ∧
      buildEach (buildQueue ns byName childrenOf depth (insert name visiting))
        (sortedStrings ((childrenOf.lookup name).getD [])) built = .ok (specs, built₁) ∧
      s = crToSpec cr specs ∧ built' = insert name built₁ := by
  rw [buildQueue] at h
  split_ifs at h
  dsimp only at h
  split at h
  · cases h
  rename_i specs built₁ hspecs
  split at h
  · cases h
  rename_i cr hcr
  cases h
  exact ⟨cr, specs, built₁, hcr, hspecs, rfl, rfl⟩

lemma buildQueue_ok {crs : List (QueueCR V)} {byName : Map String (QueueCR V)}
    {childrenOf : Map String (List String)}
    (hbyName : ∀ n cr, byName.lookup n = some cr → cr ∈ crs ∧ cr.name = n)
    (hchildren : ∀ n, sortedStrings ((childrenOf.lookup n).getD []) = childNames crs n)
    {depth : ℕ} {visiting built built' : Finset String} {name : String} {s : Spec V}
    (h : buildQueue ns byName childrenOf depth visiting built name = .ok (s, built')) :
    s.name = name ∧ Declared crs s := by
  induction depth generalizing visiting built built' name s with
  | zero => cases h
  | succ depth ih =>
    obtain ⟨cr, specs, built₁, hcr, hspecs, rfl, rfl⟩ := buildQueue_succ_ok h
    obtain ⟨hmem, hname⟩ := hbyName name cr hcr
    obtain ⟨hnames, hbelow⟩ := buildEach_ok (P := Declared crs) (fun _ _ _ _ hb => ih hb) hspecs
    refine ⟨hname, .queue cr specs hmem ?_ hbelow⟩
    rw [hnames, hchildren, hname]

/-- What stands below the node of a namespace, whatever its envelope. -/
structure Stands (ns : String) (crs : List (QueueCR V)) (specs : List (Spec V)) : Prop where
  built : ∀ envelope, buildNamespace ns crs envelope = .ok (bareSpec ns envelope specs)
  tops : specs.map Spec.name = childNames crs ""
  declared : ∀ s ∈ specs, Declared crs s
  distinct : (crs.map QueueCR.name).Nodup

lemma buildNamespace_eq_ok_iff {crs : List (QueueCR V)} {envelope : Resource V} {spec : Spec V} :
    buildNamespace ns crs envelope = .ok spec ↔ ∃ byName childrenOf specs built,
      indexByName ns crs ∅ = .ok byName ∧ groupByParent ns byName crs ∅ = .ok childrenOf ∧
      buildEach (buildQueue ns byName childrenOf (crs.length + 1) ∅)
        (sortedStrings ((childrenOf.lookup "").getD [])) ∅ = .ok (specs, built) ∧
      built.card = byName.keys.card ∧ spec = bareSpec ns envelope specs := by
  constructor
  · intro h
    unfold buildNamespace at h
    split at h
    · cases h
    rename_i byName hindex
    split at h
    · cases h
    rename_i childrenOf hgroup
    dsimp only at h
    split at h
    · cases h
    rename_i specs built hspecs
    split_ifs at h with hcard
    cases h
    exact ⟨byName, childrenOf, specs, built, hindex, hgroup, hspecs, not_not.mp hcard, rfl⟩
  · rintro ⟨byName, childrenOf, specs, built, hindex, hgroup, hspecs, hcard, rfl⟩
    unfold buildNamespace
    simp only [hindex, hgroup, hspecs, hcard, ne_eq, not_true_eq_false, if_false]

lemma buildNamespace_ok {crs : List (QueueCR V)} {envelope : Resource V} {spec : Spec V}
    (h : buildNamespace ns crs envelope = .ok spec) :
    ∃ specs, spec = bareSpec ns envelope specs ∧ Stands ns crs specs := by
  obtain ⟨byName, childrenOf, specs, built, hindex, hgroup, hspecs, hcard, rfl⟩ :=
    buildNamespace_eq_ok_iff.mp h
  have hmaps := indexed hindex hgroup
  obtain ⟨hnames, hdeclared⟩ := buildEach_ok (P := Declared crs)
    (fun _ _ _ _ hb => buildQueue_ok (fun n cr => (hmaps.lookup_iff n cr).mp) hmaps.children hb)
      hspecs
  refine ⟨specs, rfl, fun envelope' => ?_, by rw [hnames, hmaps.children], hdeclared,
    hmaps.distinct⟩
  exact buildNamespace_eq_ok_iff.mpr
    ⟨byName, childrenOf, specs, built, hindex, hgroup, hspecs, hcard, rfl⟩

omit [CommRing V] [LinearOrder V] in
lemma mem_childNames {crs : List (QueueCR V)} {parent name : String} :
    name ∈ childNames crs parent ↔ ∃ cr ∈ crs, cr.parent = parent ∧ cr.name = name := by
  simp [childNames, sortedStrings, and_assoc]

lemma Stands.cr_of_top {crs : List (QueueCR V)} {specs : List (Spec V)} (h : Stands ns crs specs)
    {s : Spec V} (hs : s ∈ specs) : ∃ cr ∈ crs, cr.parent = "" ∧ s = crToSpec cr s.children := by
  obtain ⟨cr, hcr, hspec, -⟩ := (h.declared s hs).exists_cr
  have htop : s.name ∈ childNames crs "" := h.tops ▸ List.mem_map_of_mem hs
  obtain ⟨cr', hcr', hparent, hname⟩ := mem_childNames.mp htop
  have hsame : cr' = cr :=
    List.inj_on_of_nodup_map h.distinct hcr' hcr (hname.trans (congrArg Spec.name hspec))
  exact ⟨cr, hcr, hsame ▸ hparent, hspec⟩

lemma Stands.top_of_cr {crs : List (QueueCR V)} {specs : List (Spec V)} (h : Stands ns crs specs)
    {cr : QueueCR V} (hcr : cr ∈ crs) (hparent : cr.parent = "") :
    ∃ s ∈ specs, s = crToSpec cr s.children := by
  have htop : cr.name ∈ specs.map Spec.name := h.tops ▸ mem_childNames.mpr ⟨cr, hcr, hparent, rfl⟩
  obtain ⟨s, hs, hname⟩ := List.mem_map.mp htop
  obtain ⟨cr', hcr', -, hspec⟩ := h.cr_of_top hs
  have hsame : cr' = cr :=
    List.inj_on_of_nodup_map h.distinct hcr' hcr ((congrArg Spec.name hspec).symm.trans hname)
  exact ⟨s, hs, hsame ▸ hspec⟩

omit [CommRing V] [LinearOrder V] in
lemma sortedStrings_perm {names names' : List String} (h : names.Perm names') :
    sortedStrings names = sortedStrings names' := by
  have hperm : (sortedStrings names).Perm (sortedStrings names') :=
    ((List.perm_insertionSort _ _).trans h).trans (List.perm_insertionSort _ _).symm
  exact hperm.eq_of_pairwise' (List.pairwise_insertionSort _ _) (List.pairwise_insertionSort _ _)

lemma buildQueue_congr {byName : Map String (QueueCR V)}
    {childrenOf childrenOf' : Map String (List String)}
    (h : ∀ n, sortedStrings ((childrenOf.lookup n).getD []) =
      sortedStrings ((childrenOf'.lookup n).getD [])) (depth : ℕ) :
    buildQueue ns byName childrenOf depth = buildQueue ns byName childrenOf' depth := by
  induction depth with
  | zero => rfl
  | succ depth ih =>
    funext visiting built name
    simp only [buildQueue, ih, h]

lemma buildNamespace_perm {crs crs' : List (QueueCR V)} (hperm : crs.Perm crs')
    {envelope : Resource V} {spec : Spec V} (h : buildNamespace ns crs envelope = .ok spec) :
    buildNamespace ns crs' envelope = .ok spec := by
  obtain ⟨byName, childrenOf, specs, built, hindex, hgroup, hspecs, hcard, rfl⟩ :=
    buildNamespace_eq_ok_iff.mp h
  obtain ⟨hnodup, -, hbyName⟩ := (indexByName_ok_iff crs ∅ byName).mp hindex
  obtain ⟨hparents, rfl⟩ := (groupByParent_ok_iff _ crs ∅ childrenOf).mp hgroup
  have hnodup' : (crs'.map QueueCR.name).Nodup := (hperm.map QueueCR.name).nodup_iff.mp hnodup
  have hindex' : indexByName ns crs' ∅ = .ok byName := by
    refine (indexByName_ok_iff crs' ∅ byName).mpr
      ⟨hnodup', fun _ _ => Finmap.notMem_empty, Finmap.ext_lookup fun n => Option.ext fun cr => ?_⟩
    rw [hbyName, lookup_foldl_insert_name hnodup, lookup_foldl_insert_name hnodup', hperm.mem_iff,
      (hperm.map QueueCR.name).mem_iff]
  have hgroup' : groupByParent ns byName crs' ∅ =
      .ok (collect (fun cr => some cr.parent) QueueCR.name crs' ∅) :=
    (groupByParent_ok_iff byName crs' ∅ _).mpr
      ⟨fun cr hcr => hparents cr (hperm.mem_iff.mpr hcr), rfl⟩
  have hsorted : ∀ n, sortedStrings
      (((collect (fun cr => some cr.parent) QueueCR.name crs' ∅).lookup n).getD []) = sortedStrings
        (((collect (fun cr => some cr.parent) QueueCR.name crs ∅).lookup n).getD []) := by
    intro n
    rw [lookup_collect, lookup_collect]
    exact sortedStrings_perm (((hperm.filter _).map _).symm.append_left _)
  refine buildNamespace_eq_ok_iff.mpr ⟨byName, _, specs, built, hindex', hgroup', ?_, hcard, rfl⟩
  rw [hsorted, buildQueue_congr hsorted, ← hperm.length_eq]
  exact hspecs

omit [CommRing V] [LinearOrder V] in
lemma mem_namespaces {queues : List (QueueCR V)} {ns : String} :
    ns ∈ sortedKeys (groupByNamespace queues) ↔ ∃ cr, cr ∈ tenantQueues queues ns := by
  rw [(sortedKeys_visits _).2, mem_groupByNamespace]

section Nodes
variable {queues : List (QueueCR V)} {envelope : String → Resource V} {nodes : List (Spec V)}

/-- The nodes of all namespaces with queues, in the order of their names. -/
def BuiltNodes (queues : List (QueueCR V)) (envelope : String → Resource V)
    (nodes : List (Spec V)) :
    Prop :=
  (sortedKeys (groupByNamespace queues)).map (fun ns =>
    buildNamespace ns (tenantQueues queues ns) (envelope ns)) = nodes.map .ok

lemma BuiltNodes.mem_iff (h : BuiltNodes queues envelope nodes) {node : Spec V} :
    node ∈ nodes ↔ ∃ ns, (∃ cr, cr ∈ tenantQueues queues ns) ∧
      buildNamespace ns (tenantQueues queues ns) (envelope ns) = .ok node := by
  have hok : node ∈ nodes ↔ Except.ok node ∈ nodes.map (Except.ok (ε := BuildErr)) := by simp
  rw [hok, ← h, List.mem_map]
  simp only [mem_namespaces]

lemma BuiltNodes.exists_node (h : BuiltNodes queues envelope nodes) {ns : String}
    (hns : ∃ cr, cr ∈ tenantQueues queues ns) :
    ∃ node ∈ nodes, buildNamespace ns (tenantQueues queues ns) (envelope ns) = .ok node := by
  have hmem := List.mem_map_of_mem (f := fun ns =>
    buildNamespace ns (tenantQueues queues ns) (envelope ns)) (mem_namespaces.mpr hns)
  rw [h] at hmem
  obtain ⟨node, hnode, hbuilt⟩ := List.mem_map.mp hmem
  exact ⟨node, hnode, hbuilt.symm⟩

lemma BuiltNodes.names (h : BuiltNodes queues envelope nodes) :
    nodes.map Spec.name = sortedKeys (groupByNamespace queues) := by
  have hname : ∀ ns ∈ sortedKeys (groupByNamespace queues),
      (buildNamespace ns (tenantQueues queues ns) (envelope ns)).toOption.map Spec.name
          = some ns := by
    intro ns hns
    obtain ⟨node, -, hbuilt⟩ := h.exists_node (mem_namespaces.mp hns)
    obtain ⟨specs, rfl, -⟩ := buildNamespace_ok hbuilt
    rw [hbuilt]
    rfl
  have hread := congrArg (List.map fun r : Except BuildErr (Spec V) => r.toOption.map Spec.name) h
  rw [List.map_map, List.map_map] at hread
  have hsome : (sortedKeys (groupByNamespace queues)).map some =
      (nodes.map Spec.name).map some := by
    rw [← List.map_congr_left hname, List.map_map]
    exact hread
  exact (List.map_injective_iff.mpr (Option.some_injective _) hsome).symm

lemma exists_builtNodes (h : ∀ ns, (∃ cr, cr ∈ tenantQueues queues ns) →
    ∃ node, buildNamespace ns (tenantQueues queues ns) (envelope ns) = .ok node) :
    ∃ nodes, BuiltNodes queues envelope nodes := by
  have hrange : (sortedKeys (groupByNamespace queues)).map (fun ns =>
      buildNamespace ns (tenantQueues queues ns) (envelope ns)) ∈
      Set.range (List.map (Except.ok (ε := BuildErr))) := by
    rw [Set.range_list_map]
    intro r hr
    obtain ⟨ns, hns, rfl⟩ := List.mem_map.mp hr
    obtain ⟨node, hnode⟩ := h ns (mem_namespaces.mp hns)
    exact ⟨node, hnode.symm⟩
  obtain ⟨nodes, hnodes⟩ := hrange
  exact ⟨nodes, hnodes.symm⟩

end Nodes

lemma buildSpec_eq_ok_iff {queues : List (QueueCR V)} {envelopes : Map String (Resource V)}
    {spec : Spec V} : buildSpec queues envelopes = .ok spec ↔
      ∃ nodes, spec = bareSpec rootName ∅ nodes ∧
        BuiltNodes queues (fun ns => (envelopes.lookup ns).getD ∅) nodes := by
  unfold buildSpec
  simp only [lookup_groupByNamespace, BuiltNodes, ← mapM_ok_iff]
  split
  · rename_i e he
    simp [he]
  · rename_i nodes hnodes
    simp only [hnodes, Except.ok.injEq]
    constructor
    · rintro rfl
      exact ⟨nodes, rfl, rfl⟩
    · rintro ⟨_, rfl, rfl⟩
      rfl

end Declared

end Namespace

end AdScheduler.QueueSpecs
