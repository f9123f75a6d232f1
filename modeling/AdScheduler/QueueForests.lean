import AdScheduler.QueueSpecs
import AdScheduler.SpecTree

/-! Which Queue resources `buildSpec` accepts, and that it loses none of them. A cycle of
parents is not met by the descent from the top queues; it is found by counting what the
descent did not reach. -/
namespace AdScheduler.QueueForests
open KeyedMap Resources QueueTree Manager Requests TreeAssembly QueueSpecs SpecTree Outcomes

variable {V : Type*}

section Nodes

/-- A queue of a specification without its children. -/
def bare (s : Spec V) : Spec V := { s with children := [] }

mutual
/-- The queues of a specification, each with the name of the node above it. -/
def placed (above : String) : Spec V → List (String × Spec V)
  | ⟨name, gua, mx, sas, df, ma, li, su, ad, fe, children⟩ =>
    (above, ⟨name, gua, mx, sas, df, ma, li, su, ad, fe, []⟩) :: placedEach name children

def placedEach (above : String) : List (Spec V) → List (String × Spec V)
  | [] => []
  | s :: rest => placed above s ++ placedEach above rest
end

lemma placedEach_eq (above : String) (specs : List (Spec V)) :
    placedEach above specs = specs.flatMap (placed above) := by
  induction specs with
  | nil => rfl
  | cons s rest ih => rw [placedEach, ih, List.flatMap_cons]

lemma placed_eq (above : String) (s : Spec V) :
    placed above s = (above, bare s) :: s.children.flatMap (placed s.name) := by
  cases s
  rw [placed, placedEach_eq]
  rfl

def names (s : Spec V) : List String := (placed "" s).map fun e => e.2.name

lemma map_placed (above : String) (s : Spec V) :
    (placed above s).map (fun e => e.2.name) = names s := by
  rw [names, placed_eq, placed_eq]
  rfl

lemma names_eq (s : Spec V) : names s = s.name :: s.children.flatMap names := by
  rw [names, placed_eq, List.map_cons, List.map_flatMap]
  simp only [map_placed]
  rfl

lemma map_placed_flatMap (specs : List (Spec V)) :
    (specs.flatMap (placed "")).map (fun e => e.2.name) = specs.flatMap names := by
  simp only [List.map_flatMap, map_placed]

end Nodes

/-- Following the parents from the queue reaches a queue without one. -/
inductive Rooted (crs : List (QueueCR V)) : QueueCR V → Prop
  | top {cr : QueueCR V} (h : cr.parent = "") : Rooted crs cr
  | under {cr p : QueueCR V} (hp : p ∈ crs) (hname : p.name = cr.parent) (h : Rooted crs p) :
      Rooted crs cr

/-- The queues of a namespace are a forest by their parents. -/
structure Forest (crs : List (QueueCR V)) : Prop where
  distinct : (crs.map QueueCR.name).Nodup
  parents : ∀ cr ∈ crs, cr.parent ≠ "" → ∃ p ∈ crs, p.name = cr.parent
  rooted : ∀ cr ∈ crs, Rooted crs cr

lemma count_map {α : Type*} (f : α → String) (l : List α) (n : String) :
    (l.map f).count n = (l.map fun a => if n = f a then 1 else 0).sum := by
  induction l with
  | nil => rfl
  | cons a l ih =>
    rw [List.map_cons, List.count_cons, ih, List.map_cons, List.sum_cons, add_comm]
    simp [beq_iff_eq, eq_comm (a := f a)]

lemma exists_cr_of_mem_names [CommRing V] [LinearOrder V] {crs : List (QueueCR V)} {s : Spec V}
    (h : Declared crs s) {n : String} (hn : n ∈ names s) : ∃ cr ∈ crs, cr.name = n := by
  induction h with
  | queue own children hown _ _ ih =>
    rw [names_eq, List.mem_cons, List.mem_flatMap] at hn
    rcases hn with rfl | ⟨c, hc, hin⟩
    · exact ⟨own, hown, rfl⟩
    · exact ih c hc hin

/-- The entry of a queue: its parent and its own specification. -/
def entry [CommRing V] [LinearOrder V] (cr : QueueCR V) : String × Spec V :=
  (cr.parent, crToSpec cr [])

section Counting
variable {crs : List (QueueCR V)} (hd : (crs.map QueueCR.name).Nodup)
include hd

lemma count_childNames {cr : QueueCR V} (hcr : cr ∈ crs) (parent : String) :
    (childNames crs parent).count cr.name = if cr.parent = parent then 1 else 0 := by
  have hnodup : (childNames crs parent).Nodup := by
    refine (List.perm_insertionSort _ _).nodup_iff.mpr ?_
    exact hd.sublist (List.filter_sublist.map _)
  rw [hnodup.count]
  have hmem : cr.name ∈ childNames crs parent ↔ cr.parent = parent := by
    rw [mem_childNames]
    constructor
    · rintro ⟨cr', hcr', hparent, hname⟩
      rwa [← List.inj_on_of_nodup_map hd hcr' hcr hname]
    · exact fun h => ⟨cr, hcr, h, rfl⟩
  simp only [hmem]

variable [CommRing V] [LinearOrder V]

lemma count_names {s : Spec V} (h : Declared crs s) {cr : QueueCR V} (hcr : cr ∈ crs) :
    (names s).count cr.name =
      (if cr.name = s.name then 1 else 0) + (names s).count cr.parent := by
  induction h with
  | queue own children hown hnames _ ih =>
    have hnext : (children.map fun c => (names c).count cr.name).sum =
        (childNames crs own.name).count cr.name +
          (children.map fun c => (names c).count cr.parent).sum := by
      rw [List.map_congr_left fun c hc => ih c hc, List.sum_map_add, ← hnames, count_map]
    have hself : ∀ n, (names (crToSpec own children)).count n =
        (children.map fun c => (names c).count n).sum + if n = own.name then 1 else 0 := by
      intro n
      rw [names_eq, List.count_cons, List.count_flatMap]
      simp [crToSpec, Function.comp_def, eq_comm (a := own.name)]
    rw [hself, hself, hnext, count_childNames hd hcr]
    change _ = (if cr.name = own.name then 1 else 0) + _
    omega

lemma count_eq_one {specs : List (Spec V)} (htops : specs.map Spec.name = childNames crs "")
    (hdeclared : ∀ s ∈ specs, Declared crs s) (hne : ∀ cr ∈ crs, cr.name ≠ "") {cr : QueueCR V}
    (hcr : cr ∈ crs) (h : Rooted crs cr) : (specs.flatMap names).count cr.name = 1 := by
  have hstep : ∀ cr ∈ crs, (specs.flatMap names).count cr.name =
      (if cr.parent = "" then 1 else 0) + (specs.flatMap names).count cr.parent := by
    intro cr hcr
    rw [List.count_flatMap, List.count_flatMap]
    simp only [Function.comp_def]
    rw [List.map_congr_left fun s hs => count_names hd (hdeclared s hs) hcr, List.sum_map_add,
      ← count_map, htops, count_childNames hd hcr]
  induction h with
  | @top cr htop =>
    have hnone : "" ∉ specs.flatMap names := by
      intro hmem
      obtain ⟨s, hs, hin⟩ := List.mem_flatMap.mp hmem
      obtain ⟨cr', hcr', hname⟩ := exists_cr_of_mem_names (hdeclared s hs) hin
      exact hne cr' hcr' hname
    rw [hstep cr hcr, htop, List.count_eq_zero.mpr hnone]
    rfl
  | @under cr p hp hname _ ih =>
    rw [hstep cr hcr, ← hname, ih hp, if_neg (hne p hp)]

lemma placed_of_declared {s : Spec V} (h : Declared crs s) {above : String}
    (habove : ∀ cr ∈ crs, cr.name = s.name → cr.parent = above ∧ Rooted crs cr)
    {e : String × Spec V} (he : e ∈ placed above s) : ∃ cr ∈ crs, Rooted crs cr ∧ e = entry cr := by
  induction h generalizing above with
  | queue own children hown hnames _ ih =>
    obtain ⟨hparent, hrooted⟩ := habove own hown rfl
    rw [placed_eq, List.mem_cons, List.mem_flatMap] at he
    rcases he with rfl | ⟨c, hc, he⟩
    · exact ⟨own, hown, hrooted, by rw [entry, hparent]; rfl⟩
    · refine ih c hc (fun cr hcr hname => ?_) he
      have hmem : c.name ∈ childNames crs own.name := hnames ▸ List.mem_map_of_mem hc
      obtain ⟨cr', hcr', hparent', hname'⟩ := mem_childNames.mp hmem
      obtain rfl := List.inj_on_of_nodup_map hd hcr hcr' (hname.trans hname'.symm)
      exact ⟨hparent', .under hown hparent'.symm hrooted⟩

lemma exists_entry {specs : List (Spec V)} (htops : specs.map Spec.name = childNames crs "")
    (hdeclared : ∀ s ∈ specs, Declared crs s) {e : String × Spec V}
    (he : e ∈ specs.flatMap (placed "")) : ∃ cr ∈ crs, Rooted crs cr ∧ e = entry cr := by
  obtain ⟨s, hs, he⟩ := List.mem_flatMap.mp he
  have htop : s.name ∈ childNames crs "" := htops ▸ List.mem_map_of_mem hs
  obtain ⟨cr', hcr', hparent, hname'⟩ := mem_childNames.mp htop
  refine placed_of_declared hd (hdeclared s hs) (fun cr hcr hname => ?_) he
  obtain rfl := List.inj_on_of_nodup_map hd hcr hcr' (hname.trans hname'.symm)
  exact ⟨hparent, .top hparent⟩

/-- The queues of the built specification, each with the node above it, are the queues of the
namespace, each with its parent. -/
lemma placed_perm {specs : List (Spec V)} (htops : specs.map Spec.name = childNames crs "")
    (hdeclared : ∀ s ∈ specs, Declared crs s) (hne : ∀ cr ∈ crs, cr.name ≠ "")
    (hrooted : ∀ cr ∈ crs, Rooted crs cr) :
    (specs.flatMap (placed "")).Perm (crs.map entry) := by
  have hmap := map_placed_flatMap specs
  have hentries : ∀ e ∈ specs.flatMap (placed ""), ∃ cr ∈ crs, e = entry cr := by
    intro e he
    obtain ⟨cr, hcr, -, hentry⟩ := exists_entry hd htops hdeclared he
    exact ⟨cr, hcr, hentry⟩
  have hone : ∀ cr ∈ crs, (specs.flatMap names).count cr.name = 1 := fun cr hcr =>
    count_eq_one hd htops hdeclared hne hcr (hrooted cr hcr)
  have hnodup : (specs.flatMap names).Nodup := by
    rw [List.nodup_iff_count_le_one]
    intro n
    by_cases hn : n ∈ specs.flatMap names
    · rw [← hmap] at hn
      obtain ⟨e, he, rfl⟩ := List.mem_map.mp hn
      obtain ⟨cr, hcr, rfl⟩ := hentries e he
      exact (hone cr hcr).le
    · rw [List.count_eq_zero.mpr hn]
      omega
  have hcrs : (crs.map entry).Nodup :=
    List.Nodup.of_map (fun e : String × Spec V => e.2.name) (by
      rw [List.map_map]
      exact hd)
  rw [List.perm_ext_iff_of_nodup (List.Nodup.of_map _ (hmap ▸ hnodup)) hcrs]
  intro e
  constructor
  · intro he
    obtain ⟨cr, hcr, rfl⟩ := hentries e he
    exact List.mem_map_of_mem hcr
  · intro he
    obtain ⟨cr, hcr, rfl⟩ := List.mem_map.mp he
    have hin : cr.name ∈ (specs.flatMap (placed "")).map (fun e => e.2.name) := by
      rw [hmap]
      exact List.count_pos_iff.mp (by rw [hone cr hcr]; exact one_pos)
    obtain ⟨e', he', hname⟩ := List.mem_map.mp hin
    obtain ⟨cr', hcr', rfl⟩ := hentries e' he'
    rwa [List.inj_on_of_nodup_map hd hcr' hcr hname] at he'

end Counting

section Descent
variable {ns : String}

lemma buildEach_built {build : Finset String → String → Except BuildErr (Spec V × Finset String)}
    (hbuild : ∀ built n s built', build built n = .ok (s, built') →
      ∀ x, x ∈ built' ↔ x ∈ built ∨ x ∈ names s)
    {todo : List String} {built built' : Finset String} {specs : List (Spec V)}
    (h : buildEach build todo built = .ok (specs, built')) (x : String) :
    x ∈ built' ↔ x ∈ built ∨ x ∈ specs.flatMap names := by
  induction todo generalizing built specs with
  | nil =>
    simp only [buildEach, Except.ok.injEq, Prod.mk.injEq] at h
    simp [← h.1, h.2]
  | cons n rest ih =>
    obtain ⟨s, built₁, specs', hb, hrest, rfl⟩ := buildEach_cons_ok h
    rw [ih hrest, hbuild _ _ _ _ hb, List.flatMap_cons, List.mem_append, or_assoc]

lemma buildEach_total {build : Finset String → String → Except BuildErr (Spec V × Finset String)}
    {todo : List String} (hbuild : ∀ n ∈ todo, ∀ built, ∃ r, build built n = .ok r)
    (built : Finset String) : ∃ r, buildEach build todo built = .ok r := by
  induction todo generalizing built with
  | nil => exact ⟨_, rfl⟩
  | cons n rest ih =>
    obtain ⟨hn, hrest⟩ := List.forall_mem_cons.mp hbuild
    obtain ⟨r, hr⟩ := hn built
    obtain ⟨r', hr'⟩ := ih hrest r.2
    exact ⟨(r.1 :: r'.1, r'.2), by simp only [buildEach, hr, hr']⟩

lemma buildEach_expected {build : Finset String → String → Except BuildErr (Spec V × Finset String)}
    {todo : List String} {x : String}
    (h : ∀ n ∈ todo, ∀ built, build built n ≠ .error (.unexpected x)) (built : Finset String) :
    buildEach build todo built ≠ .error (.unexpected x) := by
  induction todo generalizing built with
  | nil => simp [buildEach]
  | cons n rest ih =>
    obtain ⟨hn, hrest⟩ := List.forall_mem_cons.mp h
    rw [buildEach]
    cases hb : build built n with
    | error err =>
      rw [← hb]
      exact fun heq => hn built (by simpa [hb] using heq)
    | ok r =>
      cases hr : buildEach build rest r.2 with
      | error err => exact fun heq => ih hrest r.2 (by simpa [hr] using heq)
      | ok r' => simp [hr]

lemma buildEach_congr {build build' : Finset String → String →
    Except BuildErr (Spec V × Finset String)}
    {todo : List String} (h : ∀ n ∈ todo, ∀ built, build built n = build' built n)
    (built : Finset String) : buildEach build todo built = buildEach build' todo built := by
  induction todo generalizing built with
  | nil => rfl
  | cons n rest ih =>
    obtain ⟨hn, hrest⟩ := List.forall_mem_cons.mp h
    simp only [buildEach, hn, ih hrest]

variable [CommRing V] [LinearOrder V] {byName : Map String (QueueCR V)}
  {childrenOf : Map String (List String)}

lemma buildQueue_built {depth : ℕ} {visiting built built' : Finset String} {name : String}
    {s : Spec V} (hbyName : ∀ n cr, byName.lookup n = some cr → cr.name = n)
    (h : buildQueue ns byName childrenOf depth visiting built name = .ok (s, built')) (x : String) :
    x ∈ built' ↔ x ∈ built ∨ x ∈ names s := by
  induction depth generalizing visiting built built' name s x with
  | zero => cases h
  | succ depth ih =>
    obtain ⟨cr, specs, built₁, hcr, hspecs, rfl, rfl⟩ := buildQueue_succ_ok h
    rw [Finset.mem_insert, buildEach_built (fun _ _ _ _ hb => ih hb) hspecs, names_eq,
      List.mem_cons]
    change x = name ∨ _ ↔ x ∈ built ∨ x = cr.name ∨ x ∈ specs.flatMap names
    rw [hbyName name cr hcr, or_left_comm]

section Depth
variable {known : Finset String}
  (hchildren : ∀ n, ∀ c ∈ sortedStrings ((childrenOf.lookup n).getD []), c ∈ known)
include hchildren

lemma buildQueue_depth {depth depth' : ℕ} {visiting : Finset String} (hvisiting : visiting ⊆ known)
    (hdepth : known.card < visiting.card + depth) (hdepth' : known.card < visiting.card + depth')
    {name : String} (hname : name ∈ known) (built : Finset String) :
    buildQueue ns byName childrenOf depth visiting built name =
      buildQueue ns byName childrenOf depth' visiting built name := by
  have hcard := Finset.card_le_card hvisiting
  induction depth generalizing depth' visiting name built with
  | zero => omega
  | succ depth ih =>
    cases depth' with
    | zero => omega
    | succ depth' =>
      rw [buildQueue, buildQueue]
      split_ifs with hseen
      · rfl
      · have hmore : insert name visiting ⊆ known := Finset.insert_subset hname hvisiting
        have hgrows : (insert name visiting).card = visiting.card + 1 :=
          Finset.card_insert_of_notMem hseen
        have hsame := buildEach_congr (fun c hc built => ih hmore (by omega : _ < _ + depth)
          (by omega : _ < _ + depth') (hchildren name c hc) built (Finset.card_le_card hmore)) built
        simp only [hsame]

lemma buildQueue_expected (hknown : ∀ n ∈ known, ∃ cr, byName.lookup n = some cr) {depth : ℕ}
    {visiting : Finset String} (hvisiting : visiting ⊆ known)
    (hdepth : known.card < visiting.card + depth) {name : String} (hname : name ∈ known)
    (built : Finset String) (x : String) :
    buildQueue ns byName childrenOf depth visiting built name ≠ .error (.unexpected x) := by
  have hcard := Finset.card_le_card hvisiting
  induction depth generalizing visiting name built with
  | zero => omega
  | succ depth ih =>
    rw [buildQueue]
    split_ifs with hseen
    · simp
    have hmore : insert name visiting ⊆ known := Finset.insert_subset hname hvisiting
    have hgrows : (insert name visiting).card = visiting.card + 1 :=
      Finset.card_insert_of_notMem hseen
    have hbelow := buildEach_expected (x := x)
      (fun c hc built => ih hmore (by omega : _ < _ + depth)
      (hchildren name c hc) built (Finset.card_le_card hmore)) built
    obtain ⟨cr, hcr⟩ := hknown name hname
    dsimp only
    split
    · rename_i err herr
      rintro ⟨⟩
      exact hbelow herr
    · simp [hcr]

lemma buildQueue_total (hknown : ∀ n ∈ known, ∃ cr, byName.lookup n = some cr)
    {up : String → String → Prop}
    (hup : ∀ n, ∀ c ∈ sortedStrings ((childrenOf.lookup n).getD []), up n c)
    (hacyclic : ∀ n ∈ known, ¬ Relation.TransGen up n n) {depth : ℕ} {visiting : Finset String}
    (hvisiting : visiting ⊆ known) (hdepth : known.card < visiting.card + depth) {name : String}
    (hname : name ∈ known) (habove : ∀ x ∈ visiting, Relation.TransGen up x name)
    (built : Finset String) :
    ∃ r, buildQueue ns byName childrenOf depth visiting built name = .ok r := by
  have hcard := Finset.card_le_card hvisiting
  induction depth generalizing visiting name built with
  | zero => omega
  | succ depth ih =>
    have hseen : name ∉ visiting := fun hin => hacyclic name hname (habove name hin)
    have hmore : insert name visiting ⊆ known := Finset.insert_subset hname hvisiting
    have hgrows : (insert name visiting).card = visiting.card + 1 :=
      Finset.card_insert_of_notMem hseen
    have hbelow : ∀ c ∈ sortedStrings ((childrenOf.lookup name).getD []), ∀ built,
        ∃ r, buildQueue ns byName childrenOf depth (insert name visiting) built c = .ok r := by
      intro c hc built
      refine ih hmore (by omega) (hchildren name c hc) (fun x hx => ?_) built
        (Finset.card_le_card hmore)
      rcases Finset.mem_insert.mp hx with rfl | hx
      · exact .single (hup x c hc)
      · exact (habove x hx).tail (hup name c hc)
    obtain ⟨r, hr⟩ := buildEach_total hbelow built
    obtain ⟨cr, hcr⟩ := hknown name hname
    exact ⟨(crToSpec cr r.1, insert name r.2), by simp only [buildQueue, hseen, if_false, hr, hcr]⟩

end Depth

end Descent

section Namespace
variable {crs : List (QueueCR V)}

/-- The second name is that of a queue right below the first. -/
def Under (crs : List (QueueCR V)) (a b : String) : Prop := ∃ cr ∈ crs, cr.parent = a ∧ cr.name = b

lemma Rooted.acyclic (hd : (crs.map QueueCR.name).Nodup) (hne : ∀ cr ∈ crs, cr.name ≠ "")
    {cr : QueueCR V} (h : Rooted crs cr) (hcr : cr ∈ crs) :
    ¬ Relation.TransGen (Under crs) cr.name cr.name := by
  -- the last step of a cycle comes from the parent
  have hlast : ∀ {cr : QueueCR V}, cr ∈ crs → ∀ {a}, Relation.TransGen (Under crs) a cr.name →
      Relation.ReflTransGen (Under crs) a cr.parent := by
    intro cr hcr a hcycle
    obtain ⟨b, hab, cr', hcr', hparent, hname⟩ := Relation.TransGen.tail'_iff.mp hcycle
    rwa [← List.inj_on_of_nodup_map hd hcr' hcr hname, hparent]
  induction h with
  | @top cr htop =>
    intro hcycle
    have hup := hlast hcr hcycle
    rw [htop] at hup
    rcases Relation.ReflTransGen.cases_tail hup with hempty | ⟨b, -, cr', hcr', -, hname⟩
    · exact hne cr hcr hempty.symm
    · exact hne cr' hcr' hname
  | @under cr p hp hname _ ih =>
    intro hcycle
    refine ih hp (Relation.TransGen.head' ⟨cr, hcr, hname.symm, rfl⟩ ?_)
    rw [hname]
    exact hlast hcr hcycle

variable [CommRing V] [LinearOrder V]

/-- `buildNamespace` with another bound on the depth of the recursion. -/
def buildNamespaceWithin (depth : ℕ) (ns : String) (crs : List (QueueCR V))
    (envelope : Resource V) :
    Except BuildErr (Spec V) :=
  match indexByName ns crs ∅ with
  | .error err => .error err
  | .ok byName =>
    match groupByParent ns byName crs ∅ with
    | .error err => .error err
    | .ok childrenOf =>
      let tops := sortedStrings ((childrenOf.lookup "").getD [])
      let build := buildQueue ns byName childrenOf depth ∅
      match buildEach build tops ∅ with
      | .error err => .error err
      | .ok (specs, built) =>
        if built.card ≠ byName.keys.card then
          .error (.unreachable ns (byName.keys.card - built.card))
        else .ok (bareSpec ns envelope specs)

lemma buildNamespace_eq (ns : String) (crs : List (QueueCR V)) (envelope : Resource V) :
    buildNamespace ns crs envelope = buildNamespaceWithin (crs.length + 1) ns crs envelope := rfl

omit [CommRing V] [LinearOrder V] in
lemma child_mem_keys {byName : Map String (QueueCR V)} {childrenOf : Map String (List String)}
    (h : Indexed crs byName childrenOf) (n c : String)
    (hc : c ∈ sortedStrings ((childrenOf.lookup n).getD [])) : c ∈ byName.keys ∧ Under crs n c := by
  rw [h.children, mem_childNames] at hc
  obtain ⟨cr, hcr, hparent, rfl⟩ := hc
  rw [h.keys_eq]
  exact ⟨by simpa using ⟨cr, hcr, rfl⟩, cr, hcr, hparent, rfl⟩

lemma buildNamespaceWithin_eq {ns : String} {envelope : Resource V} {depth : ℕ}
    (hdepth : crs.length < depth) :
    buildNamespaceWithin depth ns crs envelope = buildNamespace ns crs envelope := by
  rw [buildNamespace_eq]
  unfold buildNamespaceWithin
  split
  · rfl
  rename_i byName hindex
  split
  · rfl
  rename_i childrenOf hgroup
  have hmaps := indexed hindex hgroup
  have hdepths : ∀ n ∈ sortedStrings ((childrenOf.lookup "").getD []), ∀ built,
      buildQueue ns byName childrenOf depth ∅ built n =
        buildQueue ns byName childrenOf (crs.length + 1) ∅ built n := fun n hn built =>
    buildQueue_depth (fun n c hc => (child_mem_keys hmaps n c hc).1) (Finset.empty_subset _)
      (by simpa [hmaps.card_keys] using hdepth) (by simp [hmaps.card_keys])
      (child_mem_keys hmaps "" n hn).1 built
  have hsame := buildEach_congr hdepths ∅
  simp only [hsame]

omit [CommRing V] [LinearOrder V] in
lemma indexByName_expected (ns : String) (crs : List (QueueCR V)) (byName : Map String (QueueCR V))
    (x : String) : indexByName ns crs byName ≠ .error (.unexpected x) := by
  induction crs generalizing byName with
  | nil => simp [indexByName]
  | cons cr rest ih =>
    rw [indexByName]
    split_ifs
    · simp
    · exact ih _

omit [CommRing V] [LinearOrder V] in
lemma groupByParent_expected (ns : String) (byName : Map String (QueueCR V))
    (crs : List (QueueCR V)) (childrenOf : Map String (List String)) (x : String) :
    groupByParent ns byName crs childrenOf ≠ .error (.unexpected x) := by
  induction crs generalizing childrenOf with
  | nil => simp [groupByParent]
  | cons cr rest ih =>
    rw [groupByParent]
    split_ifs
    · simp
    · exact ih _

lemma buildNamespace_expected (ns : String) (crs : List (QueueCR V)) (envelope : Resource V)
    (x : String) : buildNamespace ns crs envelope ≠ .error (.unexpected x) := by
  unfold buildNamespace
  split
  · rename_i err herr
    rintro ⟨⟩
    exact indexByName_expected ns crs ∅ x herr
  rename_i byName hindex
  split
  · rename_i err herr
    rintro ⟨⟩
    exact groupByParent_expected ns byName crs ∅ x herr
  rename_i childrenOf hgroup
  have hmaps := indexed hindex hgroup
  have hqueue : ∀ n ∈ sortedStrings ((childrenOf.lookup "").getD []), ∀ built,
      buildQueue ns byName childrenOf (crs.length + 1) ∅ built n ≠ .error (.unexpected x) :=
    fun n hn built => buildQueue_expected (fun n c hc => (child_mem_keys hmaps n c hc).1)
      (fun n hn => Finmap.mem_iff.mp (Finmap.mem_keys.mp hn)) (Finset.empty_subset _)
      (by simp [hmaps.card_keys]) (child_mem_keys hmaps "" n hn).1 built x
  have hbelow := buildEach_expected hqueue ∅
  dsimp only
  split
  · rename_i err herr
    rintro ⟨⟩
    exact hbelow herr
  · split_ifs <;> simp

lemma mem_built_iff {ns : String} {byName : Map String (QueueCR V)}
    {childrenOf : Map String (List String)} (hmaps : Indexed crs byName childrenOf) {depth : ℕ}
    {todo : List String} {specs : List (Spec V)} {built : Finset String}
    (h : buildEach (buildQueue ns byName childrenOf depth ∅) todo ∅ = .ok (specs, built)) :
    (specs.map Spec.name = todo ∧ ∀ s ∈ specs, Declared crs s) ∧
      (∀ x, x ∈ built ↔ x ∈ specs.flatMap names) ∧ built ⊆ byName.keys := by
  have hspecs := buildEach_ok (P := Declared crs)
    (fun _ _ _ _ hb => buildQueue_ok (fun n cr => (hmaps.lookup_iff n cr).mp) hmaps.children hb) h
  have hbuilt : ∀ x, x ∈ built ↔ x ∈ specs.flatMap names := by
    intro x
    rw [buildEach_built (fun _ _ _ _ hb =>
      buildQueue_built (fun n cr hcr => ((hmaps.lookup_iff n cr).mp hcr).2) hb) h]
    simp
  refine ⟨hspecs, hbuilt, fun x hx => ?_⟩
  obtain ⟨s, hs, hin⟩ := List.mem_flatMap.mp ((hbuilt x).mp hx)
  obtain ⟨cr, hcr, rfl⟩ := exists_cr_of_mem_names (hspecs.2 s hs) hin
  rw [hmaps.keys_eq]
  simpa using ⟨cr, hcr, rfl⟩

lemma forest_of_buildNamespace {ns : String} {envelope : Resource V} {spec : Spec V}
    (h : buildNamespace ns crs envelope = .ok spec) : Forest crs := by
  obtain ⟨byName, childrenOf, specs, built, hindex, hgroup, hspecs, hcard, -⟩ :=
    buildNamespace_eq_ok_iff.mp h
  have hmaps := indexed hindex hgroup
  obtain ⟨⟨htops, hdeclared⟩, hbuilt, hsub⟩ := mem_built_iff hmaps hspecs
  rw [hmaps.children] at htops
  have hall : built = byName.keys := Finset.eq_of_subset_of_card_le hsub hcard.ge
  refine ⟨hmaps.distinct, fun cr hcr hparent => ?_, fun cr hcr => ?_⟩
  · rcases ((groupByParent_ok_iff _ crs ∅ childrenOf).mp hgroup).1 cr hcr with hempty | hmem
    · exact absurd hempty hparent
    · obtain ⟨p, hp⟩ := Finmap.mem_iff.mp hmem
      exact ⟨p, (hmaps.lookup_iff _ _).mp hp⟩
  · have hin : cr.name ∈ specs.flatMap names := by
      rw [← hbuilt, hall, hmaps.keys_eq]
      simpa using ⟨cr, hcr, rfl⟩
    rw [← map_placed_flatMap] at hin
    obtain ⟨e, he, hname⟩ := List.mem_map.mp hin
    obtain ⟨cr', hcr', hrooted, rfl⟩ := exists_entry hmaps.distinct htops hdeclared he
    rwa [List.inj_on_of_nodup_map hmaps.distinct hcr' hcr hname] at hrooted

omit [CommRing V] [LinearOrder V] in
lemma Forest.exists_maps (h : Forest crs) (ns : String) :
    ∃ byName childrenOf, indexByName ns crs ∅ = .ok byName ∧
      groupByParent ns byName crs ∅ = .ok childrenOf := by
  refine ⟨crs.foldl (fun m cr => m.insert cr.name cr) ∅,
    collect (fun cr => some cr.parent) QueueCR.name crs ∅, ?_, ?_⟩
  · exact (indexByName_ok_iff crs ∅ _).mpr ⟨h.distinct, fun _ _ => Finmap.notMem_empty, rfl⟩
  · refine (groupByParent_ok_iff _ crs ∅ _).mpr ⟨fun cr hcr => ?_, rfl⟩
    by_cases hempty : cr.parent = ""
    · exact .inl hempty
    · obtain ⟨p, hp, hname⟩ := h.parents cr hcr hempty
      have hlook := (lookup_foldl_insert_name h.distinct ∅ cr.parent p).mpr (.inl ⟨hp, hname⟩)
      exact .inr (Finmap.mem_of_lookup_eq_some hlook)

lemma buildNamespace_of_forest {ns : String} {envelope : Resource V}
    (hne : ∀ cr ∈ crs, cr.name ≠ "") (h : Forest crs) :
    ∃ spec, buildNamespace ns crs envelope = .ok spec := by
  obtain ⟨byName, childrenOf, hindex, hgroup⟩ := h.exists_maps ns
  have hmaps := indexed hindex hgroup
  have hknown : ∀ n ∈ byName.keys, ∃ cr ∈ crs, cr.name = n := by
    intro n hn
    rw [hmaps.keys_eq] at hn
    simpa using hn
  have hacyclic : ∀ n ∈ byName.keys, ¬ Relation.TransGen (Under crs) n n := by
    intro n hn
    obtain ⟨cr, hcr, rfl⟩ := hknown n hn
    exact (h.rooted cr hcr).acyclic h.distinct hne hcr
  have hbuilds : ∀ n ∈ sortedStrings ((childrenOf.lookup "").getD []), ∀ built,
      ∃ r, buildQueue ns byName childrenOf (crs.length + 1) ∅ built n = .ok r := fun n hn built =>
    buildQueue_total (fun n c hc => (child_mem_keys hmaps n c hc).1)
      (fun n hn => Finmap.mem_iff.mp (Finmap.mem_keys.mp hn))
      (fun n c hc => (child_mem_keys hmaps n c hc).2) hacyclic
      (Finset.empty_subset _) (by simp [hmaps.card_keys])
      (child_mem_keys hmaps "" n hn).1 (by simp) built
  obtain ⟨⟨specs, built⟩, hspecs⟩ := buildEach_total hbuilds ∅
  obtain ⟨⟨htops, hdeclared⟩, hbuilt, hsub⟩ := mem_built_iff hmaps hspecs
  rw [hmaps.children] at htops
  have hall : built = byName.keys := by
    refine hsub.antisymm fun n hn => ?_
    obtain ⟨cr, hcr, rfl⟩ := hknown n hn
    rw [hbuilt]
    exact List.count_pos_iff.mp (by
      rw [count_eq_one h.distinct htops hdeclared hne hcr (h.rooted cr hcr)]
      exact one_pos)
  exact ⟨bareSpec ns envelope specs, buildNamespace_eq_ok_iff.mpr
    ⟨byName, childrenOf, specs, built, hindex, hgroup, hspecs, by rw [hall], rfl⟩⟩

end Namespace

section Assembly
variable [CommRing V] [LinearOrder V] {queues queues' : List (QueueCR V)}
  {envelopes : Map String (Resource V)}

/-- The specification has a node under the root for each namespace with queues, with the
envelope of that namespace, and below it one node for each of the queues, under the node of
its parent. -/
structure Laid (queues : List (QueueCR V)) (envelopes : Map String (Resource V)) (spec : Spec V) :
    Prop where
  root : spec = bareSpec rootName ∅ spec.children
  distinct : (spec.children.map Spec.name).Nodup
  namespaces : ∀ ns, ns ∈ spec.children.map Spec.name ↔ ∃ cr, cr ∈ tenantQueues queues ns
  envelope : ∀ node ∈ spec.children,
    node = bareSpec node.name ((envelopes.lookup node.name).getD ∅) node.children
  queues : ∀ node ∈ spec.children,
    (node.children.flatMap (placed "")).Perm ((tenantQueues queues node.name).map entry)

lemma laid_of_buildSpec (hne : ∀ cr ∈ queues, cr.name ≠ "") {spec : Spec V}
    (h : buildSpec queues envelopes = .ok spec) : Laid queues envelopes spec := by
  obtain ⟨nodes, rfl, hnodes⟩ := buildSpec_eq_ok_iff.mp h
  have hbuilt : ∀ node ∈ nodes, ∃ specs, node = bareSpec node.name
      ((envelopes.lookup node.name).getD ∅) specs ∧
      (specs.flatMap (placed "")).Perm ((tenantQueues queues node.name).map entry) := by
    intro node hnode
    obtain ⟨ns, -, hns⟩ := hnodes.mem_iff.mp hnode
    obtain ⟨specs, rfl, hstands⟩ := buildNamespace_ok hns
    exact ⟨specs, rfl, placed_perm hstands.distinct hstands.tops hstands.declared
      (fun cr hcr => hne cr (mem_tenantQueues.mp hcr).1) (forest_of_buildNamespace hns).rooted⟩
  refine ⟨rfl, ?_, fun ns => ?_, fun node hnode => ?_, fun node hnode => ?_⟩
  · change (nodes.map Spec.name).Nodup
    rw [hnodes.names]
    exact (sortedKeys_visits _).1
  · change ns ∈ nodes.map Spec.name ↔ _
    rw [hnodes.names, mem_namespaces]
  · obtain ⟨specs, heq, -⟩ := hbuilt node hnode
    have hchildren : node.children = specs := congrArg Spec.children heq
    rw [hchildren]
    exact heq
  · obtain ⟨specs, heq, hperm⟩ := hbuilt node hnode
    have hchildren : node.children = specs := congrArg Spec.children heq
    rw [hchildren]
    exact hperm

lemma buildSpec_ok_iff_forest (hne : ∀ cr ∈ queues, cr.name ≠ "") :
    (∃ spec, buildSpec queues envelopes = .ok spec) ↔ ∀ ns, Forest (tenantQueues queues ns) := by
  simp only [buildSpec_eq_ok_iff]
  constructor
  · rintro ⟨_, nodes, rfl, hnodes⟩ ns
    by_cases hns : ∃ cr, cr ∈ tenantQueues queues ns
    · obtain ⟨node, -, hbuilt⟩ := hnodes.exists_node hns
      exact forest_of_buildNamespace hbuilt
    · rw [List.eq_nil_iff_forall_not_mem.mpr fun cr hcr => hns ⟨cr, hcr⟩]
      exact ⟨List.nodup_nil, by simp, by simp⟩
  · intro h
    have hbuilt : ∀ ns, (∃ cr, cr ∈ tenantQueues queues ns) → ∃ node,
        buildNamespace ns (tenantQueues queues ns) ((envelopes.lookup ns).getD ∅) = .ok node :=
      fun ns _ => buildNamespace_of_forest (fun cr hcr => hne cr (mem_tenantQueues.mp hcr).1) (h ns)
    obtain ⟨nodes, hnodes⟩ := exists_builtNodes hbuilt
    exact ⟨_, nodes, rfl, hnodes⟩

lemma buildSpec_perm (hperm : queues.Perm queues') {spec : Spec V}
    (h : buildSpec queues envelopes = .ok spec) : buildSpec queues' envelopes = .ok spec := by
  have htenants : ∀ ns, (tenantQueues queues ns).Perm (tenantQueues queues' ns) := fun ns =>
    hperm.filter _
  have hkeys : sortedKeys (groupByNamespace queues') = sortedKeys (groupByNamespace queues) := by
    have hsame : (groupByNamespace queues').keys = (groupByNamespace queues).keys := by
      ext ns
      simp only [Finmap.mem_keys, mem_groupByNamespace, (htenants ns).mem_iff]
    rw [sortedKeys, sortedKeys, hsame]
  rw [buildSpec_eq_ok_iff] at h ⊢
  obtain ⟨nodes, rfl, hnodes⟩ := h
  refine ⟨nodes, rfl, ?_⟩
  rw [BuiltNodes, hkeys, ← hnodes]
  refine List.map_congr_left fun ns hns => ?_
  obtain ⟨node, -, hbuilt⟩ := hnodes.exists_node (mem_namespaces.mp hns)
  rw [hbuilt]
  exact buildNamespace_perm (htenants ns) hbuilt

/-- Assembly accepts exactly forests and loses nothing. -/
theorem buildSpec_accepts_forests (queues : List (QueueCR V)) (envelopes : Map String (Resource V))
    (hne : ∀ cr ∈ queues, cr.name ≠ "") :
    (∀ ns depth envelope, (tenantQueues queues ns).length < depth →
      buildNamespaceWithin depth ns (tenantQueues queues ns) envelope =
        buildNamespace ns (tenantQueues queues ns) envelope ∧
      ∀ name, buildNamespace ns (tenantQueues queues ns) envelope ≠ .error (.unexpected name)) ∧
    ((∃ spec, buildSpec queues envelopes = .ok spec) ↔ ∀ ns, Forest (tenantQueues queues ns)) ∧
    (∀ spec, buildSpec queues envelopes = .ok spec → Laid queues envelopes spec) ∧
    ∀ queues', queues.Perm queues' → ∀ spec,
      buildSpec queues envelopes = .ok spec ↔ buildSpec queues' envelopes = .ok spec :=
  ⟨fun _ _ _ hdepth => ⟨buildNamespaceWithin_eq hdepth, buildNamespace_expected _ _ _⟩,
    buildSpec_ok_iff_forest hne,
    fun _ h => laid_of_buildSpec hne h,
    fun _ hperm _ => ⟨buildSpec_perm hperm, buildSpec_perm hperm.symm⟩⟩

end Assembly

def nestedQueues : List (QueueCR ℤ) :=
  [{ bareQueue "team" "etl" 4 ["etl"] with parent := "jobs" }, bareQueue "team" "jobs" 10 []]

theorem nested_queues_forest :
    (∀ cr ∈ nestedQueues, cr.name ≠ "") ∧ ∀ ns, Forest (tenantQueues nestedQueues ns) :=
  ⟨by decide, ((buildSpec_accepts_forests nestedQueues ∅ (by decide)).2.1).mp
    (exists_ok_of_isOk (by decide +kernel))⟩

end AdScheduler.QueueForests
