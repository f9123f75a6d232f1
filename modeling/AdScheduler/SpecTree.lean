import AdScheduler.DottedPath
import AdScheduler.TreeShape

/-! What `build` makes of a specification, said without its loops: it succeeds where every
queue passes its checks, and then the index holds the queues of the specification, each at
its place. -/
namespace AdScheduler.SpecTree
open KeyedMap Resources QueueTree TreeShape DottedPath

variable {V : Type*}

/-- Induction over the queues of a specification. -/
theorem specInduction {P : Spec V → Prop} (h : ∀ s, (∀ c ∈ s.children, P c) → P s) : ∀ s, P s
  | ⟨name, gua, mx, sas, df, ma, li, su, ad, fe, children⟩ =>
    h _ fun c hc =>
      have _hlt := List.sizeOf_lt_of_mem (show c ∈ children from hc)
      specInduction h c
termination_by s => sizeOf s
decreasing_by
  simp only [Spec.mk.sizeOf_spec]
  omega

/-- A specification at its place in the tree. -/
structure Site (V : Type*) where
  parent : Option String
  path : String
  spec : Spec V

namespace Site

def child (a : Site V) (c : Spec V) : Site V := ⟨some a.path, a.path ++ "." ++ c.name, c⟩

def children (a : Site V) : List (Site V) := a.spec.children.map a.child

def queue (a : Site V) : Queue V where
  name := a.spec.name
  path := a.path
  parent := a.parent
  children := tabulate (a.spec.children.map Spec.name).toFinset fun n => a.path ++ "." ++ n
  guaranteed := a.spec.guaranteed
  max := a.spec.max
  serviceAccounts := a.spec.serviceAccounts
  defaultLeaf := a.spec.default
  maxApplications := a.spec.maxApplications
  limits := a.spec.limits
  submitACL := parseACL a.spec.submitACL
  adminACL := parseACL a.spec.adminACL
  fence := a.spec.fence

lemma isLeaf_queue (a : Site V) : a.queue.isLeaf = true ↔ a.spec.children = [] := by
  rw [Queue.isLeaf, decide_eq_true_eq]
  constructor
  · intro h
    by_contra hne
    obtain ⟨c, hc⟩ := List.exists_mem_of_ne_nil _ hne
    have hmem : c.name ∈ a.queue.children := by
      simp only [queue, mem_tabulate, List.mem_toFinset]
      exact List.mem_map_of_mem hc
    rw [h] at hmem
    exact Finmap.notMem_empty hmem
  · intro h
    refine Finmap.ext_lookup fun k => ?_
    simp [queue, h, lookup_tabulate]

def Below : Site V → Site V → Prop := Relation.ReflTransGen fun a b => b ∈ a.children

lemma below_self (a : Site V) : a.Below a := Relation.ReflTransGen.refl

lemma below_iff {a b : Site V} : a.Below b ↔ b = a ∨ ∃ c ∈ a.children, c.Below b := by
  constructor
  · intro h
    rcases Relation.ReflTransGen.cases_head h with rfl | ⟨c, hc, hcb⟩
    · exact .inl rfl
    · exact .inr ⟨c, hc, hcb⟩
  · rintro (rfl | ⟨c, hc, hcb⟩)
    · exact below_self b
    · exact .head hc hcb

lemma segments_child (a : Site V) (c : Spec V) :
    segments (a.child c).path = segments a.path ++ segments c.name := segments_append a.path c.name

lemma Below.segments {a b : Site V} (h : a.Below b) : segments a.path <+: segments b.path := by
  induction h with
  | refl => exact List.prefix_rfl
  | tail _ hstep ih =>
    obtain ⟨c, -, rfl⟩ := List.mem_map.mp hstep
    rw [segments_child]
    exact ih.trans (List.prefix_append _ _)

lemma segments_prefix_child (a : Site V) (c : Spec V) :
    DottedPath.segments a.path <+: DottedPath.segments (a.child c).path := by
  rw [segments_child]
  exact List.prefix_append _ _

lemma not_segments_child (a : Site V) (c : Spec V) :
    ¬ DottedPath.segments (a.child c).path <+: DottedPath.segments a.path := by
  intro h
  have hle := h.length_le
  have hpos := List.length_pos_of_ne_nil (segments_ne_nil c.name)
  rw [segments_child, List.length_append] at hle
  omega

lemma child_eq_of_segments {a : Site V} {c c' : Spec V} (hc : '.' ∉ c.name.toList)
    (hc' : '.' ∉ c'.name.toList) {p : String}
    (h : DottedPath.segments (a.child c).path <+: segments p)
    (h' : DottedPath.segments (a.child c').path <+: DottedPath.segments p) : c.name = c'.name := by
  have heq : DottedPath.segments (a.child c).path = DottedPath.segments (a.child c').path := by
    apply List.IsPrefix.eq_of_length (List.prefix_of_prefix_length_le h h' ?_)
    · simp [segments_child, segments_name hc, segments_name hc']
    · simp [segments_child, segments_name hc, segments_name hc']
  rw [segments_child, segments_child, segments_name hc, segments_name hc'] at heq
  exact String.toList_injective (by simpa using heq)

end Site

section Checks
variable [CommRing V] [LinearOrder V]

/-- What the children of a queue are guaranteed together. -/
def childrenGuaranteed (s : Spec V) : Resource V :=
  s.children.foldl (fun g c => add g c.guaranteed) ∅

/-- The checks of `build` at one queue. -/
structure Checked (s : Spec V) : Prop where
  name_ne : s.name ≠ ""
  undotted : '.' ∉ s.name.toList
  guaranteed_nonneg : nonNegative s.guaranteed = true
  max_nonneg : nonNegative s.max = true
  distinct : (s.children.map Spec.name).Nodup
  within : ∀ c ∈ s.children, maxWithinParent c.max s.max = true
  covered : guaranteedCovers s.guaranteed (childrenGuaranteed s) = true

/-- Every queue at or below a site passes its checks. -/
def Sound (a : Site V) : Prop := ∀ b, a.Below b → Checked b.spec

lemma sound_iff (a : Site V) : Sound a ↔ Checked a.spec ∧ ∀ c ∈ a.children, Sound c := by
  constructor
  · intro h
    exact ⟨h a a.below_self, fun c hc b hb => h b (.head hc hb)⟩
  · rintro ⟨hself, hbelow⟩ b hb
    rcases Site.below_iff.mp hb with rfl | ⟨c, hc, hcb⟩
    · exact hself
    · exact hbelow c hc b hcb

lemma Sound.eq_of_path {a b b' : Site V} (h : Sound a) (hb : a.Below b) (hb' : a.Below b')
    (hpath : b.path = b'.path) : b = b' := by
  induction hb using Relation.ReflTransGen.head_induction_on with
  | refl =>
    rcases Site.below_iff.mp hb' with rfl | ⟨c, hc, hcb⟩
    · rfl
    · obtain ⟨s, -, rfl⟩ := List.mem_map.mp hc
      exact absurd (hpath ▸ hcb.segments) (b.not_segments_child s)
  | @head a c hc hcb ih =>
    obtain ⟨hself, hbelow⟩ := (sound_iff a).mp h
    obtain ⟨s, hs, rfl⟩ := List.mem_map.mp hc
    rcases Site.below_iff.mp hb' with rfl | ⟨c', hc', hcb'⟩
    · exact absurd (hpath ▸ Site.Below.segments hcb) (b'.not_segments_child s)
    · obtain ⟨s', hs', rfl⟩ := List.mem_map.mp hc'
      have hdot : ∀ s ∈ a.spec.children, '.' ∉ s.name.toList := fun s hs =>
        (hbelow _ (List.mem_map_of_mem hs) _ (Site.below_self _)).undotted
      have hname := Site.child_eq_of_segments (hdot s hs) (hdot s' hs')
        (hpath ▸ Site.Below.segments hcb) hcb'.segments
      obtain rfl := List.inj_on_of_nodup_map hself.distinct hs hs' hname
      exact ih (hbelow _ hc) hcb'

def siteOf (parent : Option (Queue V)) (spec : Spec V) : Site V :=
  ⟨parent.map Queue.path, childPath parent spec.name, spec⟩

lemma buildChildren_same {specs : List (Spec V)} {q : Queue V} {g : Resource V} {ix : Index V}
    {r : Index V × Queue V × Resource V} (h : buildChildren q g ix specs = .ok r) :
    r.2.1 = { q with children := r.2.1.children } := by
  induction specs generalizing q g ix with
  | nil =>
    simp only [buildChildren, Except.ok.injEq] at h
    rw [← h]
  | cons c rest ih =>
    obtain ⟨-, -, ix', child, -, hrest⟩ := buildChildren_cons_ok h
    have hsame := ih hrest
    exact hsame

lemma build_guaranteed {parent : Option (Queue V)} {ix : Index V} {spec : Spec V}
    {r : Index V × Queue V} (h : build parent ix spec = .ok r) :
    r.2.guaranteed = spec.guaranteed := by
  obtain ⟨-, -, -, g, hc, -⟩ := build_ok h
  exact congrArg Queue.guaranteed (buildChildren_same hc)

lemma buildChildren_ok {specs : List (Spec V)} {q : Queue V} {g : Resource V} {ix : Index V}
    {r : Index V × Queue V × Resource V} (h : buildChildren q g ix specs = .ok r) :
    (specs.map Spec.name).Nodup ∧ (∀ c ∈ specs, c.name ∉ q.children) ∧
      (∀ c ∈ specs, maxWithinParent c.max q.max = true) ∧
      (∀ c ∈ specs, ∃ q' ix r', q'.path = q.path ∧ build (some q') ix c = .ok r') ∧
      r.2.2 = specs.foldl (fun g c => add g c.guaranteed) g := by
  induction specs generalizing q g ix with
  | nil =>
    simp only [buildChildren, Except.ok.injEq] at h
    simp [← h]
  | cons c rest ih =>
    obtain ⟨hc, hmax, ix', child, hb, hrest⟩ := buildChildren_cons_ok h
    obtain ⟨hnodup, hnew, hwithin, hbuilt, hsum⟩ := ih hrest
    have hother : ∀ c' ∈ rest, c'.name ≠ c.name ∧ c'.name ∉ q.children := by
      intro c' hc'
      simpa [Finmap.mem_insert] using hnew c' hc'
    refine ⟨?_, ?_, ?_, ?_, ?_⟩
    · rw [List.map_cons, List.nodup_cons]
      refine ⟨fun hmem => ?_, hnodup⟩
      obtain ⟨c', hc', he⟩ := List.mem_map.mp hmem
      exact (hother c' hc').1 he
    · exact List.forall_mem_cons.mpr ⟨hc, fun c' hc' => (hother c' hc').2⟩
    · exact List.forall_mem_cons.mpr ⟨hmax, hwithin⟩
    · exact List.forall_mem_cons.mpr ⟨⟨q, ix, _, rfl, hb⟩, hbuilt⟩
    · rw [hsum, List.foldl_cons, build_guaranteed hb]

/-- A specification that is built passes all checks. -/
theorem sound_of_build (spec : Spec V) : ∀ {parent : Option (Queue V)} {ix : Index V}
    {r : Index V × Queue V}, build parent ix spec = .ok r → Sound (siteOf parent spec) := by
  induction spec using specInduction with
  | h spec ih =>
    intro parent ix r h
    obtain ⟨hname, hvec, -, g, hc, hcovers⟩ := build_ok h
    obtain ⟨hnodup, -, hwithin, hbuilt, hsum⟩ := buildChildren_ok hc
    have hguar := congrArg Queue.guaranteed (buildChildren_same hc)
    dsimp only at hsum hguar
    rw [hsum, hguar] at hcovers
    refine (sound_iff _).mpr ⟨⟨hname.1, hname.2, hvec.1, hvec.2, hnodup, hwithin, hcovers⟩, ?_⟩
    intro a ha
    obtain ⟨c, hmem, rfl⟩ := List.mem_map.mp ha
    obtain ⟨q', ix', r', hpath, hb⟩ := hbuilt c hmem
    have hsite : siteOf (some q') c = (siteOf parent spec).child c := by
      simp only [siteOf, Site.child, childPath, Option.map_some, hpath]
      rfl
    rw [← hsite]
    exact ih c hmem hb

/-- Nothing of the index is at or below the path. -/
def Vacant (ix : Index V) (path : String) : Prop := ∀ p ∈ ix, ¬ segments path <+: segments p

/-- The second index is the first one with the queues of a site added. -/
structure Adds (ix ix' : Index V) (a : Site V) : Prop where
  inside : ∀ p x, segments a.path <+: segments p →
    (ix'.lookup p = some x ↔ ∃ b, a.Below b ∧ b.path = p ∧ x = b.queue)
  outside : ∀ p, ¬ segments a.path <+: segments p → ix'.lookup p = ix.lookup p

/-- The queue with some of its children registered. -/
def withChildren (a : Site V) (q : Queue V) (specs : List (Spec V)) : Queue V :=
  { q with children :=
      specs.foldl (fun m c => m.insert c.name (a.path ++ "." ++ c.name)) q.children }

omit [CommRing V] [LinearOrder V] in
lemma lookup_foldl_insert (f : String → String) (specs : List (Spec V)) (m : Map String String)
    (k : String) :
    (specs.foldl (fun m c => m.insert c.name (f c.name)) m).lookup k =
      if k ∈ specs.map Spec.name then some (f k) else m.lookup k := by
  induction specs generalizing m with
  | nil => simp
  | cons c rest ih =>
    rw [List.foldl_cons, ih, lookup_insert_ite]
    by_cases hrest : k ∈ rest.map Spec.name
    · simp only [hrest, if_true, List.map_cons, List.mem_cons, or_true]
    · by_cases hk : k = c.name
      · simp [hk]
      · simp only [hrest, hk, if_false, List.map_cons, List.mem_cons, or_self]

omit [CommRing V] [LinearOrder V] in
lemma vacant_step {a : Site V} {ix ix₁ : Index V} {c c' : Spec V} {q' : Queue V}
    (hc : '.' ∉ c.name.toList) (hc' : '.' ∉ c'.name.toList) (hne : c.name ≠ c'.name)
    (hadds : Adds ix ix₁ (a.child c)) (hvacant : Vacant ix (a.child c').path) :
    Vacant (ix₁.insert a.path q') (a.child c').path := by
  intro p hp hbelow
  rcases Finmap.mem_insert.mp hp with rfl | hp
  · exact a.not_segments_child c' hbelow
  · by_cases hin : segments (a.child c).path <+: segments p
    · exact hne (Site.child_eq_of_segments hc hc' hin hbelow)
    · obtain ⟨x, hx⟩ := Finmap.mem_iff.mp hp
      rw [hadds.outside p hin] at hx
      exact hvacant p (Finmap.mem_of_lookup_eq_some hx) hbelow

/-- What the loop over some children of a site does to the index. -/
structure AddsChildren (ix ix' : Index V) (a : Site V) (q : Queue V) (specs : List (Spec V)) :
    Prop where
  self : ix'.lookup a.path = some (withChildren a q specs)
  inside : ∀ c ∈ specs, ∀ p x, segments (a.child c).path <+: segments p →
    (ix'.lookup p = some x ↔ ∃ b, (a.child c).Below b ∧ b.path = p ∧ x = b.queue)
  outside : ∀ p, p ≠ a.path → (∀ c ∈ specs, ¬ segments (a.child c).path <+: segments p) →
    ix'.lookup p = ix.lookup p

/-- The build of one child succeeds wherever there is room for it. -/
def Buildable (a : Site V) (c : Spec V) : Prop :=
  ∀ (q : Queue V) (ix : Index V), q.path = a.path → Vacant ix (a.child c).path →
    ∃ ix', build (some q) ix c = .ok (ix', (a.child c).queue) ∧ Adds ix ix' (a.child c)

lemma buildChildren_of_buildable {a : Site V} {specs : List (Spec V)}
    (hbuild : ∀ c ∈ specs, Buildable a c) (hundotted : ∀ c ∈ specs, '.' ∉ c.name.toList)
    (hnodup : (specs.map Spec.name).Nodup) (q : Queue V) (g : Resource V) (ix : Index V)
    (hq : q.path = a.path) (hself : ix.lookup a.path = some q)
    (hnew : ∀ c ∈ specs, c.name ∉ q.children)
    (hwithin : ∀ c ∈ specs, maxWithinParent c.max q.max = true)
    (hvacant : ∀ c ∈ specs, Vacant ix (a.child c).path) :
    ∃ ix', buildChildren q g ix specs = .ok (ix', withChildren a q specs,
        specs.foldl (fun g c => add g c.guaranteed) g) ∧ AddsChildren ix ix' a q specs := by
  induction specs generalizing q g ix with
  | nil => exact ⟨ix, rfl, hself, by simp, fun _ _ _ => rfl⟩
  | cons c rest ih =>
    rw [List.map_cons, List.nodup_cons] at hnodup
    obtain ⟨hcnew, hrestnew⟩ := List.forall_mem_cons.mp hnew
    obtain ⟨hcwithin, hrestwithin⟩ := List.forall_mem_cons.mp hwithin
    obtain ⟨hcvacant, hrestvacant⟩ := List.forall_mem_cons.mp hvacant
    obtain ⟨hcdot, hrestdot⟩ := List.forall_mem_cons.mp hundotted
    obtain ⟨hcbuild, hrestbuild⟩ := List.forall_mem_cons.mp hbuild
    have hne : ∀ c' ∈ rest, c.name ≠ c'.name := fun c' hc' he =>
      hnodup.1 (he ▸ List.mem_map_of_mem hc')
    obtain ⟨ix₁, hb, hadds⟩ := hcbuild q ix hq hcvacant
    set q' : Queue V := { q with children := q.children.insert c.name (a.child c).path } with hq'
    obtain ⟨ix', hrest, hres⟩ := ih hrestbuild hrestdot hnodup.2 q' (add g c.guaranteed)
      (ix₁.insert a.path q') hq (Finmap.lookup_insert _)
      (fun c' hc' => by
        simpa [hq', Finmap.mem_insert, (hne c' hc').symm] using hrestnew c' hc')
      hrestwithin
      fun c' hc' => vacant_step hcdot (hrestdot c' hc') (hne c' hc') hadds (hrestvacant c' hc')
    refine ⟨ix', ?_, hres.self, ?_, ?_⟩
    · have hstep : buildChildren q g ix (c :: rest) =
          buildChildren q' (add g c.guaranteed) (ix₁.insert a.path q') rest := by
        rw [← hq]
        simp only [buildChildren, hcnew, hcwithin, if_false, Bool.true_eq_false, hb]
        rfl
      rw [hstep, hrest]
      rfl
    · refine List.forall_mem_cons.mpr ⟨fun p x hp => ?_, hres.inside⟩
      have hself' : p ≠ a.path := fun he => a.not_segments_child c (he ▸ hp)
      rw [hres.outside p hself' fun c' hc' hin =>
          hne c' hc' (Site.child_eq_of_segments hcdot (hrestdot c' hc') hp hin),
        Finmap.lookup_insert_of_ne _ hself']
      exact hadds.inside p x hp
    · intro p hp hout
      obtain ⟨hcout, hrestout⟩ := List.forall_mem_cons.mp hout
      rw [hres.outside p hp hrestout, Finmap.lookup_insert_of_ne _ hp, hadds.outside p hcout]

lemma build_eq_ok {parent : Option (Queue V)} {ix ix' : Index V} {spec : Spec V} {q : Queue V}
    {g : Resource V} (hchecked : Checked spec) (hnew : (newQueue parent spec).path ∉ ix)
    (hloop : buildChildren (newQueue parent spec) ∅
      (ix.insert (newQueue parent spec).path (newQueue parent spec)) spec.children =
        .ok (ix', q, g)) (hcovered : guaranteedCovers q.guaranteed g = true) :
    build parent ix spec = .ok (ix', q) := by
  obtain ⟨hne, hdot, hguar, hmax, -, -, -⟩ := hchecked
  obtain ⟨name, gua, mx, sas, df, ma, li, su, ad, fe, children⟩ := spec
  dsimp only at hne hdot hguar hmax hloop
  simp only [build, hne, hdot, hguar, hmax, hnew, if_false, Bool.true_eq_false, hloop, hcovered,
    if_true]

omit [CommRing V] [LinearOrder V] in
lemma below_queue_iff {a c : Site V} (hc : c ∈ a.children)
    (huniq : ∀ c' ∈ a.children, ∀ p, segments c.path <+: segments p →
      segments c'.path <+: segments p → c' = c) {p : String} (hp : segments c.path <+: segments p)
    (hne : p ≠ a.path) (x : Queue V) :
    (∃ b, a.Below b ∧ b.path = p ∧ x = b.queue) ↔ ∃ b, c.Below b ∧ b.path = p ∧ x = b.queue := by
  constructor
  · rintro ⟨b, hb, rfl, rfl⟩
    rcases Site.below_iff.mp hb with rfl | ⟨c', hc', hcb⟩
    · exact absurd rfl hne
    · rw [huniq c' hc' _ hp hcb.segments] at hcb
      exact ⟨b, hcb, rfl, rfl⟩
  · rintro ⟨b, hb, hpath, hx⟩
    exact ⟨b, .head hc hb, hpath, hx⟩

omit [CommRing V] [LinearOrder V] in
lemma withChildren_newQueue (parent : Option (Queue V)) (spec : Spec V) :
    withChildren (siteOf parent spec) (newQueue parent spec) spec.children =
      (siteOf parent spec).queue := by
  have hchildren : spec.children.foldl
      (fun m c => m.insert c.name ((siteOf parent spec).path ++ "." ++ c.name))
      (newQueue parent spec).children = (siteOf parent spec).queue.children := by
    apply Finmap.ext_lookup
    intro k
    rw [lookup_foldl_insert (fun n => (siteOf parent spec).path ++ "." ++ n)]
    simp only [Site.queue, lookup_tabulate, List.mem_toFinset, newQueue, Finmap.lookup_empty]
    rfl
  simp only [withChildren, hchildren]
  rfl

omit [CommRing V] [LinearOrder V] in
lemma AddsChildren.adds {a : Site V} {q : Queue V} {ix ix' : Index V}
    (h : AddsChildren (ix.insert a.path q) ix' a q a.spec.children)
    (hqueue : withChildren a q a.spec.children = a.queue)
    (hdots : ∀ c ∈ a.spec.children, '.' ∉ c.name.toList)
    (hdistinct : (a.spec.children.map Spec.name).Nodup) (hvacant : Vacant ix a.path) :
    Adds ix ix' a := by
  have hsame : ∀ c ∈ a.spec.children, ∀ c' ∈ a.children, ∀ p,
      segments (a.child c).path <+: segments p → segments c'.path <+: segments p →
      c' = a.child c := by
    intro c hc c' hc' p hin hin'
    obtain ⟨d, hd, rfl⟩ := List.mem_map.mp hc'
    have hname := Site.child_eq_of_segments (hdots c hc) (hdots d hd) hin hin'
    rw [List.inj_on_of_nodup_map hdistinct hd hc hname.symm]
  constructor
  · intro p x hp
    by_cases hself : p = a.path
    · subst hself
      rw [h.self, hqueue]
      constructor
      · rintro ⟨⟩
        exact ⟨a, a.below_self, rfl, rfl⟩
      · rintro ⟨b, hb, hpath, rfl⟩
        rcases Site.below_iff.mp hb with rfl | ⟨c', hc', hcb⟩
        · rfl
        · obtain ⟨c, -, rfl⟩ := List.mem_map.mp hc'
          exact absurd (hpath ▸ hcb.segments) (a.not_segments_child c)
    by_cases hin : ∃ c ∈ a.spec.children, segments (a.child c).path <+: segments p
    · obtain ⟨c, hc, hcp⟩ := hin
      rw [h.inside c hc p x hcp, below_queue_iff (List.mem_map_of_mem hc) (hsame c hc) hcp hself]
    · push Not at hin
      rw [h.outside p hself hin, Finmap.lookup_insert_of_ne _ hself,
        Finmap.lookup_eq_none.mpr fun hmem => hvacant p hmem hp]
      simp only [reduceCtorEq, false_iff, not_exists]
      rintro b ⟨hb, rfl, -⟩
      rcases Site.below_iff.mp hb with rfl | ⟨c', hc', hcb⟩
      · exact hself rfl
      · obtain ⟨c, hc, rfl⟩ := List.mem_map.mp hc'
        exact hin c hc hcb.segments
  · intro p hp
    have hself : p ≠ a.path := fun he => hp (he ▸ List.prefix_rfl)
    rw [h.outside p hself fun c _ hin => hp ((a.segments_prefix_child c).trans hin),
      Finmap.lookup_insert_of_ne _ hself]

/-- A specification that passes all checks is built wherever there is room for it, and the
index then holds its queues. -/
theorem build_of_sound (spec : Spec V) : ∀ (parent : Option (Queue V)) (ix : Index V),
    Sound (siteOf parent spec) → Vacant ix (siteOf parent spec).path →
    ∃ ix', build parent ix spec = .ok (ix', (siteOf parent spec).queue) ∧
      Adds ix ix' (siteOf parent spec) := by
  induction spec using specInduction with
  | h spec ih =>
    intro parent ix hsound hvacant
    set a := siteOf parent spec with ha
    obtain ⟨hchecked, hbelow⟩ := (sound_iff a).mp hsound
    have hchild : ∀ c ∈ spec.children, Sound (a.child c) := fun c hc =>
      hbelow _ (List.mem_map_of_mem hc)
    have hdots : ∀ c ∈ spec.children, '.' ∉ c.name.toList := fun c hc =>
      (hchild c hc _ (Site.below_self _)).undotted
    have hbuild : ∀ c ∈ spec.children, Buildable a c := by
      intro c hc q ix hq hv
      have hsite : siteOf (some q) c = a.child c := by
        simp only [siteOf, Site.child, childPath, Option.map_some, hq]
      rw [← hsite] at hv ⊢
      exact ih c hc (some q) ix (hsite ▸ hchild c hc) hv
    have hroom : ∀ c ∈ spec.children,
        Vacant (ix.insert a.path (newQueue parent spec)) (a.child c).path := by
      intro c _ p hp hin
      rcases Finmap.mem_insert.mp hp with rfl | hp
      · exact a.not_segments_child c hin
      · exact hvacant p hp ((a.segments_prefix_child c).trans hin)
    have hnew : a.path ∉ ix := fun hmem => hvacant _ hmem List.prefix_rfl
    have hqueue : withChildren a (newQueue parent spec) spec.children = a.queue :=
      withChildren_newQueue parent spec
    obtain ⟨ix', hloop, hadds⟩ := buildChildren_of_buildable hbuild hdots hchecked.distinct
      (newQueue parent spec) ∅ (ix.insert a.path (newQueue parent spec)) rfl
      (Finmap.lookup_insert _) (fun c _ => Finmap.notMem_empty) hchecked.within hroom
    refine ⟨ix', ?_, hadds.adds hqueue hdots hchecked.distinct hvacant⟩
    rw [← hqueue]
    exact build_eq_ok hchecked hnew hloop (by rw [hqueue]; exact hchecked.covered)

end Checks

end AdScheduler.SpecTree
