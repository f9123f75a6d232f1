import AdScheduler.QueueTree
import AdScheduler.RollUp

/-! The shape of an assembled tree: parent links and children maps agree, every
queue sits in the index under its own path, and names and vectors passed the
checks of `build`. -/
namespace AdScheduler.TreeShape
open KeyedMap Resources QueueTree

variable {V : Type*} [CommRing V] [LinearOrder V]

/-- What holds of the index at every moment of the assembly. -/
structure Shape (ix : Index V) : Prop where
  path_eq : ∀ {p q}, ix.lookup p = some q → q.path = p
  parent_mem : ∀ {p q pp}, ix.lookup p = some q → q.parent = some pp →
    pp ∈ ix ∧ p = pp ++ "." ++ q.name
  children_mem : ∀ {p q c cp}, ix.lookup p = some q → q.children.lookup c = some cp →
    ∃ cq, ix.lookup cp = some cq ∧ cq.parent = some p ∧ cq.name = c
  root_only : ∀ {p q}, ix.lookup p = some q → q.parent = none → p = rootName
  name_ok : ∀ {p q}, ix.lookup p = some q → q.name ≠ "" ∧ '.' ∉ q.name.toList
  max_nonneg : ∀ {p q}, ix.lookup p = some q → ∀ d, 0 ≤ get q.max d
  guaranteed_nonneg : ∀ {p q}, ix.lookup p = some q → ∀ d, 0 ≤ get q.guaranteed d

/-- The queue at `p` is registered among the children of its parent. -/
def Linked (ix : Index V) (p : String) : Prop :=
  ∀ q pp, ix.lookup p = some q → q.parent = some pp →
    ∃ pq, ix.lookup pp = some pq ∧ pq.children.lookup q.name = some p

/-- A finished index. -/
structure WellFormed (ix : Index V) : Prop extends Shape ix where
  linked : ∀ p, Linked ix p

lemma nonneg_of_nonNegative {r : Resource V} (h : nonNegative r = true) (d : String) :
    0 ≤ get r d := by
  rw [nonNegative, decide_eq_true_eq] at h
  by_cases hd : d ∈ r.keys
  · exact not_lt.mp (h d hd)
  · rw [get_of_notMem hd]

lemma build_ok {parent : Option (Queue V)} {ix : Index V} {spec : Spec V} {r : Index V × Queue V}
    (h : build parent ix spec = .ok r) :
    (spec.name ≠ "" ∧ '.' ∉ spec.name.toList) ∧
    (nonNegative spec.guaranteed = true ∧ nonNegative spec.max = true) ∧
    (newQueue parent spec).path ∉ ix ∧
    ∃ g, buildChildren (newQueue parent spec) ∅
        (ix.insert (newQueue parent spec).path (newQueue parent spec)) spec.children =
          .ok (r.1, r.2, g) ∧ guaranteedCovers r.2.guaranteed g = true := by
  obtain ⟨name, gua, mx, sas, df, ma, li, su, ad, fe, children⟩ := spec
  simp only [build] at h
  split_ifs at h with h1 h2 h3 h4 h5
  refine ⟨⟨h1, h2⟩, ⟨by simpa using h3, by simpa using h4⟩, h5, ?_⟩
  split at h
  · cases h
  · rename_i ix' q' g hc
    split_ifs at h with h6
    cases h
    exact ⟨g, hc, h6⟩

lemma buildChildren_cons_ok {q : Queue V} {g : Resource V} {ix : Index V} {cs : Spec V}
    {rest : List (Spec V)} {r : Index V × Queue V × Resource V}
    (h : buildChildren q g ix (cs :: rest) = .ok r) :
    cs.name ∉ q.children ∧ maxWithinParent cs.max q.max = true ∧
    ∃ ix' child, build (some q) ix cs = .ok (ix', child) ∧
      buildChildren { q with children := q.children.insert cs.name child.path }
        (add g child.guaranteed)
        (ix'.insert q.path { q with children := q.children.insert cs.name child.path }) rest =
          .ok r := by
  simp only [buildChildren] at h
  split_ifs at h with h1 h2
  refine ⟨h1, by simpa using h2, ?_⟩
  split at h
  · cases h
  · rename_i ix' child hb
    exact ⟨ix', child, hb, h⟩

lemma shape_insert_new {parent : Option (Queue V)} {ix : Index V} {spec : Spec V}
    (hs : Shape ix) (hp : ∀ pq, parent = some pq → ix.lookup pq.path = some pq)
    (hroot : parent = none → spec.name = rootName)
    (hname : spec.name ≠ "" ∧ '.' ∉ spec.name.toList)
    (hvec : nonNegative spec.guaranteed = true ∧ nonNegative spec.max = true)
    (hfresh : (newQueue parent spec).path ∉ ix) :
    Shape (ix.insert (newQueue parent spec).path (newQueue parent spec)) := by
  constructor
  · intro p q h
    rcases lookup_insert_cases h with ⟨rfl, rfl⟩ | ⟨_, h⟩
    · rfl
    · exact hs.path_eq h
  · intro p q pp h hpar
    rcases lookup_insert_cases h with ⟨rfl, rfl⟩ | ⟨_, h⟩
    · cases parent with
      | none => simp [newQueue] at hpar
      | some pq =>
        simp only [newQueue, Option.map_some, Option.some.injEq] at hpar
        subst hpar
        refine ⟨?_, rfl⟩
        rw [Finmap.mem_insert]
        exact .inr (Finmap.mem_of_lookup_eq_some (hp pq rfl))
    · obtain ⟨hm, he⟩ := hs.parent_mem h hpar
      exact ⟨Finmap.mem_insert.mpr (.inr hm), he⟩
  · intro p q c cp h hc
    rcases lookup_insert_cases h with ⟨rfl, rfl⟩ | ⟨_, h⟩
    · simp [newQueue] at hc
    · obtain ⟨cq, hcq, hrest⟩ := hs.children_mem h hc
      refine ⟨cq, ?_, hrest⟩
      rw [Finmap.lookup_insert_of_ne _ ?_]
      · exact hcq
      · rintro rfl
        exact hfresh (Finmap.mem_of_lookup_eq_some hcq)
  · intro p q h hpar
    rcases lookup_insert_cases h with ⟨rfl, rfl⟩ | ⟨_, h⟩
    · cases parent with
      | none => exact hroot rfl
      | some pq => simp [newQueue] at hpar
    · exact hs.root_only h hpar
  · intro p q h
    rcases lookup_insert_cases h with ⟨rfl, rfl⟩ | ⟨_, h⟩
    · exact hname
    · exact hs.name_ok h
  · intro p q h
    rcases lookup_insert_cases h with ⟨rfl, rfl⟩ | ⟨_, h⟩
    · exact nonneg_of_nonNegative hvec.2
    · exact hs.max_nonneg h
  · intro p q h
    rcases lookup_insert_cases h with ⟨rfl, rfl⟩ | ⟨_, h⟩
    · exact nonneg_of_nonNegative hvec.1
    · exact hs.guaranteed_nonneg h

def attach (ix : Index V) (q : Queue V) (c cp : String) : Index V :=
  ix.insert q.path { q with children := q.children.insert c cp }

omit [CommRing V] [LinearOrder V] in
lemma mem_attach {ix : Index V} {q : Queue V} {c cp p : String} (h : p ∈ ix) :
    p ∈ attach ix q c cp := Finmap.mem_insert.mpr (.inr h)

lemma shape_attach {ix : Index V} {q child : Queue V} (hs : Shape ix)
    (hq : ix.lookup q.path = some q)
    (hchild : ix.lookup child.path = some child) (hpar : child.parent = some q.path) :
    Shape (attach ix q child.name child.path) := by
  have hold : ∀ {p x}, (attach ix q child.name child.path).lookup p = some x →
      ∃ y, ix.lookup p = some y ∧ x.path = y.path ∧ x.parent = y.parent ∧ x.name = y.name ∧
        x.max = y.max ∧ x.guaranteed = y.guaranteed := by
    intro p x h
    rcases lookup_insert_cases h with ⟨rfl, rfl⟩ | ⟨_, h⟩
    · exact ⟨q, hq, rfl, rfl, rfl, rfl, rfl⟩
    · exact ⟨x, h, rfl, rfl, rfl, rfl, rfl⟩
  have hkeep : ∀ {p x}, ix.lookup p = some x →
      ∃ y, (attach ix q child.name child.path).lookup p = some y ∧
        y.parent = x.parent ∧ y.name = x.name := by
    intro p x h
    by_cases he : p = q.path
    · subst he
      rw [hq] at h
      cases h
      exact ⟨_, Finmap.lookup_insert _, rfl, rfl⟩
    · exact ⟨x, by rw [attach, Finmap.lookup_insert_of_ne _ he, h], rfl, rfl⟩
  constructor
  · intro p x h
    obtain ⟨y, hy, hx, _⟩ := hold h
    exact hx.trans (hs.path_eq hy)
  · intro p x pp h hp
    obtain ⟨y, hy, _, hx, hn, _⟩ := hold h
    rw [hx] at hp
    rw [hn]
    obtain ⟨hm, he⟩ := hs.parent_mem hy hp
    exact ⟨mem_attach hm, he⟩
  · intro p x c cp h hc
    have hfound : ∃ cq, ix.lookup cp = some cq ∧ cq.parent = some p ∧ cq.name = c := by
      rcases lookup_insert_cases h with ⟨rfl, rfl⟩ | ⟨_, h⟩
      · rcases lookup_insert_cases hc with ⟨rfl, rfl⟩ | ⟨_, hc⟩
        · exact ⟨child, hchild, hpar, rfl⟩
        · exact hs.children_mem hq hc
      · exact hs.children_mem h hc
    obtain ⟨cq, hcq, hcp, hcn⟩ := hfound
    obtain ⟨y, hy, hyp, hyn⟩ := hkeep hcq
    exact ⟨y, hy, hyp.trans hcp, hyn.trans hcn⟩
  · intro p x h hp
    obtain ⟨y, hy, _, hx, _⟩ := hold h
    exact hs.root_only hy (hx.symm.trans hp)
  · intro p x h
    obtain ⟨y, hy, _, _, hx, _⟩ := hold h
    rw [hx]
    exact hs.name_ok hy
  · intro p x h
    obtain ⟨y, hy, _, _, _, hx, _⟩ := hold h
    rw [hx]
    exact hs.max_nonneg hy
  · intro p x h
    obtain ⟨y, hy, _, _, _, _, hx⟩ := hold h
    rw [hx]
    exact hs.guaranteed_nonneg hy

omit [CommRing V] [LinearOrder V] in
lemma linked_attach {ix : Index V} {q : Queue V} {c cp p : String}
    (hq : ix.lookup q.path = some q) (hc : c ∉ q.children) (h : Linked ix p) :
    Linked (attach ix q c cp) p := by
  intro x pp hx hpar
  have hmono : ∀ {n pn}, q.children.lookup n = some pn →
      (q.children.insert c cp).lookup n = some pn := by
    intro n pn hn
    rw [Finmap.lookup_insert_of_ne _ ?_]
    · exact hn
    · rintro rfl
      exact hc (Finmap.mem_of_lookup_eq_some hn)
  have hlink : ∃ pq, ix.lookup pp = some pq ∧ pq.children.lookup x.name = some p := by
    rcases lookup_insert_cases hx with ⟨rfl, rfl⟩ | ⟨_, hx⟩
    · exact h q pp hq hpar
    · exact h x pp hx hpar
  obtain ⟨pq, hpq, hreg⟩ := hlink
  by_cases he : pp = q.path
  · subst he
    rw [hq] at hpq
    cases hpq
    exact ⟨_, Finmap.lookup_insert _, hmono hreg⟩
  · exact ⟨pq, by rw [attach, Finmap.lookup_insert_of_ne _ he, hpq], hreg⟩

omit [CommRing V] [LinearOrder V] in
lemma linked_insert_new {parent : Option (Queue V)} {ix : Index V} {spec : Spec V} {p : String}
    (hfresh : (newQueue parent spec).path ∉ ix) (hp : p ≠ (newQueue parent spec).path)
    (h : Linked ix p) :
    Linked (ix.insert (newQueue parent spec).path (newQueue parent spec)) p := by
  intro x pp hx hpar
  rw [Finmap.lookup_insert_of_ne _ hp] at hx
  obtain ⟨pq, hpq, hreg⟩ := h x pp hx hpar
  refine ⟨pq, ?_, hreg⟩
  rw [Finmap.lookup_insert_of_ne _ ?_]
  · exact hpq
  · rintro rfl
    exact hfresh (Finmap.mem_of_lookup_eq_some hpq)

/-- The result of `build`: the old index is untouched, and of the new queues only
the topmost one still has to be registered with its parent. -/
structure Built (parent : Option (Queue V)) (ix : Index V) (spec : Spec V)
    (r : Index V × Queue V) : Prop where
  shape : Shape r.1
  self : r.1.lookup r.2.path = some r.2
  fresh : r.2.path ∉ ix
  name_eq : r.2.name = spec.name
  parent_eq : r.2.parent = parent.map Queue.path
  frame : ∀ p x, ix.lookup p = some x → r.1.lookup p = some x
  linked : ∀ p, p ≠ r.2.path → (p ∈ ix → Linked ix p) → Linked r.1 p

/-- The result of the children loop: only the entry of `q` grew. -/
structure Grown (q : Queue V) (ix : Index V) (r : Index V × Queue V × Resource V) : Prop where
  shape : Shape r.1
  self : r.1.lookup q.path = some r.2.1
  same : r.2.1 = { q with children := r.2.1.children }
  frame : ∀ p, p ≠ q.path → ∀ x, ix.lookup p = some x → r.1.lookup p = some x
  linked : ∀ p, (p ∈ ix → Linked ix p) → Linked r.1 p

lemma linked_round {q : Queue V} {ix ix' : Index V} {cs : Spec V} {child : Queue V} {p : String}
    (hq : ix.lookup q.path = some q) (hne : child.path ≠ q.path) (hc : cs.name ∉ q.children)
    (hb : Built (some q) ix cs (ix', child)) (h : p ∈ ix → Linked ix p) :
    Linked (attach ix' q cs.name child.path) p := by
  by_cases he : p = child.path
  · subst he
    intro y pp hy hpar
    rcases lookup_insert_cases hy with ⟨he, _⟩ | ⟨_, hy⟩
    · exact absurd he hne
    · rw [hb.self] at hy
      cases hy
      rw [hb.parent_eq] at hpar
      cases hpar
      refine ⟨_, Finmap.lookup_insert _, ?_⟩
      rw [hb.name_eq]
      exact Finmap.lookup_insert _
  · exact linked_attach (hb.frame _ _ hq) hc (hb.linked p he h)

mutual

theorem build_built : ∀ (spec : Spec V) {parent : Option (Queue V)} {ix : Index V}
    {r : Index V × Queue V}, build parent ix spec = .ok r → Shape ix →
    (∀ pq, parent = some pq → ix.lookup pq.path = some pq) →
    (parent = none → spec.name = rootName) → Built parent ix spec r
  | ⟨name, gua, mx, sas, df, ma, li, su, ad, fe, children⟩, parent, ix, r, h, hs, hp, hroot => by
    obtain ⟨hname, hvec, hfresh, g, hc, _⟩ := build_ok h
    have hsh := shape_insert_new hs hp hroot hname hvec hfresh
    have hg := buildChildren_grown children hc hsh (Finmap.lookup_insert _)
    have hpath : r.2.path = _ := congrArg Queue.path hg.same
    refine ⟨hg.shape, ?_, ?_, congrArg Queue.name hg.same, congrArg Queue.parent hg.same, ?_, ?_⟩
    · rw [hpath]; exact hg.self
    · rw [hpath]; exact hfresh
    · intro p x hx
      have hne : p ≠ (newQueue parent ⟨name, gua, mx, sas, df, ma, li, su, ad, fe,
          children⟩).path := by
        rintro rfl
        exact hfresh (Finmap.mem_of_lookup_eq_some hx)
      apply hg.frame p hne x
      rw [Finmap.lookup_insert_of_ne _ hne]
      exact hx
    · intro p hne hl
      rw [hpath] at hne
      apply hg.linked p
      intro hm
      exact linked_insert_new hfresh hne (hl ((Finmap.mem_insert.mp hm).resolve_left hne))

theorem buildChildren_grown : ∀ (specs : List (Spec V)) {q : Queue V} {g : Resource V}
    {ix : Index V} {r : Index V × Queue V × Resource V},
    buildChildren q g ix specs = .ok r → Shape ix → ix.lookup q.path = some q → Grown q ix r
  | [], q, g, ix, r, h, hs, hq => by
    simp only [buildChildren, Except.ok.injEq] at h
    subst h
    exact ⟨hs, hq, rfl, fun _ _ _ hx => hx, fun p hl x pp hx hpar =>
      hl (Finmap.mem_of_lookup_eq_some hx) x pp hx hpar⟩
  | cs :: rest, q, g, ix, r, h, hs, hq => by
    obtain ⟨hc, _, ix', child, hb, hrest⟩ := buildChildren_cons_ok h
    have hb := build_built cs hb hs (by rintro pq ⟨⟩; exact hq) (by intro he; cases he)
    have hne : child.path ≠ q.path := by
      intro he
      exact hb.fresh (by rw [he]; exact Finmap.mem_of_lookup_eq_some hq)
    have hsh : Shape (attach ix' q cs.name child.path) := by
      have hsa := shape_attach hb.shape (hb.frame _ _ hq) hb.self hb.parent_eq
      rwa [hb.name_eq] at hsa
    have hg := buildChildren_grown rest hrest hsh (Finmap.lookup_insert _)
    refine ⟨hg.shape, hg.self, by rw [hg.same], ?_, ?_⟩
    · intro p hp x hx
      apply hg.frame p hp x
      rw [Finmap.lookup_insert_of_ne _ hp]
      exact hb.frame p x hx
    · intro p hl
      exact hg.linked p fun _ => linked_round hq hne hc hb hl

end

lemma shape_empty : Shape (∅ : Index V) := by
  constructor <;> (intros; simp_all)

/-- An index built for the root specification is well formed. -/
theorem build_wellFormed {spec : Spec V} {r : Index V × Queue V}
    (h : build none ∅ { spec with name := rootName } = .ok r) : WellFormed r.1 := by
  have hb := build_built _ h shape_empty (by intro pq he; cases he) (fun _ => rfl)
  refine ⟨hb.shape, fun p => ?_⟩
  by_cases hp : p = r.2.path
  · -- the root has no parent to be registered with
    subst hp
    intro q pp hq hpar
    rw [hb.self] at hq
    cases hq
    rw [hb.parent_eq] at hpar
    cases hpar
  · exact hb.linked p hp fun hm => absurd hm Finmap.notMem_empty

/-- The queues met by following parent links from a pointer, with a bound on the
number of links. -/
def walk (ix : Index V) : ℕ → Option String → List (Queue V)
  | 0, _ => []
  | _ + 1, none => []
  | k + 1, some p =>
    match ix.lookup p with
    | none => []
    | some q => q :: walk ix k q.parent

/-- `for n := q; n != nil; n = n.parent`. Every link shortens the path, so the
length of the path bounds the number of links. -/
def pathUp (ix : Index V) (p : String) : List (Queue V) := walk ix (p.length + 1) (some p)

lemma parent_length {ix : Index V} (hs : Shape ix) {p pp : String} {q : Queue V}
    (hq : ix.lookup p = some q) (hp : q.parent = some pp) : pp.length < p.length := by
  have he := (hs.parent_mem hq hp).2
  have hdot : (".".length : ℕ) = 1 := by decide
  rw [he, String.length_append, String.length_append, hdot]
  omega

lemma walk_stable {ix : Index V} (hs : Shape ix) {k : ℕ} {p : String} (hk : p.length < k) :
    walk ix k (some p) = pathUp ix p := by
  induction hn : p.length using Nat.strong_induction_on generalizing p k with
  | _ n ih =>
    obtain ⟨k, rfl⟩ : ∃ j, k = j + 1 := ⟨k - 1, by omega⟩
    rw [pathUp, walk, walk]
    cases hq : ix.lookup p with
    | none => rfl
    | some q =>
      simp only [List.cons.injEq, true_and]
      cases hp : q.parent with
      | none => cases k <;> cases p.length <;> rfl
      | some pp =>
        have hlt := parent_length hs hq hp
        rw [ih _ (by omega) (by omega) rfl, ih _ (by omega) (by omega) rfl]

omit [CommRing V] [LinearOrder V] in
lemma pathUp_unknown {ix : Index V} {p : String} (h : ix.lookup p = none) : pathUp ix p = [] := by
  simp [pathUp, walk, h]

omit [CommRing V] [LinearOrder V] in
lemma pathUp_root {ix : Index V} {p : String} {q : Queue V} (hq : ix.lookup p = some q)
    (hp : q.parent = none) : pathUp ix p = [q] := by
  simp only [pathUp, walk, hq, hp]
  cases p.length <;> rfl

lemma pathUp_child {ix : Index V} (hs : Shape ix) {p pp : String} {q : Queue V}
    (hq : ix.lookup p = some q) (hp : q.parent = some pp) :
    pathUp ix p = q :: pathUp ix pp := by
  have hlt := parent_length hs hq hp
  simp only [pathUp, walk, hq, hp]
  rw [walk_stable hs hlt]
  rfl

/-- Induction along the parent links: unknown paths, the root, and the step from a parent
to its child. -/
lemma Shape.induction {ix : Index V} (hs : Shape ix) {P : String → Prop}
    (unknown : ∀ p, ix.lookup p = none → P p)
    (root : ∀ p q, ix.lookup p = some q → q.parent = none → P p)
    (child : ∀ p q pp, ix.lookup p = some q → q.parent = some pp → P pp → P p) (p : String) :
    P p := by
  induction hn : p.length using Nat.strong_induction_on generalizing p with
  | _ k ih =>
    cases hq : ix.lookup p with
    | none => exact unknown p hq
    | some q =>
      cases hp : q.parent with
      | none => exact root p q hq hp
      | some pp =>
        have hlt := parent_length hs hq hp
        exact child p q pp hq hp (ih _ (by omega) pp rfl)

omit [CommRing V] [LinearOrder V] in
lemma mem_pathUp_self {ix : Index V} {p : String} {q : Queue V} (hq : ix.lookup p = some q) :
    q ∈ pathUp ix p := by
  rw [pathUp, walk, hq]
  exact List.mem_cons_self

lemma lookup_of_mem_pathUp {ix : Index V} (hs : Shape ix) {p : String} {n : Queue V}
    (h : n ∈ pathUp ix p) : ix.lookup n.path = some n := by
  induction p using hs.induction with
  | unknown p hq => simp [pathUp_unknown hq] at h
  | root p q hq hp =>
    simp only [pathUp_root hq hp, List.mem_singleton] at h
    rw [h, hs.path_eq hq, hq]
  | child p q pp hq hp ih =>
    simp only [pathUp_child hs hq hp, List.mem_cons] at h
    rcases h with rfl | h
    · rw [hs.path_eq hq, hq]
    · exact ih h

def childPaths (ix : Index V) (p : String) : Finset String :=
  (ix.lookup p).elim ∅ fun q => q.children.keys.image fun c => (q.children.lookup c).getD ""

omit [CommRing V] [LinearOrder V] in
lemma mem_childPaths {ix : Index V} {p cp : String} :
    cp ∈ childPaths ix p ↔ ∃ q c, ix.lookup p = some q ∧ q.children.lookup c = some cp := by
  constructor
  · intro h
    cases hq : ix.lookup p with
    | none => simp [childPaths, hq] at h
    | some q =>
      simp only [childPaths, hq, Option.elim_some, Finset.mem_image, Finmap.mem_keys] at h
      obtain ⟨c, hc, he⟩ := h
      obtain ⟨x, hx⟩ := Finmap.mem_iff.mp hc
      rw [hx] at he
      exact ⟨q, c, rfl, hx.trans (congrArg some he)⟩
  · rintro ⟨q, c, hq, hc⟩
    simp only [childPaths, hq, Option.elim_some, Finset.mem_image, Finmap.mem_keys]
    exact ⟨c, Finmap.mem_of_lookup_eq_some hc, by rw [hc]; rfl⟩

lemma mem_childPaths_iff_parent {ix : Index V} (wf : WellFormed ix) {p cp : String} :
    cp ∈ childPaths ix p ↔ ∃ cq, ix.lookup cp = some cq ∧ cq.parent = some p := by
  rw [mem_childPaths]
  constructor
  · rintro ⟨q, c, hq, hc⟩
    obtain ⟨cq, hcq, hpar, _⟩ := wf.children_mem hq hc
    exact ⟨cq, hcq, hpar⟩
  · rintro ⟨cq, hcq, hpar⟩
    obtain ⟨pq, hpq, hreg⟩ := wf.linked cp cq p hcq hpar
    exact ⟨pq, cq.name, hpq, hreg⟩

omit [CommRing V] [LinearOrder V] in
lemma childPaths_eq_empty_iff {ix : Index V} {p : String} {q : Queue V}
    (hq : ix.lookup p = some q) : childPaths ix p = ∅ ↔ q.isLeaf = true := by
  rw [childPaths, hq, Option.elim_some, Finset.image_eq_empty, Queue.isLeaf, decide_eq_true_eq]
  constructor
  · intro h
    apply Finmap.ext_lookup
    intro c
    rw [Finmap.lookup_empty, Finmap.lookup_eq_none, ← Finmap.mem_keys, h]
    exact Finset.notMem_empty c
  · intro h
    rw [h, Finmap.keys_empty]

lemma sum_childPaths {M : Type*} [AddCommMonoid M] {ix : Index V} (wf : WellFormed ix)
    {p : String} {q : Queue V} (hq : ix.lookup p = some q) (f : String → M) :
    ∑ cp ∈ childPaths ix p, f cp = total q.children fun _ cp => f cp := by
  have hval : ∀ c ∈ q.children.keys, ∃ cp, q.children.lookup c = some cp := fun c hc =>
    Finmap.mem_iff.mp (Finmap.mem_keys.mp hc)
  rw [childPaths, hq, Option.elim_some, Finset.sum_image]
  · apply Finset.sum_congr rfl
    intro c hc
    obtain ⟨cp, hcp⟩ := hval c hc
    rw [hcp]
    rfl
  · intro c hc c' hc' he
    obtain ⟨cp, hcp⟩ := hval c hc
    obtain ⟨cp', hcp'⟩ := hval c' hc'
    simp only [hcp, hcp', Option.getD_some] at he
    subst he
    obtain ⟨x, hx, _, hname⟩ := wf.children_mem hq hcp
    obtain ⟨y, hy, _, hname'⟩ := wf.children_mem hq hcp'
    rw [hx] at hy
    rw [← hname, ← hname', Option.some.inj hy]

def hierarchy {ix : Index V} (wf : WellFormed ix) : RollUp.Hierarchy String where
  up p := (pathUp ix p).map Queue.path
  children := childPaths ix
  up_cases p := by
    cases hq : ix.lookup p with
    | none => exact .inl (by rw [pathUp_unknown hq]; rfl)
    | some q =>
      cases hp : q.parent with
      | none =>
        refine .inr (.inl ?_)
        rw [pathUp_root hq hp, List.map_singleton, wf.path_eq hq]
      | some pp => exact .inr (.inr ⟨pp, (mem_childPaths_iff_parent wf).mpr ⟨q, hq, hp⟩⟩)
  up_child := by
    intro p cp h
    obtain ⟨cq, hcq, hpar⟩ := (mem_childPaths_iff_parent wf).mp h
    rw [pathUp_child wf.toShape hcq hpar, List.map_cons, wf.path_eq hcq]
  parent_known := by
    intro p cp h
    obtain ⟨cq, hcq, hpar⟩ := (mem_childPaths_iff_parent wf).mp h
    obtain ⟨q, hq⟩ := Finmap.mem_iff.mp (wf.parent_mem hcq hpar).1
    exact List.mem_map.mpr ⟨q, mem_pathUp_self hq, wf.path_eq hq⟩

end AdScheduler.TreeShape
