import AdScheduler.Conservation
import AdScheduler.PlacementRules

/-! Guarantees of all leaves taken together. `build` compares the guarantee of a queue with
those of its direct children, in the dimensions that the queue declares. -/
namespace AdScheduler.JointGuarantees
open KeyedMap Resources QueueTree TreeShape Manager Conservation SpecTree PlacementRules Outcomes

section Sums
variable {V : Type*} [CommRing V]

mutual

/-- What the leaves at or below a queue are guaranteed together. -/
def leafGuaranteed (d : String) : Spec V → V
  | ⟨_, guaranteed, _, _, _, _, _, _, _, _, children⟩ =>
    if children = [] then get guaranteed d else leavesGuaranteed d children

def leavesGuaranteed (d : String) : List (Spec V) → V
  | [] => 0
  | c :: rest => leafGuaranteed d c + leavesGuaranteed d rest

end

lemma leavesGuaranteed_eq (d : String) (specs : List (Spec V)) :
    leavesGuaranteed d specs = (specs.map (leafGuaranteed d)).sum := by
  induction specs with
  | nil => rfl
  | cons c rest ih => simp [leavesGuaranteed, ih]

lemma leafGuaranteed_leaf {s : Spec V} (h : s.children = []) (d : String) :
    leafGuaranteed d s = get s.guaranteed d := by
  obtain ⟨_, _, _, _, _, _, _, _, _, _, children⟩ := s
  exact if_pos h

lemma leafGuaranteed_inner {s : Spec V} (h : s.children ≠ []) (d : String) :
    leafGuaranteed d s = (s.children.map (leafGuaranteed d)).sum := by
  obtain ⟨_, _, _, _, _, _, _, _, _, _, children⟩ := s
  rw [leafGuaranteed, if_neg h, leavesGuaranteed_eq]

end Sums

section Booking
variable {V : Type*} [CommRing V] [LinearOrder V]

def guaranteedOf (m : QueueManager V) (p : String) : Resource V :=
  (m.index.lookup p).elim ∅ Queue.guaranteed

def bookGuarantees (m : QueueManager V) (leaves : List String) : QueueManager V :=
  run m (leaves.map fun l => .reserve l (guaranteedOf m l))

/-- What the leaves at or below a queue of the tree are guaranteed together. -/
def guaranteedBelow (m : QueueManager V) (leaves : List String) (p d : String) : V :=
  ((leaves.filter fun l => decide (p ∈ m.up l)).map fun l => get (guaranteedOf m l) d).sum

lemma used_run_reserve (leaves : List String) (amount : String → Resource V) (m : QueueManager V)
    (p d : String) :
    get ((run m (leaves.map fun l => .reserve l (amount l))).used p) d = get (m.used p) d +
      (leaves.map fun l => if Charges m.index l p then get (amount l) d else 0).sum := by
  induction leaves generalizing m with
  | nil => simp [run]
  | cons l rest ih =>
    have hstep : run m ((l :: rest).map fun l => .reserve l (amount l)) =
        run (m.reserve l (amount l)).1 (rest.map fun l => .reserve l (amount l)) := rfl
    have hindex : (m.reserve l (amount l)).1.index = m.index := mutate_index m l _
    rw [hstep, ih, hindex, reserve_used, List.map_cons, List.sum_cons, add_assoc]

variable {spec : Spec V} {m : QueueManager V} {leaves : List String}

lemma used_bookGuarantees (h : newManager spec = .ok m)
    (hleaves : ∀ l ∈ leaves, m.isLeafPath l = true) (p d : String) :
    get ((bookGuarantees m leaves).used p) d = guaranteedBelow m leaves p d := by
  rw [bookGuarantees, used_run_reserve, (newManager_fresh h).used, zero_add, guaranteedBelow]
  induction leaves with
  | nil => rfl
  | cons l rest ih =>
    rw [List.forall_mem_cons] at hleaves
    have hcharges : Charges m.index l p ↔ p ∈ m.up l := ⟨fun hc => hc.2, fun hp => ⟨hleaves.1, hp⟩⟩
    rw [List.map_cons, List.sum_cons, ih hleaves.2, List.filter_cons]
    by_cases hp : p ∈ m.up l <;> simp [hp, hcharges]

lemma bookGuarantees_index (m : QueueManager V) (leaves : List String) :
    (bookGuarantees m leaves).index = m.index := run_index m _

lemma used_inner (h : newManager spec = .ok m) {p : String}
    (hinner : (childPaths m.index p).Nonempty) (d : String) :
    get ((bookGuarantees m leaves).used p) d =
      ∑ cp ∈ childPaths m.index p, get ((bookGuarantees m leaves).used cp) d := by
  have hrolled : RollUp.Conserved (hierarchy (bookGuarantees m leaves).wf) fun n =>
      ((bookGuarantees m leaves).usage n).read d :=
    (conserving_run (fresh_conserving (newManager_fresh h)) _).rolled d
  have hsum := hrolled p
  simp only [hierarchy, bookGuarantees_index] at hsum
  simp only [get_used]
  rw [hsum hinner, map_sum]

lemma sum_children {a : Site V} (hdistinct : (a.spec.children.map Spec.name).Nodup)
    (hlook : m.index.lookup a.path = some a.queue) (f : String → V) :
    ∑ cp ∈ childPaths m.index a.path, f cp = (a.children.map fun c => f c.path).sum := by
  rw [sum_childPaths m.wf hlook, total]
  have hkeys : a.queue.children.keys = (a.spec.children.map Spec.name).toFinset := by
    ext n
    rw [Finmap.mem_keys]
    exact mem_tabulate _ _ n
  have hvalue : ∀ n ∈ a.queue.children.keys,
      (a.queue.children.lookup n).elim 0 f = f (a.path ++ "." ++ n) := by
    intro n hn
    have hlookup : a.queue.children.lookup n = some (a.path ++ "." ++ n) :=
      (lookup_tabulate _ _ n).trans (if_pos (hkeys ▸ hn))
    rw [hlookup, Option.elim_some]
  rw [Finset.sum_congr rfl hvalue, hkeys, List.sum_toFinset _ hdistinct]
  simp only [Site.children, List.map_map]
  rfl

lemma used_at_site (h : newManager spec = .ok m) (hnodup : leaves.Nodup)
    (hleaves : ∀ l, l ∈ leaves ↔ m.isLeafPath l = true) (d : String) {a : Site V}
    (ha : (rootSite spec).Below a) :
    get ((bookGuarantees m leaves).used a.path) d = leafGuaranteed d a.spec := by
  obtain ⟨hacceptable, hindex⟩ := newManager_ok h
  induction hs : a.spec using specInduction generalizing a with
  | h s ih =>
    have hlook : m.index.lookup a.path = some a.queue := (hindex _ _).mpr ⟨a, ha, rfl, rfl⟩
    subst hs
    have hchildren := childPaths_eq_empty_iff hlook
    rw [Site.isLeaf_queue] at hchildren
    by_cases hleaf : a.spec.children = []
    · have hpath : m.isLeafPath a.path = true :=
        (isLeafPath_iff m a.path).mpr ⟨_, hlook, a.isLeaf_queue.mpr hleaf⟩
      have hself : guaranteedOf m a.path = a.spec.guaranteed := by
        rw [guaranteedOf, hlook]
        rfl
      rw [bookGuarantees, used_run_reserve, (newManager_fresh h).used, zero_add,
        leafGuaranteed_leaf hleaf]
      simp only [charges_leaf_iff m hpath]
      rw [← List.sum_toFinset _ hnodup, Finset.sum_ite_eq',
        if_pos (List.mem_toFinset.mpr ((hleaves _).mpr hpath)), hself]
    · rw [used_inner h (Finset.nonempty_iff_ne_empty.mpr fun he => hleaf (hchildren.mp he)),
        sum_children (hacceptable.sound a ha).distinct hlook, leafGuaranteed_inner hleaf,
        Site.children, List.map_map]
      refine congrArg List.sum (List.map_congr_left fun c hc => ?_)
      exact ih c hc (ha.tail (List.mem_map_of_mem hc)) rfl

end Booking

section Feasible
variable {V : Type*} [CommRing V] [LinearOrder V]

lemma get_childrenGuaranteed (s : Spec V) (d : String) :
    get (childrenGuaranteed s) d = (s.children.map fun c => get c.guaranteed d).sum := by
  rw [childrenGuaranteed, get_foldl_add, get_empty, zero_add]

/-- A dimension of the guarantee that some inner child leaves open. -/
def Gap (s : Spec V) (d : String) : Prop :=
  d ∈ s.guaranteed.keys ∧ ∃ c ∈ s.children, c.children ≠ [] ∧ d ∉ c.guaranteed.keys

/-- A dimension of the maximum that the guarantee does not keep to. -/
def Uncapped (s : Spec V) (d : String) : Prop :=
  d ∈ s.max.keys ∧ ¬ (d ∈ s.guaranteed.keys ∧ get s.guaranteed d ≤ get s.max d)

/-- Where the comparison of a queue with its children says nothing, the guarantees of the
leaves below are within the guarantee and within the maximum all the same. -/
structure GapsCovered (s : Spec V) : Prop where
  guaranteed : ∀ d, Gap s d → leafGuaranteed d s ≤ get s.guaranteed d
  max : ∀ d, Uncapped s d → leafGuaranteed d s ≤ get s.max d

/-- Every guarantee covers the leaves below it, and the tree has room for all guarantees at
once. -/
structure Feasible (m : QueueManager V) (leaves : List String) : Prop where
  covered : ∀ p q, m.index.lookup p = some q → ∀ d ∈ q.guaranteed.keys,
    guaranteedBelow m leaves p d ≤ get q.guaranteed d
  fits : ∀ p q, m.index.lookup p = some q → ∀ d ∈ q.max.keys,
    get ((bookGuarantees m leaves).used p) d ≤ get q.max d

lemma leafGuaranteed_le {a : Site ℤ} (hsound : Sound a)
    (hgaps : ∀ b, a.Below b → GapsCovered b.spec) {d : String}
    (hd : d ∈ a.spec.guaranteed.keys ∨ a.spec.children = []) :
    leafGuaranteed d a.spec ≤ get a.spec.guaranteed d := by
  induction hs : a.spec using specInduction generalizing a with
  | h s ih =>
    subst hs
    by_cases hleaf : a.spec.children = []
    · exact (leafGuaranteed_leaf hleaf d).le
    replace hd := hd.resolve_right hleaf
    by_cases hgap : Gap a.spec d
    · exact (hgaps a a.below_self).guaranteed d hgap
    have hchild : ∀ c ∈ a.spec.children, leafGuaranteed d c ≤ get c.guaranteed d := by
      intro c hc
      have hmem : a.child c ∈ a.children := List.mem_map_of_mem hc
      have hopen : d ∈ c.guaranteed.keys ∨ c.children = [] := by
        by_contra hno
        rw [not_or] at hno
        exact hgap ⟨hd, c, hc, hno.2, hno.1⟩
      exact ih c hc (fun b hb => hsound b (.head hmem hb)) (fun b hb => hgaps b (.head hmem hb))
        hopen rfl
    have hcovered := (hsound a a.below_self).covered
    rw [guaranteedCovers, decide_eq_true_eq] at hcovered
    calc leafGuaranteed d a.spec = (a.spec.children.map (leafGuaranteed d)).sum :=
          leafGuaranteed_inner hleaf d
      _ ≤ (a.spec.children.map fun c => get c.guaranteed d).sum := List.sum_le_sum hchild
      _ = get (childrenGuaranteed a.spec) d := (get_childrenGuaranteed _ d).symm
      _ ≤ get a.spec.guaranteed d := not_lt.mp (hcovered d hd)

/-- In an accepted tree all guarantees can be met at once exactly where the leaves are within
every guarantee that an inner child leaves open and within every maximum that the guarantee
does not keep to. -/
theorem guarantees_feasible_iff {spec : Spec ℤ} {m : QueueManager ℤ} (h : newManager spec = .ok m)
    {leaves : List String} (hnodup : leaves.Nodup)
    (hleaves : ∀ l, l ∈ leaves ↔ m.isLeafPath l = true) :
    Feasible m leaves ↔ ∀ b, (rootSite spec).Below b → GapsCovered b.spec := by
  obtain ⟨hacceptable, hindex⟩ := newManager_ok h
  have hbelow : ∀ p d, get ((bookGuarantees m leaves).used p) d = guaranteedBelow m leaves p d :=
    used_bookGuarantees h fun l hl => (hleaves l).mp hl
  have hsite : ∀ b, (rootSite spec).Below b → ∀ d,
      get ((bookGuarantees m leaves).used b.path) d = leafGuaranteed d b.spec := fun b hb d =>
    used_at_site h hnodup hleaves d hb
  constructor
  · intro hfeasible b hb
    have hlook : m.index.lookup b.path = some b.queue := (hindex _ _).mpr ⟨b, hb, rfl, rfl⟩
    refine ⟨fun d hd => ?_, fun d hd => ?_⟩
    · have hcovered := hfeasible.covered _ _ hlook d hd.1
      rwa [← hbelow, hsite b hb] at hcovered
    · have hfits := hfeasible.fits _ _ hlook d hd.1
      rwa [hsite b hb] at hfits
  · intro hgaps
    have hguaranteed : ∀ b, (rootSite spec).Below b → ∀ d ∈ b.spec.guaranteed.keys,
        leafGuaranteed d b.spec ≤ get b.spec.guaranteed d := fun b hb d hd =>
      leafGuaranteed_le (fun x hx => hacceptable.sound x (hb.trans hx))
        (fun x hx => hgaps x (hb.trans hx)) (.inl hd)
    constructor
    · intro p q hq d hd
      obtain ⟨b, hb, rfl, rfl⟩ := (hindex p q).mp hq
      rw [← hbelow, hsite b hb]
      exact hguaranteed b hb d hd
    · intro p q hq d hd
      obtain ⟨b, hb, rfl, rfl⟩ := (hindex p q).mp hq
      rw [hsite b hb]
      by_cases hcap : d ∈ b.spec.guaranteed.keys ∧ get b.spec.guaranteed d ≤ get b.spec.max d
      · exact (hguaranteed b hb d hcap.1).trans hcap.2
      · exact (hgaps b hb).max d ⟨hd, hcap⟩

end Feasible

def guaranteedLeaf (guaranteed : ℤ) (max : Resource ℤ) : Spec ℤ :=
  { bareSpec "a" max [] with guaranteed := Finmap.singleton "cpu" guaranteed }

def guaranteedRoot (guaranteed : ℤ) (child : Spec ℤ) : Spec ℤ :=
  { bareSpec rootName ∅ [child] with guaranteed := Finmap.singleton "cpu" guaranteed }

/-- The list has the leaves of the tree, each once. -/
def Lists (leaves : List String) (m : QueueManager ℤ) : Prop :=
  leaves.Nodup ∧ (∀ l ∈ leaves, l ∈ m.index) ∧
    ∀ l ∈ m.index.keys, l ∈ leaves ↔ m.isLeafPath l = true

instance (leaves : List String) (m : QueueManager ℤ) : Decidable (Lists leaves m) := by
  unfold Lists; infer_instance

lemma Lists.mem_iff {leaves : List String} {m : QueueManager ℤ} (h : Lists leaves m) (l : String) :
    l ∈ leaves ↔ m.isLeafPath l = true := by
  constructor
  · intro hl
    exact (h.2.2 l (Finmap.mem_keys.mpr (h.2.1 l hl))).mp hl
  · intro hl
    exact (h.2.2 l (Finmap.mem_keys.mpr (mem_index_of_isLeafPath hl))).mpr hl

/-- A guarantee of 10 below a queue without one exceeds the 5 above it, and a guarantee of 10
exceeds the leaf's own maximum of 4: both trees are accepted. -/
theorem accepted_guarantees_overcommit :
    let gapped := guaranteedRoot 5 (bareSpec "mid" ∅ [guaranteedLeaf 10 ∅])
    let capped := guaranteedRoot 10 (guaranteedLeaf 10 (Finmap.singleton "cpu" 4))
    (match newManager gapped with
      | .error _ => false
      | .ok m => decide (Lists ["root.mid.a"] m) && (m.index.lookup "root").any fun q =>
          decide (get q.guaranteed "cpu" = 5 ∧
            guaranteedBelow m ["root.mid.a"] "root" "cpu" = 10)) =
      true ∧
    (match newManager capped with
      | .error _ => false
      | .ok m => decide (Lists ["root.a"] m) && (m.index.lookup "root.a").any fun q =>
          decide (get q.max "cpu" = 4 ∧
            get ((bookGuarantees m ["root.a"]).used "root.a") "cpu" = 10)) = true := by
  decide +kernel

theorem modest_guarantee_feasible :
    let spec := guaranteedRoot 5 (guaranteedLeaf 2 (Finmap.singleton "cpu" 4))
    ∃ m, newManager spec = .ok m ∧ Feasible m ["root.a"] := by
  intro spec
  obtain ⟨m, hm, hlists⟩ : ∃ m, newManager spec = .ok m ∧ Lists ["root.a"] m :=
    exists_ok_of_any (by decide +kernel)
  refine ⟨m, hm, (guarantees_feasible_iff hm hlists.1 hlists.mem_iff).mpr fun b hb => ?_⟩
  rcases Site.below_iff.mp hb with rfl | ⟨c, hc, hcb⟩
  · -- the only child of the root is a leaf, and the root has no maximum
    refine ⟨fun d hd => ?_, fun d hd => ?_⟩
    · obtain ⟨-, c, hc, hinner, -⟩ := hd
      exact absurd (congrArg Spec.children (List.mem_singleton.mp hc)) hinner
    · exact absurd hd.1 (Finmap.mem_keys.not.mpr Finmap.notMem_empty)
  · obtain rfl := List.mem_singleton.mp hc
    have hself : b = (rootSite spec).child (guaranteedLeaf 2 (Finmap.singleton "cpu" 4)) := by
      rcases Site.below_iff.mp hcb with rfl | ⟨c, hc, -⟩
      · rfl
      · exact absurd hc List.not_mem_nil
    subst hself
    refine ⟨fun d hd => ?_, fun d hd => ?_⟩
    · obtain ⟨-, c, hc, -⟩ := hd
      exact absurd hc List.not_mem_nil
    · obtain rfl : d = "cpu" := by simpa [guaranteedLeaf, bareSpec, Site.child] using hd.1
      exact absurd hd.2 (not_not.mpr (by decide))

end AdScheduler.JointGuarantees
