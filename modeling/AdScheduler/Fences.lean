import AdScheduler.DottedPath
import AdScheduler.Manager

/-! Preemption fences, after `isFence`, `fenceBoundary` of `pkg/queue/queue.go` and
`FenceBoundary`, `PathWithinSubtree` of `pkg/queue/manager.go`. -/
namespace AdScheduler.Fences
open KeyedMap QueueTree TreeShape Manager DottedPath

variable {V : Type*} [CommRing V] [LinearOrder V]

def isTopLevel (ix : Index V) (q : Queue V) : Bool :=
  match q.parent with
  | none => false
  | some pp => (ix.lookup pp).elim false fun p => p.parent.isNone

/-- An explicit fence, or the implicit one around each namespace. -/
def isFence (ix : Index V) (q : Queue V) : Bool := q.fence || isTopLevel ix q

/-- The loop up to the nearest fence; without one it ends at the last queue. -/
def scanFence (ix : Index V) : List (Queue V) → Queue V → Queue V
  | [], last => last
  | n :: rest, _ => if isFence ix n then n else scanFence ix rest n

def nearestFence (ix : Index V) (q : Queue V) : Queue V := scanFence ix (pathUp ix q.path) q

/-- `FenceBoundary`: the path of the nearest fence around a known queue. -/
def fenceBoundary (m : QueueManager V) (path : String) : Option String :=
  (m.index.lookup path).map fun q => (nearestFence m.index q).path

/-- The path is that of the subtree's root or below it, by its text. -/
def pathWithinSubtree (path subtreeRoot : String) : Bool :=
  decide (path = subtreeRoot) || (subtreeRoot ++ ".").toList.isPrefixOf path.toList

lemma pathWithinSubtree_iff (path subtreeRoot : String) :
    pathWithinSubtree path subtreeRoot = true ↔ segments subtreeRoot <+: segments path := by
  simp only [pathWithinSubtree, Bool.or_eq_true, decide_eq_true_eq, List.isPrefixOf_iff_prefix]
  exact prefix_iff_segments path subtreeRoot

section Ancestry
variable {ix : Index V}

def ParentOf (ix : Index V) (child parent : String) : Prop :=
  ∃ q, ix.lookup child = some q ∧ q.parent = some parent

/-- The second queue is the first one or an ancestor of it. -/
def Within (ix : Index V) : String → String → Prop := Relation.ReflTransGen (ParentOf ix)

lemma mem_pathUp_iff_within (hs : Shape ix) {a b : String} {q : Queue V} (ha : a ∈ ix)
    (hb : ix.lookup b = some q) : q ∈ pathUp ix a ↔ Within ix a b := by
  constructor
  · intro h
    induction a using hs.induction with
    | unknown a hq => simp [pathUp_unknown hq] at h
    | root a x hx hp =>
      simp only [pathUp_root hx hp, List.mem_singleton] at h
      subst h
      obtain rfl : b = a := (hs.path_eq hb).symm.trans (hs.path_eq hx)
      exact .refl
    | child a x pp hx hp ih =>
      simp only [pathUp_child hs hx hp, List.mem_cons] at h
      rcases h with rfl | h
      · obtain rfl : b = a := (hs.path_eq hb).symm.trans (hs.path_eq hx)
        exact .refl
      · exact .head ⟨x, hx, hp⟩ (ih (hs.parent_mem hx hp).1 h)
  · intro h
    induction h using Relation.ReflTransGen.head_induction_on with
    | refl => exact mem_pathUp_self hb
    | head hstep _ ih =>
      obtain ⟨x, hx, hp⟩ := hstep
      rw [pathUp_child hs hx hp]
      exact List.mem_cons_of_mem _ (ih (hs.parent_mem hx hp).1)

lemma segments_root (hs : Shape ix) {p : String} {q : Queue V} (hq : ix.lookup p = some q)
    (hp : q.parent = none) : segments p = [rootName.toList] := by
  rw [hs.root_only hq hp]
  exact segments_name (by decide)

lemma segments_child (hs : Shape ix) {p pp : String} {q : Queue V} (hq : ix.lookup p = some q)
    (hp : q.parent = some pp) : segments p = segments pp ++ [q.name.toList] := by
  rw [(hs.parent_mem hq hp).2, segments_append, segments_name (hs.name_ok hq).2]

lemma segments_of_mem_pathUp (hs : Shape ix) {p : String} {n : Queue V} (h : n ∈ pathUp ix p) :
    segments n.path <+: segments p := by
  induction p using hs.induction with
  | unknown p hq => simp [pathUp_unknown hq] at h
  | root p q hq hp =>
    simp only [pathUp_root hq hp, List.mem_singleton] at h
    simp [h, hs.path_eq hq]
  | child p q pp hq hp ih =>
    simp only [pathUp_child hs hq hp, List.mem_cons] at h
    rcases h with rfl | h
    · simp [hs.path_eq hq]
    · have hparent := ih h
      rw [segments_child hs hq hp]
      exact hparent.trans (List.prefix_append _ _)

lemma mem_pathUp_of_segments (hs : Shape ix) {a b : String} {q : Queue V} (ha : a ∈ ix)
    (hb : ix.lookup b = some q) (h : segments b <+: segments a) : q ∈ pathUp ix a := by
  induction a using hs.induction with
  | unknown a hq => exact absurd ha (Finmap.lookup_eq_none.mp hq)
  | root a x hx hp =>
    have hlen := segments_root hs hx hp
    have heq : segments b = segments a := by
      rw [hlen] at h ⊢
      rcases List.prefix_cons_iff.mp h with hnil | ⟨t, ht, hpre⟩
      · exact absurd hnil (segments_ne_nil b)
      · rw [ht, List.prefix_nil.mp hpre]
    rw [segments_injective heq, hx] at hb
    cases hb
    exact mem_pathUp_self hx
  | child a x pp hx hp ih =>
    rw [segments_child hs hx hp, List.prefix_concat_iff, ← segments_child hs hx hp] at h
    rcases h with heq | hpre
    · rw [segments_injective heq, hx] at hb
      cases hb
      exact mem_pathUp_self hx
    · rw [pathUp_child hs hx hp]
      exact List.mem_cons_of_mem _ (ih (hs.parent_mem hx hp).1 hpre)

lemma pathWithinSubtree_iff_ancestor (hs : Shape ix) {a b : String} {q : Queue V} (ha : a ∈ ix)
    (hb : ix.lookup b = some q) : pathWithinSubtree a b = true ↔ q ∈ pathUp ix a := by
  rw [pathWithinSubtree_iff]
  refine ⟨mem_pathUp_of_segments hs ha hb, fun h => ?_⟩
  have hpre := segments_of_mem_pathUp hs h
  rwa [hs.path_eq hb] at hpre

lemma isTopLevel_iff (hs : Shape ix) {p : String} {q : Queue V} (hq : ix.lookup p = some q) :
    isTopLevel ix q = true ↔ q.parent = some rootName := by
  unfold isTopLevel
  cases hp : q.parent with
  | none => simp
  | some pp =>
    obtain ⟨x, hx⟩ := Finmap.mem_iff.mp (hs.parent_mem hq hp).1
    simp only [hx, Option.elim_some, Option.isNone_iff_eq_none, Option.some.injEq]
    constructor
    · exact hs.root_only hx
    · rintro rfl
      cases hxp : x.parent with
      | none => rfl
      | some y =>
        have hsegs := segments_child hs hx hxp
        rw [segments_name (by decide)] at hsegs
        have hlen := congrArg List.length hsegs
        have hpos := List.length_pos_iff.mpr (segments_ne_nil y)
        simp only [List.length_singleton, List.length_append] at hlen
        omega

lemma exists_topLevel (hs : Shape ix) {p : String} {q : Queue V} (hq : ix.lookup p = some q)
    (hp : q.parent ≠ none) : ∃ n ∈ pathUp ix p, isTopLevel ix n = true := by
  induction p using hs.induction generalizing q with
  | unknown p hnone => simp [hnone] at hq
  | root p x hx hroot =>
    rw [hx] at hq
    cases hq
    exact absurd hroot hp
  | child p x pp hx hpp ih =>
    obtain ⟨y, hy⟩ := Finmap.mem_iff.mp (hs.parent_mem hx hpp).1
    rw [pathUp_child hs hx hpp]
    cases hyp : y.parent with
    | none =>
      refine ⟨x, List.mem_cons_self, ?_⟩
      simp [isTopLevel, hpp, hy, hyp]
    | some z =>
      obtain ⟨n, hn, htop⟩ := ih hy (by simp [hyp])
      exact ⟨n, List.mem_cons_of_mem _ hn, htop⟩

omit [CommRing V] [LinearOrder V] in
lemma scanFence_mem {l : List (Queue V)} (last : Queue V) (h : ∃ n ∈ l, isFence ix n = true) :
    scanFence ix l last ∈ l ∧ isFence ix (scanFence ix l last) = true := by
  induction l generalizing last with
  | nil => simp at h
  | cons n rest ih =>
    rw [scanFence]
    split_ifs with hn
    · exact ⟨List.mem_cons_self, hn⟩
    · have hrest : ∃ n ∈ rest, isFence ix n = true := by
        obtain ⟨x, hx, hfence⟩ := h
        rcases List.mem_cons.mp hx with rfl | hx
        · exact absurd hfence hn
        · exact ⟨x, hx, hfence⟩
      exact ⟨List.mem_cons_of_mem _ (ih n hrest).1, (ih n hrest).2⟩

lemma fence_above_scanFence (hs : Shape ix) {p : String} (last : Queue V) {n : Queue V}
    (hn : n ∈ pathUp ix p) (hfence : isFence ix n = true) :
    n ∈ pathUp ix (scanFence ix (pathUp ix p) last).path := by
  induction p using hs.induction generalizing last with
  | unknown p hq => simp [pathUp_unknown hq] at hn
  | root p q hq hp =>
    simp only [pathUp_root hq hp, List.mem_singleton] at hn
    subst hn
    simp only [pathUp_root hq hp, scanFence, hfence, if_true, hs.path_eq hq, List.mem_singleton]
  | child p q pp hq hp ih =>
    have hup := pathUp_child hs hq hp
    simp only [hup, scanFence]
    split_ifs with hown
    · rwa [hs.path_eq hq]
    · simp only [hup, List.mem_cons] at hn
      rcases hn with rfl | hn
      · exact absurd hfence hown
      · exact ih q hn

/-- The nearest fence of a queue below the root: it is on the way up, it is a fence, and
every other fence on the way is above it. -/
structure DeepestFence (ix : Index V) (p : String) (f : Queue V) : Prop where
  above : f ∈ pathUp ix p
  fence : isFence ix f = true
  deepest : ∀ n ∈ pathUp ix p, isFence ix n = true → n ∈ pathUp ix f.path

lemma nearestFence_deepest (hs : Shape ix) {p : String} {q : Queue V}
    (hq : ix.lookup p = some q) (hp : q.parent ≠ none) :
    DeepestFence ix p (nearestFence ix q) := by
  obtain ⟨n, hn, htop⟩ := exists_topLevel hs hq hp
  have hfence : ∃ n ∈ pathUp ix p, isFence ix n = true := ⟨n, hn, by simp [isFence, htop]⟩
  have hmem := scanFence_mem q hfence
  rw [nearestFence, hs.path_eq hq]
  exact ⟨hmem.1, hmem.2, fun x hx => fence_above_scanFence hs q hx⟩

lemma namespaceOf_segments {path : String} {r ns : List Char}
    (h : [r, ns] <+: segments path) (hr : r = rootName.toList) :
    namespaceOf path = String.ofList ns := by
  obtain ⟨rest, hrest⟩ := h
  rw [namespaceOf, show path.toList.splitOn '.' = segments path from rfl, ← hrest, hr]
  simp

lemma namespaceOf_within_fence (hs : Shape ix) {p v : String} {q : Queue V}
    (hq : ix.lookup p = some q) (hp : q.parent ≠ none)
    (hv : pathWithinSubtree v (nearestFence ix q).path = true) :
    namespaceOf v = namespaceOf p := by
  obtain ⟨n, hn, htop⟩ := exists_topLevel hs hq hp
  have hdeep := (nearestFence_deepest hs hq hp).deepest n hn (by simp [isFence, htop])
  have hlook := lookup_of_mem_pathUp hs hn
  have hsegs : segments n.path = [rootName.toList, n.name.toList] := by
    rw [segments_child hs hlook ((isTopLevel_iff hs hlook).mp htop), segments_name (by decide)]
    rfl
  have hpre : segments n.path <+: segments v :=
    (segments_of_mem_pathUp hs hdeep).trans ((pathWithinSubtree_iff _ _).mp hv)
  have hpre' := segments_of_mem_pathUp hs hn
  rw [hsegs] at hpre hpre'
  rw [namespaceOf_segments hpre rfl, namespaceOf_segments hpre' rfl]

end Ancestry

end AdScheduler.Fences
