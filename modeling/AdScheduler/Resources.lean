import AdScheduler.KeyedMap

/-! Multi-dimensional resource vectors, after `pkg/resource/resource.go`. A vector
is a finite map from dimension names to integers. The integer type `V` is left
open: the code computes in `int64`, whose wrap-around arithmetic is a commutative
ring, and the exact readings use `ℤ`. A key that is present with value zero is
kept apart from an absent key, because limits read the two differently. -/
namespace AdScheduler.Resources
open KeyedMap

abbrev Resource (V : Type*) := Map String V

variable {V : Type*} [CommRing V] [LinearOrder V]

/-- `r[d]`: an absent dimension reads as zero. -/
def get (r : Resource V) (d : String) : V := (r.lookup d).getD 0

def isEmpty (r : Resource V) : Bool := decide (∀ d ∈ r.keys, get r d = 0)

/-- At least one dimension is positive and none is negative. -/
def strictlyGtZero (r : Resource V) : Bool :=
  decide ((∀ d ∈ r.keys, ¬ get r d < 0) ∧ ∃ d ∈ r.keys, 0 < get r d)

/-- Drop the dimensions of value zero. -/
def prune (r : Resource V) : Resource V := tabulate (r.keys.filter fun d => get r d ≠ 0) (get r)

def add (a b : Resource V) : Resource V :=
  prune (tabulate (a.keys ∪ b.keys) fun d => get a d + get b d)

def sub (a b : Resource V) : Resource V :=
  prune (tabulate (a.keys ∪ b.keys) fun d => get a d - get b d)

/-- Every dimension the request names is covered by what is available. -/
def fitIn (request available : Resource V) : Bool :=
  decide (∀ d ∈ request.keys, ¬ get available d < get request d)

/-- Componentwise maximum. A dimension of `a` that `b` lacks keeps its value, also
when it is negative. -/
protected def max (a b : Resource V) : Resource V :=
  prune (tabulate (a.keys ∪ b.keys) fun d =>
    if d ∈ b.keys ∧ get a d < get b d then get b d else get a d)

omit [LinearOrder V] in
@[simp] lemma get_empty (d : String) : get (∅ : Resource V) d = 0 := rfl

omit [LinearOrder V] in
lemma get_of_notMem {r : Resource V} {d : String} (h : d ∉ r.keys) : get r d = 0 := by
  rw [Finmap.mem_keys, ← Finmap.lookup_eq_none] at h
  simp [get, h]

omit [LinearOrder V] in
lemma get_insert (r : Resource V) (k : String) (v : V) (d : String) :
    get (r.insert k v) d = if d = k then v else get r d := by
  rw [get, lookup_insert_ite]
  split_ifs <;> rfl

omit [LinearOrder V] in
lemma get_singleton (k : String) (v : V) (d : String) :
    get (Finmap.singleton k v) d = if d = k then v else 0 := get_insert ∅ k v d

omit [LinearOrder V] in
lemma get_tabulate (ks : Finset String) (f : String → V) (d : String) :
    get (tabulate ks f) d = if d ∈ ks then f d else 0 := by
  rw [get, lookup_tabulate]
  split_ifs <;> rfl

@[simp] lemma get_prune (r : Resource V) (d : String) : get (prune r) d = get r d := by
  rw [prune, get_tabulate]
  split_ifs with h
  · rfl
  · by_cases hd : d ∈ r.keys
    · by_contra hne
      exact h (Finset.mem_filter.mpr ⟨hd, fun he => hne he.symm⟩)
    · exact (get_of_notMem hd).symm

@[simp] lemma get_add (a b : Resource V) (d : String) : get (add a b) d = get a d + get b d := by
  rw [add, get_prune, get_tabulate]
  split_ifs with h
  · rfl
  · rw [Finset.mem_union, not_or] at h
    rw [get_of_notMem h.1, get_of_notMem h.2, add_zero]

lemma get_foldl_add {ι : Type*} (f : ι → Resource V) (acc : Resource V) (l : List ι) (d : String) :
    get (l.foldl (fun acc i => add acc (f i)) acc) d =
      get acc d + (l.map fun i => get (f i) d).sum := by
  induction l generalizing acc with
  | nil => simp
  | cons i l ih =>
    rw [List.foldl_cons, ih, get_add]
    simp [add_assoc]

@[simp] lemma get_sub (a b : Resource V) (d : String) : get (sub a b) d = get a d - get b d := by
  rw [sub, get_prune, get_tabulate]
  split_ifs with h
  · rfl
  · rw [Finset.mem_union, not_or] at h
    rw [get_of_notMem h.1, get_of_notMem h.2, sub_zero]

lemma get_max {a b : Resource V} {d : String} (h : 0 ≤ get a d) :
    get (Resources.max a b) d = Max.max (get a d) (get b d) := by
  rw [Resources.max, get_prune, get_tabulate]
  by_cases hb : d ∈ b.keys
  · rw [if_pos (Finset.mem_union_right _ hb)]
    by_cases hlt : get a d < get b d
    · rw [if_pos ⟨hb, hlt⟩, max_eq_right hlt.le]
    · rw [if_neg fun hboth => hlt hboth.2, max_eq_left (not_lt.mp hlt)]
  · simp only [hb, false_and, if_false, get_of_notMem hb, max_eq_left h, ite_eq_left_iff]
    intro ha
    exact (get_of_notMem fun hin => ha (Finset.mem_union_left _ hin)).symm

lemma isEmpty_iff (r : Resource V) : isEmpty r = true ↔ ∀ d, get r d = 0 := by
  rw [isEmpty, decide_eq_true_eq]
  constructor
  · intro h d
    by_cases hd : d ∈ r.keys
    · exact h d hd
    · exact get_of_notMem hd
  · exact fun h d _ => h d

lemma isEmpty_eq_false {r : Resource V} {d : String} (h : get r d ≠ 0) : isEmpty r = false := by
  by_contra hempty
  rw [Bool.not_eq_false, isEmpty_iff] at hempty
  exact h (hempty d)

lemma get_nonneg_of_keys {r : Resource V} (h : ∀ d ∈ r.keys, 0 ≤ get r d) (d : String) :
    0 ≤ get r d := by
  by_cases hd : d ∈ r.keys
  · exact h d hd
  · rw [get_of_notMem hd]

lemma get_nonneg_of_strictlyGtZero {r : Resource V} (h : strictlyGtZero r = true) (d : String) :
    0 ≤ get r d := by
  rw [strictlyGtZero, decide_eq_true_eq] at h
  exact get_nonneg_of_keys (fun d hd => not_lt.mp (h.1 d hd)) d

omit [LinearOrder V] in
lemma mem_keys_of_get_ne_zero {r : Resource V} {d : String} (h : get r d ≠ 0) : d ∈ r.keys := by
  by_contra hd
  exact h (get_of_notMem hd)

lemma mem_prune_iff {r : Resource V} {d : String} :
    d ∈ (prune r).keys ↔ get (prune r) d ≠ 0 := by
  refine ⟨fun h => ?_, mem_keys_of_get_ne_zero⟩
  rw [prune, Finmap.mem_keys, mem_tabulate, Finset.mem_filter] at h
  rw [get_prune]
  exact h.2

omit [LinearOrder V] in
lemma eq_of_get {a b : Resource V} (ha : ∀ d ∈ a.keys, get a d ≠ 0) (hb : ∀ d ∈ b.keys, get b d ≠ 0)
    (h : ∀ d, get a d = get b d) : a = b := by
  refine Finmap.ext_lookup fun d => ?_
  have hd := h d
  cases hx : a.lookup d with
  | none =>
    have hzero : get a d = 0 := by simp [get, hx]
    have hnot : d ∉ b.keys := fun hin => hb d hin (hd.symm.trans hzero)
    rw [Finmap.mem_keys, ← Finmap.lookup_eq_none] at hnot
    exact hnot.symm
  | some x =>
    have hmem : d ∈ b.keys := mem_keys_of_get_ne_zero
      (hd ▸ ha d (Finmap.mem_keys.mpr (Finmap.mem_of_lookup_eq_some hx)))
    obtain ⟨y, hy⟩ := Finmap.mem_iff.mp (Finmap.mem_keys.mp hmem)
    simp only [get, hx, hy, Option.getD_some] at hd
    rw [hy, hd]

lemma strictlyGtZero_iff {r : Resource V} :
    strictlyGtZero r = true ↔ (∀ d, 0 ≤ get r d) ∧ ∃ d, 0 < get r d := by
  constructor
  · intro h
    refine ⟨get_nonneg_of_strictlyGtZero h, ?_⟩
    rw [strictlyGtZero, decide_eq_true_eq] at h
    obtain ⟨d, -, hd⟩ := h.2
    exact ⟨d, hd⟩
  · rintro ⟨hnonneg, d, hd⟩
    rw [strictlyGtZero, decide_eq_true_eq]
    exact ⟨fun d _ => not_lt.mpr (hnonneg d), d, mem_keys_of_get_ne_zero hd.ne', hd⟩

end AdScheduler.Resources
