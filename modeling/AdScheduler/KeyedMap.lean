import Mathlib

/-! Finite maps in the way a Go program uses them: a lookup that may miss, an
update and a deletion by key, a loop over the entries in an unspecified order,
and sums over the entries. The maps themselves are Mathlib's `Finmap`. -/
namespace AdScheduler.KeyedMap

abbrev Map (K V : Type*) := Finmap (fun _ : K => V)

variable {K V M : Type*} [DecidableEq K]

/-- The map with the given keys and one computed value for each of them. -/
def tabulate (ks : Finset K) (f : K → V) : Map K V :=
  ⟨ks.val.map fun k => ⟨k, f k⟩, by
    rw [← Multiset.nodup_keys]
    have h : Multiset.keys (ks.val.map fun k => (⟨k, f k⟩ : Σ _ : K, V)) = ks.val := by
      simp [Multiset.keys, Multiset.map_map]
    rw [h]
    exact ks.nodup⟩

omit [DecidableEq K] in
lemma mem_tabulate (ks : Finset K) (f : K → V) (k : K) : k ∈ tabulate ks f ↔ k ∈ ks := by
  rw [Finmap.mem_def]
  simp [tabulate, Multiset.keys, Multiset.map_map]

lemma lookup_tabulate (ks : Finset K) (f : K → V) (k : K) :
    (tabulate ks f).lookup k = if k ∈ ks then some (f k) else none := by
  split_ifs with h
  · rw [Finmap.lookup_eq_some_iff]
    exact Multiset.mem_map.mpr ⟨k, h, rfl⟩
  · rw [Finmap.lookup_eq_none, mem_tabulate]
    exact h

/-- One order in which a loop over the map can visit its entries. -/
def Visits (order : List K) (m : Map K V) : Prop :=
  order.Nodup ∧ ∀ k, k ∈ order ↔ k ∈ m

instance (order : List K) (m : Map K V) : Decidable (Visits order m) :=
  decidable_of_iff (order.Nodup ∧ order.toFinset = m.keys) (by
    simp [Visits, Finset.ext_iff, Finmap.mem_keys])

omit [DecidableEq K] in
lemma visits_empty : Visits ([] : List K) (∅ : Map K V) :=
  ⟨List.nodup_nil, fun k => by simp [Finmap.notMem_empty]⟩

lemma visits_keys {order : List K} {m : Map K V} (h : Visits order m) :
    order.toFinset = m.keys := by
  ext k
  rw [List.mem_toFinset, h.2, Finmap.mem_keys]

lemma insert_erase (m : Map K V) (k : K) (v : V) : (m.erase k).insert k v = m.insert k v := by
  apply Finmap.ext_lookup
  intro j
  by_cases h : j = k
  · subst h
    rw [Finmap.lookup_insert, Finmap.lookup_insert]
  · rw [Finmap.lookup_insert_of_ne _ h, Finmap.lookup_insert_of_ne _ h, Finmap.lookup_erase_ne h]

lemma lookup_insert_ite (m : Map K V) (k j : K) (v : V) :
    (m.insert k v).lookup j = if j = k then some v else m.lookup j := by
  split_ifs with h
  · rw [h, Finmap.lookup_insert]
  · exact Finmap.lookup_insert_of_ne _ h

lemma lookup_insert_cases {m : Map K V} {k j : K} {v w : V} (h : (m.insert k v).lookup j = some w) :
    (j = k ∧ w = v) ∨ (j ≠ k ∧ m.lookup j = some w) := by
  rw [lookup_insert_ite] at h
  split_ifs at h with hj
  · exact .inl ⟨hj, (Option.some.inj h).symm⟩
  · exact .inr ⟨hj, h⟩

lemma lookup_singleton_eq_some {k j : K} {v w : V} :
    (Finmap.singleton k v : Map K V).lookup j = some w ↔ j = k ∧ w = v := by
  have hlookup := lookup_insert_ite (∅ : Map K V) k j v
  change (Finmap.singleton k v : Map K V).lookup j = _ at hlookup
  rw [hlookup]
  by_cases hj : j = k <;> simp [hj, eq_comm]

lemma lookup_erase_ite (m : Map K V) (k j : K) :
    (m.erase k).lookup j = if j = k then none else m.lookup j := by
  split_ifs with h
  · rw [h, Finmap.lookup_erase]
  · exact Finmap.lookup_erase_ne h

lemma lookup_of_erase {m : Map K V} {k j : K} {v : V} (h : (m.erase k).lookup j = some v) :
    m.lookup j = some v := by
  rw [lookup_erase_ite] at h
  split_ifs at h
  exact h

section Collect
variable {α β : Type*} (key : α → Option K) (val : α → β)

/-- The values of a list by key, in the order of the list. Items without a key are left out. -/
def collect (l : List α) (m : Map K (List β)) : Map K (List β) :=
  l.foldl (fun m x =>
    match key x with
    | none => m
    | some k => m.insert k ((m.lookup k).getD [] ++ [val x])) m

lemma lookup_collect (l : List α) (m : Map K (List β)) (k : K) :
    ((collect key val l m).lookup k).getD [] =
      (m.lookup k).getD [] ++ (l.filter fun x => decide (key x = some k)).map val := by
  unfold collect
  induction l generalizing m with
  | nil => simp
  | cons x rest ih =>
    rw [List.foldl_cons, ih]
    cases hx : key x with
    | none => simp [hx]
    | some j =>
      by_cases hj : j = k
      · subst hj
        simp [hx]
      · simp [hx, hj, Ne.symm hj]

lemma mem_collect (l : List α) (m : Map K (List β)) (k : K) :
    k ∈ collect key val l m ↔ k ∈ m ∨ ∃ x ∈ l, key x = some k := by
  unfold collect
  induction l generalizing m with
  | nil => simp
  | cons x rest ih =>
    rw [List.foldl_cons, ih, List.exists_mem_cons_iff]
    cases hx : key x with
    | none => simp
    | some j =>
      simp only [Finmap.mem_insert, Option.some.injEq, eq_comm (a := k)]
      tauto

end Collect

/-- The entries a loop meets when it visits the map in the given order. -/
def entries (order : List K) (m : Map K V) : List (K × V) :=
  order.filterMap fun k => (m.lookup k).map (Prod.mk k)

lemma lookup_of_mem_entries {order : List K} {m : Map K V} {k : K} {v : V}
    (h : (k, v) ∈ entries order m) : m.lookup k = some v := by
  rw [entries, List.mem_filterMap] at h
  obtain ⟨j, _, hj⟩ := h
  obtain ⟨x, hx, he⟩ := Option.map_eq_some_iff.mp hj
  cases he
  exact hx

lemma mem_entries_iff {order : List K} {m : Map K V} (h : Visits order m) {k : K} {v : V} :
    (k, v) ∈ entries order m ↔ m.lookup k = some v := by
  refine ⟨lookup_of_mem_entries, fun hk => ?_⟩
  rw [entries, List.mem_filterMap]
  exact ⟨k, (h.2 k).mpr (Finmap.mem_of_lookup_eq_some hk), by rw [hk]; rfl⟩

lemma entries_nodup {order : List K} {m : Map K V} (h : order.Nodup) :
    ((entries order m).map Prod.fst).Nodup := by
  have hsub : ((entries order m).map Prod.fst).Sublist order := by
    clear h
    induction order with
    | nil => exact List.Sublist.slnil
    | cons k order ih =>
      cases hk : m.lookup k with
      | none =>
        rw [entries, List.filterMap_cons_none (by rw [hk]; rfl)]
        exact ih.cons k
      | some v =>
        rw [entries, List.filterMap_cons_some (by rw [hk]; rfl)]
        exact ih.cons_cons k
  exact hsub.nodup h

lemma entries_perm {order : List K} {m : Map K V} (h : Visits order m) {l : List (K × V)}
    (hd : (l.map Prod.fst).Nodup) (hm : ∀ k v, m.lookup k = some v ↔ (k, v) ∈ l) :
    (entries order m).Perm l := by
  rw [List.perm_ext_iff_of_nodup (entries_nodup h.1).of_map hd.of_map]
  rintro ⟨k, v⟩
  rw [mem_entries_iff h, hm]

/-- The rule for a loop over a ledger whose body touches only the entry it is at:
each round meets the entry it was promised. -/
lemma loop_invariant {S : Type*} (ledger : S → Map K V) {f : S → K × V → S} {I : S → Prop}
    (hstep : ∀ s k v, I s → (ledger s).lookup k = some v → I (f s (k, v)))
    (hframe : ∀ s k v j, j ≠ k → (ledger (f s (k, v))).lookup j = (ledger s).lookup j)
    {order : List K} {s : S} (h : order.Nodup) (hs : I s) :
    I ((entries order (ledger s)).foldl f s) := by
  have hnodup := entries_nodup (m := ledger s) h
  have hmeets : ∀ kv ∈ entries order (ledger s), (ledger s).lookup kv.1 = some kv.2 :=
    fun _ hkv => lookup_of_mem_entries hkv
  generalize entries order (ledger s) = l at hnodup hmeets
  induction l generalizing s with
  | nil => exact hs
  | cons kv l ih =>
    rw [List.map_cons, List.nodup_cons] at hnodup
    refine ih (hstep s kv.1 kv.2 hs (hmeets kv List.mem_cons_self)) hnodup.2 ?_
    intro kv' hkv'
    have hne : kv'.1 ≠ kv.1 := fun he => hnodup.1 (he ▸ List.mem_map_of_mem hkv')
    exact (hframe s kv.1 kv.2 _ hne).trans (hmeets kv' (List.mem_cons_of_mem _ hkv'))

/-- A loop over one map that updates another one at the key it is at: in the end each key
has been updated once, or not at all. -/
lemma loop_lookup {S W : Type*} (ledger : S → Map K W) {f : S → K × V → S} {I : S → Prop}
    {g : V → Option W → Option W} (hI : ∀ s kv, I s → I (f s kv))
    (hstep : ∀ s k v, I s → (ledger (f s (k, v))).lookup k = g v ((ledger s).lookup k))
    (hframe : ∀ s k v j, I s → j ≠ k → (ledger (f s (k, v))).lookup j = (ledger s).lookup j)
    {order : List K} {m : Map K V} (h : Visits order m) {s : S} (hs : I s) (k : K) :
    (ledger ((entries order m).foldl f s)).lookup k =
      (m.lookup k).elim ((ledger s).lookup k) fun v => g v ((ledger s).lookup k) := by
  have hskip : ∀ (l : List (K × V)) (s : S), I s → k ∉ l.map Prod.fst →
      (ledger (l.foldl f s)).lookup k = (ledger s).lookup k := by
    intro l
    induction l with
    | nil => exact fun _ _ _ => rfl
    | cons kv l ih =>
      intro s hs hk
      rw [List.map_cons, List.mem_cons, not_or] at hk
      rw [List.foldl_cons, ih _ (hI s kv hs) hk.2, hframe s kv.1 kv.2 k hs hk.1]
  cases hk : m.lookup k with
  | none =>
    refine hskip _ s hs fun hmem => ?_
    obtain ⟨⟨j, v⟩, hj, rfl⟩ := List.mem_map.mp hmem
    rw [lookup_of_mem_entries hj] at hk
    cases hk
  | some v =>
    have hd := entries_nodup (m := m) h.1
    obtain ⟨l₁, l₂, hsplit⟩ := List.append_of_mem ((mem_entries_iff h).mpr hk)
    rw [hsplit, List.map_append, List.map_cons, List.nodup_append, List.nodup_cons] at hd
    have hs₁ : I (l₁.foldl f s) := List.foldlRecOn _ _ hs fun s hs kv _ => hI s kv hs
    rw [hsplit, List.foldl_append, List.foldl_cons, hskip l₂ _ (hI _ _ hs₁) hd.2.1.1,
      hstep _ _ _ hs₁, hskip l₁ s hs fun hm => hd.2.2 k hm k List.mem_cons_self rfl]
    rfl

/-- A loop that deletes the entries it does not keep. -/
def sift (keep : K → V → Bool) (l : List (K × V)) (m : Map K V) : Map K V :=
  l.foldl (fun m kv => if keep kv.1 kv.2 then m else m.erase kv.1) m

lemma lookup_sift_kept {keep : K → V → Bool} {l : List (K × V)} {k : K}
    (h : ∀ v, (k, v) ∈ l → keep k v = true) (m : Map K V) :
    (sift keep l m).lookup k = m.lookup k := by
  induction l generalizing m with
  | nil => rfl
  | cons kv l ih =>
    refine (ih (fun v hv => h v (List.mem_cons_of_mem _ hv)) _).trans ?_
    dsimp only
    split_ifs with hkeep
    · rfl
    · apply Finmap.lookup_erase_ne
      rintro rfl
      exact hkeep (h kv.2 List.mem_cons_self)

lemma lookup_sift_none {keep : K → V → Bool} {l : List (K × V)} {m : Map K V} {k : K}
    (h : m.lookup k = none) : (sift keep l m).lookup k = none := by
  induction l generalizing m with
  | nil => exact h
  | cons kv l ih =>
    apply ih
    dsimp only
    split_ifs
    · exact h
    · rw [lookup_erase_ite, h, ite_self]

lemma lookup_sift_dropped {keep : K → V → Bool} {l : List (K × V)} {k : K} {v : V}
    (hmem : (k, v) ∈ l) (h : keep k v = false) (m : Map K V) :
    (sift keep l m).lookup k = none := by
  induction l generalizing m with
  | nil => cases hmem
  | cons kv l ih =>
    rcases List.mem_cons.mp hmem with rfl | htail
    · change (sift keep l (if keep k v then m else m.erase k)).lookup k = none
      apply lookup_sift_none
      rw [h]
      exact Finmap.lookup_erase k m
    · exact ih htail _

lemma lookup_sift {order : List K} {m : Map K V} (h : Visits order m) (keep : K → V → Bool)
    (k : K) : (sift keep (entries order m) m).lookup k = (m.lookup k).filter (keep k) := by
  cases hk : m.lookup k with
  | none => exact lookup_sift_none hk
  | some v =>
    cases hv : keep k v with
    | true =>
      rw [lookup_sift_kept, hk]
      · simp [Option.filter, hv]
      · intro x hx
        rw [lookup_of_mem_entries hx] at hk
        rw [Option.some.inj hk, hv]
    | false =>
      rw [lookup_sift_dropped ((mem_entries_iff h).mpr hk) hv]
      simp [Option.filter, hv]

lemma mem_loop_sift {S : Type*} (ledger : S → Map K V) {f : S → K × V → S} {keep : Finset K}
    (hf : ∀ s kv, ledger (f s kv) = if kv.1 ∈ keep then ledger s else (ledger s).erase kv.1)
    {order : List K} {s : S} (h : Visits order (ledger s)) (k : K) :
    k ∈ ledger ((entries order (ledger s)).foldl f s) ↔ k ∈ ledger s ∧ k ∈ keep := by
  have hsift : ∀ l s, ledger (l.foldl f s) =
      sift (fun k _ => decide (k ∈ keep)) l (ledger s) := by
    intro l
    induction l with
    | nil => exact fun _ => rfl
    | cons kv l ih =>
      intro s
      rw [List.foldl_cons, ih, hf]
      simp only [sift, List.foldl_cons, decide_eq_true_eq]
  rw [hsift, Finmap.mem_iff, lookup_sift h, Finmap.mem_iff]
  simp [Option.filter_eq_some_iff]

def sortedKeys {K : Type*} [LinearOrder K] (m : Map K V) : List K :=
  Quot.liftOn m.keys.val (List.insertionSort (· ≤ ·)) fun a b h =>
    List.Perm.eq_of_pairwise' (List.pairwise_insertionSort _ a) (List.pairwise_insertionSort _ b)
      (((List.perm_insertionSort _ a).trans h).trans (List.perm_insertionSort _ b).symm)

lemma sortedKeys_perm {K : Type*} [LinearOrder K] (m : Map K V) :
    (sortedKeys m : Multiset K) = m.keys.val := by
  rw [sortedKeys]
  induction m.keys.val using Quot.inductionOn with
  | _ l => exact Quot.sound (List.perm_insertionSort _ l)

lemma sortedKeys_visits {K : Type*} [LinearOrder K] (m : Map K V) : Visits (sortedKeys m) m := by
  have h := sortedKeys_perm m
  refine ⟨?_, fun k => ?_⟩
  · rw [← Multiset.coe_nodup, h]
    exact m.keys.nodup
  · rw [← Multiset.mem_coe, h]
    exact Finmap.mem_keys

section Total
variable [AddCommMonoid M]

def total (m : Map K V) (w : K → V → M) : M := ∑ k ∈ m.keys, (m.lookup k).elim 0 (w k)

lemma total_eq_sum {m : Map K V} {s : Finset K} (h : m.keys ⊆ s) (w : K → V → M) :
    total m w = ∑ k ∈ s, (m.lookup k).elim 0 (w k) := by
  apply Finset.sum_subset h
  intro k _ hk
  rw [Finmap.mem_keys, ← Finmap.lookup_eq_none] at hk
  rw [hk]
  rfl

@[simp] lemma total_empty (w : K → V → M) : total (∅ : Map K V) w = 0 := by
  simp [total, Finmap.keys_empty]

lemma total_congr (m : Map K V) {w w' : K → V → M}
    (h : ∀ k v, m.lookup k = some v → w k v = w' k v) : total m w = total m w' := by
  apply Finset.sum_congr rfl
  intro k _
  cases hk : m.lookup k with
  | none => rfl
  | some v => exact h k v hk

lemma map_total {N : Type*} [AddCommMonoid N] (f : M →+ N) (m : Map K V) (w : K → V → M) :
    f (total m w) = total m fun k v => f (w k v) := by
  rw [total, total, map_sum]
  apply Finset.sum_congr rfl
  intro k _
  cases m.lookup k with
  | none => exact map_zero f
  | some v => rfl

lemma total_eq_zero (m : Map K V) {w : K → V → M}
    (h : ∀ k v, m.lookup k = some v → w k v = 0) : total m w = 0 := by
  apply Finset.sum_eq_zero
  intro k _
  cases hk : m.lookup k with
  | none => rfl
  | some v => exact h k v hk

lemma total_erase {m : Map K V} {k : K} {v : V} (h : m.lookup k = some v) (w : K → V → M) :
    w k v + total (m.erase k) w = total m w := by
  have hk : k ∈ m.keys := Finmap.mem_keys.mpr (Finmap.mem_of_lookup_eq_some h)
  rw [total, total, Finmap.keys_erase, ← Finset.add_sum_erase _ _ hk, h]
  congr 1
  apply Finset.sum_congr rfl
  intro j hj
  rw [Finmap.lookup_erase_ne (Finset.ne_of_mem_erase hj)]

lemma total_insert {m : Map K V} {k : K} (h : m.lookup k = none) (v : V) (w : K → V → M) :
    total (m.insert k v) w = w k v + total m w := by
  have he : (m.insert k v).erase k = m := by
    apply Finmap.ext_lookup
    intro j
    rw [lookup_erase_ite]
    split_ifs with hj
    · rw [hj, h]
    · exact Finmap.lookup_insert_of_ne _ hj
  rw [← total_erase (Finmap.lookup_insert m) w, he]

lemma total_overwrite {m : Map K V} {k : K} {v : V} (h : m.lookup k = some v) (v' : V)
    (w : K → V → M) : w k v + total (m.insert k v') w = w k v' + total m w := by
  rw [← insert_erase, total_insert (Finmap.lookup_erase k m), ← total_erase h w]
  exact add_left_comm _ _ _

lemma sum_entries {order : List K} {m : Map K V} (h : Visits order m) (w : K → V → M) :
    ((entries order m).map fun kv => w kv.1 kv.2).sum = total m w := by
  rw [total, ← visits_keys h, List.sum_toFinset _ h.1, entries]
  have hmem : ∀ k ∈ order, ∃ v, m.lookup k = some v := fun k hk =>
    Finmap.mem_iff.mp ((h.2 k).mp hk)
  clear h
  induction order with
  | nil => rfl
  | cons k order ih =>
    obtain ⟨v, hv⟩ := hmem k List.mem_cons_self
    have hrest := ih fun j hj => hmem j (List.mem_cons_of_mem _ hj)
    rw [List.filterMap_cons_some (by rw [hv]; rfl), List.map_cons, List.map_cons, List.sum_cons,
      List.sum_cons, hrest, hv]
    rfl

lemma total_update {m m' : Map K V} {w w' : K → V → M} (k : K)
    (hmap : ∀ j, j ≠ k → m'.lookup j = m.lookup j) (hw : ∀ j v, j ≠ k → w' j v = w j v) :
    (m.lookup k).elim 0 (w k) + total m' w' = (m'.lookup k).elim 0 (w' k) + total m w := by
  have hsplit : ∀ (x : Map K V) (u : K → V → M),
      total x u = (x.lookup k).elim 0 (u k) + total (x.erase k) u := by
    intro x u
    cases hk : x.lookup k with
    | some v => exact (total_erase hk u).symm
    | none =>
      have he : x.erase k = x := by
        apply Finmap.ext_lookup
        intro j
        rw [lookup_erase_ite]
        split_ifs with hj
        · rw [hj, hk]
        · rfl
      rw [he]
      exact (zero_add _).symm
  have herase : m'.erase k = m.erase k := by
    apply Finmap.ext_lookup
    intro j
    rw [lookup_erase_ite, lookup_erase_ite]
    split_ifs with hj
    · rfl
    · exact hmap j hj
  have hrest : total (m'.erase k) w' = total (m.erase k) w := by
    rw [herase]
    refine total_congr _ fun j v hj => hw j v ?_
    rintro rfl
    rw [Finmap.lookup_erase] at hj
    cases hj
  rw [hsplit m' w', hsplit m w, hrest]
  exact add_left_comm _ _ _

lemma total_map {W : Type*} {m : Map K V} {m' : Map K W} {f : V → W}
    (h : ∀ k, m'.lookup k = (m.lookup k).map f) (w : K → W → M) :
    total m' w = total m fun k v => w k (f v) := by
  have hkeys : m'.keys = m.keys := by
    ext k
    rw [Finmap.mem_keys, Finmap.mem_keys, Finmap.mem_iff, Finmap.mem_iff, h]
    cases m.lookup k <;> simp
  rw [total, total, hkeys]
  apply Finset.sum_congr rfl
  intro k _
  rw [h]
  cases m.lookup k <;> rfl

lemma total_filter {m m' : Map K V} {P : K → V → Bool} {w : K → V → M}
    (h : ∀ k, m'.lookup k = (m.lookup k).filter (P k))
    (hw : ∀ k v, m.lookup k = some v → P k v = false → w k v = 0) : total m' w = total m w := by
  have hsub : m'.keys ⊆ m.keys := by
    intro k hk
    obtain ⟨v, hv⟩ := Finmap.mem_iff.mp (Finmap.mem_keys.mp hk)
    rw [h, Option.filter_eq_some_iff] at hv
    exact Finmap.mem_keys.mpr (Finmap.mem_of_lookup_eq_some hv.1)
  have hterm : ∀ k ∈ m.keys, (m'.lookup k).elim 0 (w k) = (m.lookup k).elim 0 (w k) := by
    intro k _
    rw [h]
    cases hk : m.lookup k with
    | none => rfl
    | some v =>
      cases hP : P k v with
      | true => simp [Option.filter, hP]
      | false => simp [Option.filter, hP, hw k v hk hP]
  rw [total_eq_sum hsub, total, Finset.sum_congr rfl hterm]

end Total

section Order
variable [AddCommMonoid M] [PartialOrder M] [IsOrderedAddMonoid M]

lemma total_nonneg (m : Map K V) {w : K → V → M}
    (h : ∀ k v, m.lookup k = some v → 0 ≤ w k v) : 0 ≤ total m w := by
  apply Finset.sum_nonneg
  intro k _
  cases hk : m.lookup k with
  | none => exact le_rfl
  | some v => exact h k v hk

lemma total_erase_le {m : Map K V} {w : K → V → M} (k : K)
    (h : ∀ j v, m.lookup j = some v → 0 ≤ w j v) : total (m.erase k) w ≤ total m w := by
  cases hk : m.lookup k with
  | some v =>
    rw [← total_erase hk w]
    exact le_add_of_nonneg_left (h k v hk)
  | none =>
    refine le_of_eq (congrArg (fun x => total x w) (Finmap.ext_lookup fun j => ?_))
    rw [lookup_erase_ite]
    split_ifs with hj
    · rw [hj, hk]
    · rfl

lemma total_le_total (m : Map K V) {w w' : K → V → M}
    (h : ∀ k v, m.lookup k = some v → w k v ≤ w' k v) : total m w ≤ total m w' := by
  apply Finset.sum_le_sum
  intro k _
  cases hk : m.lookup k with
  | none => exact le_rfl
  | some v => exact h k v hk

lemma sum_lookup_le_total {m : Map K V} {w : K → V → M}
    (h : ∀ k v, m.lookup k = some v → 0 ≤ w k v) {ks : List K} (hks : ks.Nodup) :
    (ks.map fun k => (m.lookup k).elim 0 (w k)).sum ≤ total m w := by
  rw [total_eq_sum (s := ks.toFinset ∪ m.keys) Finset.subset_union_right, ← List.sum_toFinset _ hks]
  refine Finset.sum_le_sum_of_subset_of_nonneg Finset.subset_union_left fun k _ _ => ?_
  cases hk : m.lookup k with
  | none => exact le_rfl
  | some v => exact h k v hk

end Order

end AdScheduler.KeyedMap
