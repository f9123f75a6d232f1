import AdScheduler.Reclaim

/-! The effect of an eviction on the tree: once the deletion of its pods is observed, each
queue is charged less by what they had booked under it. -/
namespace AdScheduler.Eviction
open KeyedMap Resources QueueTree TreeShape Manager Conservation EngineCore Requests Placement
open CoordinatorCore Preemption Reclaim

section Release
variable {V : Type*} [CommRing V] [LinearOrder V]

/-- The engine after the bookings of some pods are released. -/
def release (e : Engine V) (uids : List String) : Engine V := uids.foldl Engine.observeDeleted e

def share (book : Map String (BookRec V)) (ix : Index V) (n d uid : String) : V :=
  (book.lookup uid).elim 0 fun rec => if Charges ix rec.leaf n then get rec.req d else 0

@[simp] lemma releaseBookLocked_index (t : QueueManager V) (rec : BookRec V) :
    (releaseBookLocked t rec).index = t.index := by
  unfold releaseBookLocked
  cases rec.state <;> exact mutate_index _ _ _

lemma releaseBookLocked_used (t : QueueManager V) (rec : BookRec V) (n d : String) :
    get ((releaseBookLocked t rec).used n) d =
      get (t.used n) d - if Charges t.index rec.leaf n then get rec.req d else 0 := by
  have hneg : ∀ x : V, get (t.used n) d + (if Charges t.index rec.leaf n then -x else 0) =
      get (t.used n) d - if Charges t.index rec.leaf n then x else 0 := by
    intro x
    split_ifs <;> simp [sub_eq_add_neg]
  unfold releaseBookLocked
  cases rec.state with
  | reserved =>
    have hmoved := mutate_used (moves_unreserve rec.req) t rec.leaf n d
    simpa [usedHom, QueueManager.unreserve, ← hneg] using hmoved
  | committed =>
    have hmoved := mutate_used (moves_release rec.req) t rec.leaf n d
    simpa [usedHom, QueueManager.release, ← hneg] using hmoved

lemma observeDeleted_used {e : Engine V} {t : QueueManager V} (ht : e.tree = some t)
    (uid : String) :
    ∃ t', (e.observeDeleted uid).tree = some t' ∧ t'.index = t.index ∧
      ∀ n d, get (t'.used n) d = get (t.used n) d - share e.book t.index n d uid := by
  cases hrec : e.book.lookup uid with
  | none =>
    refine ⟨t, ?_, rfl, fun n d => ?_⟩
    · simpa [Engine.observeDeleted, hrec] using ht
    · simp [share, hrec]
  | some rec =>
    refine ⟨releaseBookLocked t rec, ?_, releaseBookLocked_index t rec, fun n d => ?_⟩
    · simp [Engine.observeDeleted, hrec, ht]
    · simp [share, hrec, releaseBookLocked_used]

lemma observeDeleted_lookup (e : Engine V) {uid u : String} (h : u ≠ uid) :
    (e.observeDeleted uid).book.lookup u = e.book.lookup u := by
  unfold Engine.observeDeleted
  split
  · rfl
  · simp [h]

/-- Observed deletions of different pods add up. -/
theorem release_used {e : Engine V} {t : QueueManager V} (ht : e.tree = some t)
    {uids : List String} (hd : uids.Nodup) :
    ∃ t', (release e uids).tree = some t' ∧ t'.index = t.index ∧
      ∀ n d, get (t'.used n) d =
        get (t.used n) d - (uids.map (share e.book t.index n d)).sum := by
  induction uids generalizing e t with
  | nil => exact ⟨t, ht, rfl, by simp⟩
  | cons uid rest ih =>
    obtain ⟨t₁, ht₁, hix₁, hused₁⟩ := observeDeleted_used ht uid
    obtain ⟨t', ht', hix', hused'⟩ := ih ht₁ (List.nodup_cons.mp hd).2
    refine ⟨t', ht', hix'.trans hix₁, fun n d => ?_⟩
    have hshare : rest.map (share (e.observeDeleted uid).book t₁.index n d) =
        rest.map (share e.book t.index n d) := by
      apply List.map_congr_left
      intro u hu
      have hne : u ≠ uid := fun he => (List.nodup_cons.mp hd).1 (he ▸ hu)
      rw [share, share, observeDeleted_lookup e hne, hix₁]
    rw [hused', hused₁, hshare, List.map_cons, List.sum_cons]
    ring

/-- What a pod is charged under a queue from the leaf it is routed to. -/
def podShare (m : QueueManager V) (n d : String) (p : Pod V) : V :=
  match resolve m p.placementKey with
  | .error _ => 0
  | .ok leaf => if Charges m.index leaf n then get (effectiveRequest p) d else 0

/-- The pod is booked with its request on the leaf it is routed to. -/
def BookedOn (e : Engine V) (m : QueueManager V) (p : Pod V) : Prop :=
  ∀ leaf, resolve m p.placementKey = .ok leaf →
    ∃ state, e.book.lookup p.uid = some ⟨state, leaf, effectiveRequest p⟩

instance (e : Engine V) (m : QueueManager V) (p : Pod V) : Decidable (BookedOn e m p) :=
  decidable_of_iff ((match resolve m p.placementKey with
    | .error _ => true
    | .ok leaf => (e.book.lookup p.uid).any fun rec =>
        decide (rec.leaf = leaf) && decide (rec.req = effectiveRequest p)) = true) (by
    unfold BookedOn
    cases resolve m p.placementKey with
    | error err => simp
    | ok leaf =>
      simp only [Except.ok.injEq, forall_eq', Option.any_eq_true, Bool.and_eq_true,
        decide_eq_true_eq]
      constructor
      · rintro ⟨⟨state, l, req⟩, hrec, rfl, rfl⟩
        exact ⟨state, hrec⟩
      · rintro ⟨state, hrec⟩
        exact ⟨_, hrec, rfl, rfl⟩)

lemma BookedOn.share {e : Engine V} {m : QueueManager V} {p : Pod V} (h : BookedOn e m p)
    {leaf : String} (hleaf : resolve m p.placementKey = .ok leaf) (n d : String) :
    share e.book m.index n d p.uid = podShare m n d p := by
  obtain ⟨state, hrec⟩ := h leaf hleaf
  simp [Eviction.share, podShare, hrec, hleaf]

lemma exists_taken {S : List (Victim V)} {D : List (Pod V)} (h : S.Subperm (D.map victimOf)) :
    ∃ P : List (Pod V), P.Sublist D ∧ S.Perm (P.map victimOf) := by
  obtain ⟨l, hperm, hsub⟩ := h
  obtain ⟨P, hP, rfl⟩ := List.sublist_map_iff.mp hsub
  exact ⟨P, hP, hperm.symm⟩

/-- Releasing victims takes the shares of their pods off every queue. -/
theorem release_victims {e : Engine V} {m : QueueManager V} (hm : e.tree = some m)
    {P : List (Pod V)} (hd : (P.map Pod.uid).Nodup)
    (hbooked : ∀ p ∈ P, BookedOn e m p ∧ ∃ leaf, resolve m p.placementKey = .ok leaf)
    {S : List (Victim V)} (hS : S.Perm (P.map victimOf)) :
    ∃ m', (release e (S.map Victim.uid)).tree = some m' ∧ m'.index = m.index ∧
      ∀ n d, get (m'.used n) d = get (m.used n) d - (P.map (podShare m n d)).sum := by
  have huids : (S.map Victim.uid).Perm (P.map Pod.uid) := by
    have hmap := hS.map Victim.uid
    rwa [List.map_map, show Victim.uid ∘ victimOf (V := V) = Pod.uid from rfl] at hmap
  obtain ⟨m', hm', hix, hused⟩ := release_used hm (huids.nodup_iff.mpr hd)
  refine ⟨m', hm', hix, fun n d => ?_⟩
  have hshares : (P.map Pod.uid).map (share e.book m.index n d) = P.map (podShare m n d) := by
    rw [List.map_map, List.map_eq_map_iff]
    intro p hp
    obtain ⟨hon, leaf, hleaf⟩ := hbooked p hp
    exact hon.share hleaf n d
  rw [hused, (huids.map (share e.book m.index n d)).sum_eq, hshares]

end Release

section Floors
variable {m : QueueManager ℤ}

/-- Every entry of the pod's request is non-negative. -/
def NonNegative (p : Pod ℤ) : Prop :=
  ∀ d ∈ (effectiveRequest p).keys, 0 ≤ get (effectiveRequest p) d

instance (p : Pod ℤ) : Decidable (NonNegative p) := by
  unfold NonNegative; infer_instance

lemma NonNegative.get {p : Pod ℤ} (h : NonNegative p) (d : String) :
    0 ≤ Resources.get (effectiveRequest p) d :=
  get_nonneg_of_keys h d

lemma podShare_nonneg {p : Pod ℤ} (h : NonNegative p) (n d : String) : 0 ≤ podShare m n d p := by
  unfold podShare
  split
  · exact le_rfl
  · split_ifs
    · exact h.get d
    · exact le_rfl

/-- A routing that sends pods only where placement does. -/
def Routes (m : QueueManager ℤ) (route : Pod ℤ → Option String) : Prop :=
  ∀ p leaf, route p = some leaf → resolve m p.placementKey = .ok leaf

lemma sum_podShare_leaf {route : Pod ℤ → Option String} (hroute : Routes m route) {l : String}
    (hl : m.isLeafPath l = true) {P : List (Pod ℤ)} (hP : ∀ p ∈ P, route p ≠ none) (d : String) :
    (P.map (podShare m l d)).sum =
      ((P.filter fun p => decide (route p = some l)).map fun p =>
        get (effectiveRequest p) d).sum := by
  have hown : P.map (podShare m l d) =
      P.map fun p => if route p = some l then get (effectiveRequest p) d else 0 := by
    rw [List.map_eq_map_iff]
    intro p hp
    obtain ⟨leaf, hleaf⟩ := Option.ne_none_iff_exists'.mp (hP p hp)
    simp [podShare, hroute p leaf hleaf, charges_leaf_iff m hl, hleaf]
  rw [hown, List.sum_map_ite]
  simp

lemma taken_within_budget (rt : Runtime ℤ) (spare : Pod ℤ → Bool) {route : Pod ℤ → Option String}
    (hroute : Routes m route) {pods P : List (Pod ℤ)}
    (hP : P.Sublist (drainDonors rt m spare (groupByLeaf route pods)))
    (hnonneg : ∀ p ∈ pods, route p ≠ none → NonNegative p) {l : String} {q : Queue ℤ}
    (hq : m.index.lookup l = some q) (hleaf : q.isLeaf = true) (d : String) :
    (P.map (podShare m l d)).sum ≤ max 0 (get (m.used l) d - get q.guaranteed d) := by
  set D := drainDonors rt m spare (groupByLeaf route pods)
  have hl : m.isLeafPath l = true := by simp [QueueManager.isLeafPath, hq, hleaf]
  have hrouted : ∀ p ∈ D, p ∈ pods ∧ route p ≠ none := by
    intro p hp
    obtain ⟨hmem, leaf, hr⟩ := mem_drainDonors rt m spare route pods hp
    exact ⟨hmem, by simp [hr]⟩
  have hmore : (P.map (podShare m l d)).sum ≤ (D.map (podShare m l d)).sum := by
    apply (hP.map _).sum_le_sum
    intro x hx
    obtain ⟨p, hp, rfl⟩ := List.mem_map.mp hx
    exact podShare_nonneg (hnonneg p (hrouted p hp).1 (hrouted p hp).2) l d
  have hsum := sum_podShare_leaf hroute hl (fun p hp => (hrouted p hp).2) d
  rw [filter_drainDonors] at hsum
  exact hmore.trans (hsum.trans_le (drainDonor_bound rt spare hq _ d))

lemma donor_above_guarantee (rt : Runtime ℤ) (spare : Pod ℤ → Bool)
    {route : Pod ℤ → Option String} (hroute : Routes m route) {pods : List (Pod ℤ)} {p : Pod ℤ}
    (hp : p ∈ drainDonors rt m spare (groupByLeaf route pods))
    (hnonneg : ∀ p ∈ pods, route p ≠ none → NonNegative p) {l d : String} {q : Queue ℤ}
    (hl : resolve m p.placementKey = .ok l) (hq : m.index.lookup l = some q)
    (hpos : 0 < get (effectiveRequest p) d) : get q.guaranteed d < get (m.used l) d := by
  have hleaf := resolve_isLeafPath hl
  have hown : podShare m l d p = get (effectiveRequest p) d := by
    simp [podShare, hl, charges_leaf_iff m hleaf]
  have hisLeaf : q.isLeaf = true := by simpa [QueueManager.isLeafPath, hq] using hleaf
  have hbudget := taken_within_budget rt spare hroute (List.singleton_sublist.mpr hp) hnonneg hq
    hisLeaf d
  simp only [List.map_cons, List.map_nil, List.sum_singleton, hown] at hbudget
  omega

end Floors

/-- A leaf with a guarantee that takes the pods of one service account. -/
def guaranteedLeaf (name serviceAccount : String) (guaranteed : ℤ) : Spec ℤ :=
  { bareSpec name ∅ [] with
    guaranteed := Finmap.singleton "cpu" guaranteed, serviceAccounts := [serviceAccount] }

/-- A small tenant for concrete runs: two leaves that share a maximum and a guarantee. -/
def twoShares (teamMax guaranteedA guaranteedB : ℤ) : Spec ℤ :=
  bareSpec rootName ∅
    [{ bareSpec "team" (Finmap.singleton "cpu" teamMax)
        [guaranteedLeaf "a" "alice" guaranteedA, guaranteedLeaf "b" "bob" guaranteedB] with
      guaranteed := Finmap.singleton "cpu" (guaranteedA + guaranteedB) }]

def runningPod (uid ns serviceAccountName : String) (cpu : ℤ) : Pod ℤ :=
  { barePod uid ns serviceAccountName cpu with nodeName := "node", phase := .running }

/-- A coordinator that has seen the pods of its store. -/
def populated (t : QueueManager ℤ) (pods : List (Pod ℤ)) : Coordinator ℤ :=
  { pods.foldl Coordinator.onPodUpsert (newCoordinator (engineOn 60 t)) with pods := pods }

end AdScheduler.Eviction
