import AdScheduler.Reclaim

/-! Preemption stays in the tenant: the textual fence test is tree ancestry, and every
victim is found below the nearest fence around the asking leaf. -/
namespace AdScheduler.TenantFences
open KeyedMap Resources QueueTree TreeShape Manager Conservation Requests Placement Fences
open Preemption Reclaim

variable {V : Type*} [CommRing V] [LinearOrder V]

/-- The deepest fence among a queue and its ancestors; a fence is declared or stands
directly below the root. -/
structure NearestFence (ix : Index V) (l : String) (f : Queue V) : Prop where
  known : ix.lookup f.path = some f
  above : Within ix l f.path
  fence : f.fence = true ∨ f.parent = some rootName
  deepest : ∀ n, ix.lookup n.path = some n → Within ix l n.path →
    (n.fence = true ∨ n.parent = some rootName) → Within ix f.path n.path

lemma isFence_iff {ix : Index V} (hs : Shape ix) {q : Queue V} (hq : ix.lookup q.path = some q) :
    isFence ix q = true ↔ q.fence = true ∨ q.parent = some rootName := by
  rw [isFence, Bool.or_eq_true, isTopLevel_iff hs hq]

lemma fenceBoundary_nearest {m : QueueManager V} {l : String} {q : Queue V}
    (hq : m.index.lookup l = some q) (hl : l ≠ rootName) :
    ∃ f, fenceBoundary m l = some f.path ∧ NearestFence m.index l f := by
  have hs := m.wf.toShape
  have hmem := Finmap.mem_of_lookup_eq_some hq
  have hdeep := nearestFence_deepest hs hq fun hp => hl (hs.root_only hq hp)
  have hknown := lookup_of_mem_pathUp hs hdeep.above
  refine ⟨nearestFence m.index q, by simp [fenceBoundary, hq], hknown, ?_, ?_,
    fun n hn hin hf => ?_⟩
  · exact (mem_pathUp_iff_within hs hmem hknown).mp hdeep.above
  · exact (isFence_iff hs hknown).mp hdeep.fence
  · have hup := (mem_pathUp_iff_within hs hmem hn).mpr hin
    have habove := hdeep.deepest n hup ((isFence_iff hs hn).mpr hf)
    exact (mem_pathUp_iff_within hs (Finmap.mem_of_lookup_eq_some hknown) hn).mp habove

/-- The pod is routed to a leaf below the fence around the asker, in the same namespace. -/
def Confined (m : QueueManager V) (l : String) (p : Pod V) : Prop :=
  ∃ leaf f, resolve m p.placementKey = .ok leaf ∧ fenceBoundary m l = some f ∧
    Within m.index leaf f ∧ namespaceOf leaf = namespaceOf l

lemma leaf_ne_root {m : QueueManager V} {l leaf : String} {id : Identity}
    (hl : m.isLeafPath l = true) (h : resolve m id = .ok leaf) : l ≠ rootName := by
  rintro rfl
  have hs := m.wf.toShape
  have hns : rootName ++ "." ++ id.ns ∈ m.index := by
    by_contra hno
    simp [resolve, hno] at h
  obtain ⟨x, hx⟩ := Finmap.mem_iff.mp hns
  have hparent : x.parent ≠ none := by
    intro hp
    have hlen := congrArg String.length (hs.root_only hx hp)
    have hdot : ".".length = 1 := by decide
    simp only [String.length_append, hdot] at hlen
    omega
  obtain ⟨n, hn, htop⟩ := exists_topLevel hs hx hparent
  have hlook := lookup_of_mem_pathUp hs hn
  have hchild : n.path ∈ childPaths m.index rootName :=
    (mem_childPaths_iff_parent m.wf).mpr ⟨n, hlook, (isTopLevel_iff hs hlook).mp htop⟩
  simp [childPaths_of_isLeafPath hl] at hchild

lemma confined_of_within {m : QueueManager V} {l leaf : String} {p : Pod V}
    (hl : m.isLeafPath l = true) (hleaf : resolve m p.placementKey = .ok leaf)
    (hin : pathWithinSubtree leaf ((fenceBoundary m l).getD "") = true) : Confined m l p := by
  have hs := m.wf.toShape
  have hne := leaf_ne_root hl hleaf
  obtain ⟨q, hq, _⟩ := (isLeafPath_iff m l).mp hl
  obtain ⟨x, hx, _⟩ := (isLeafPath_iff m leaf).mp (resolve_isLeafPath hleaf)
  obtain ⟨f, hf, hnear⟩ := fenceBoundary_nearest hq hne
  have hbelow : pathWithinSubtree leaf (nearestFence m.index q).path = true := by
    simpa [fenceBoundary, hq] using hin
  rw [hf, Option.getD_some] at hin
  refine ⟨leaf, f.path, hleaf, hf, ?_, ?_⟩
  · have hmem := Finmap.mem_of_lookup_eq_some hx
    have hup := (pathWithinSubtree_iff_ancestor hs hmem hnear.known).mp hin
    exact (mem_pathUp_iff_within hs hmem hnear.known).mp hup
  · exact namespaceOf_within_fence hs hq (fun hp => hne (hs.root_only hq hp)) hbelow

omit [CommRing V] [LinearOrder V] in
lemma byUID_lookup (pods : List (Pod V)) :
    (∀ uid p, (byUID pods).lookup uid = some p → p ∈ pods) ∧
      ∀ p ∈ pods, ∃ p', (byUID pods).lookup p.uid = some p' := by
  induction pods using List.reverseRecOn with
  | nil => simp [byUID]
  | append_singleton rest x ih =>
    have hlast : byUID (rest ++ [x]) = (byUID rest).insert x.uid x := by simp [byUID]
    simp only [hlast, lookup_insert_ite, List.mem_append, List.mem_singleton]
    refine ⟨fun uid p hp => ?_, fun p hp => ?_⟩
    · split_ifs at hp
      · cases hp
        exact .inr rfl
      · exact .inl (ih.1 uid p hp)
    · split_ifs with hu
      · exact ⟨x, rfl⟩
      · rcases hp with hp | rfl
        · exact ih.2 p hp
        · exact absurd rfl hu

/-- Every victim stands for pods that are confined, and so is the pod that is evicted for
it. -/
def VictimsConfined (m : QueueManager V) (l : String)
    (victims : List (Victim V) × Map String (Pod V)) : Prop :=
  ∀ v ∈ victims.1, (∃ p, victimOf p = v ∧ Confined m l p) ∧
    ∃ p, victims.2.lookup v.uid = some p ∧ Confined m l p

lemma victimsConfined_of_pods {m : QueueManager V} {l : String} {pods : List (Pod V)}
    (h : ∀ p ∈ pods, Confined m l p) : VictimsConfined m l (pods.map victimOf, byUID pods) := by
  intro v hv
  obtain ⟨p, hp, rfl⟩ := List.mem_map.mp hv
  obtain ⟨p', hp'⟩ := (byUID_lookup pods).2 p hp
  exact ⟨⟨p, rfl, h p hp⟩, p', hp', h p' ((byUID_lookup pods).1 p.uid p' hp')⟩

/-- The textual test is ancestry, the boundary is the nearest fence, and both ways to
preempt keep to the namespace of the asking leaf. -/
theorem preemption_stays_in_tenant (m : QueueManager V) :
    (∀ a b, a ∈ m.index → b ∈ m.index →
      (pathWithinSubtree a b = true ↔ Within m.index a b)) ∧
    (∀ l, l ∈ m.index → l ≠ rootName →
      ∃ f, fenceBoundary m l = some f.path ∧ NearestFence m.index l f) ∧
    ∀ (rt : Runtime V) (pods : List (Pod V)) (l : String), m.isLeafPath l = true →
      (∀ prio, VictimsConfined m l (buildVictims rt m pods l prio)) ∧
      ∀ prio schedName, VictimsConfined m l (eligibleVictims rt m pods prio schedName l) := by
  have hs := m.wf.toShape
  refine ⟨fun a b ha hb => ?_, fun l hl hne => ?_, fun rt pods l hl => ⟨fun prio => ?_,
    fun prio schedName => ?_⟩⟩
  · obtain ⟨q, hq⟩ := Finmap.mem_iff.mp hb
    exact (pathWithinSubtree_iff_ancestor hs ha hq).trans (mem_pathUp_iff_within hs ha hq)
  · obtain ⟨q, hq⟩ := Finmap.mem_iff.mp hl
    exact fenceBoundary_nearest hq hne
  · apply victimsConfined_of_pods
    intro p hp
    obtain ⟨_, leaf, hleaf⟩ := mem_drainDonors rt m _ _ pods hp
    obtain ⟨hres, _, hin⟩ := donorLeaf_some hleaf
    exact confined_of_within hl hres hin
  · apply victimsConfined_of_pods
    intro p hp
    obtain ⟨_, leaf, hleaf⟩ := mem_drainDonors rt m _ _ pods hp
    obtain ⟨_, _, hres, hin⟩ := nodeDonorLeaf_some hleaf
    exact confined_of_within hl hres hin

def leafFor (name serviceAccount : String) : Spec ℤ :=
  { bareSpec name ∅ [] with serviceAccounts := [serviceAccount] }

def fencedTenants : Spec ℤ :=
  bareSpec rootName ∅
    [bareSpec "team" ∅
      [{ bareSpec "prod" ∅ [leafFor "a" "alice", leafFor "b" "bob"] with fence := true },
        leafFor "dev" "carol"],
      bareSpec "team-x" ∅ [leafFor "jobs" "alice"]]

theorem inner_fence_confines :
    let m := (treeOf fencedTenants (by decide +kernel)).walkUp "root.team.prod.b"
      (Usage.allocate (Finmap.singleton "cpu" 2))
    let pods := [barePod "b1" "team" "bob" 2, barePod "c1" "team" "carol" 2,
      barePod "x1" "team-x" "alice" 2]
    ¬ Within m.index "root.team-x.jobs" "root.team" ∧
      fenceBoundary m "root.team.prod.a" = some "root.team.prod" ∧
      (buildVictims (sortedRuntime ℤ) m pods "root.team.prod.a" 0).1.map Victim.uid = ["b1"] ∧
      VictimsConfined m "root.team.prod.a"
        (buildVictims (sortedRuntime ℤ) m pods "root.team.prod.a" 0) := by
  intro m pods
  have h := preemption_stays_in_tenant m
  have htext : pathWithinSubtree "root.team-x.jobs" "root.team" = false := by decide
  have hleaf : m.isLeafPath "root.team.prod.a" = true := by decide +kernel
  refine ⟨fun hin => ?_, by decide +kernel, by decide +kernel,
    (h.2.2 (sortedRuntime ℤ) pods _ hleaf).1 0⟩
  have hyes := (h.1 "root.team-x.jobs" "root.team" (by decide +kernel) (by decide +kernel)).mpr hin
  rw [htext] at hyes
  cases hyes

end AdScheduler.TenantFences
