import AdScheduler.Manager
import AdScheduler.Requests

/-! Routing of a pod's identity to a leaf queue, after `pkg/queue/placement/placement.go`. -/
namespace AdScheduler.Placement
open KeyedMap Resources QueueTree TreeShape Manager Requests

inductive PlacementErr
  | notOnboarded (ns : String)
  | unmapped (id : Identity)
  deriving DecidableEq

variable {V : Type*} [CommRing V] [LinearOrder V]

def leaves (ix : Index V) : List (Queue V) := (all ix).filter Queue.isLeaf

/-- The loop over the leaves: an exact match ends it, a default leaf is remembered. -/
def scanLeaves (id : Identity) : List (Queue V) → String → Except PlacementErr String
  | [], defaultLeaf => if defaultLeaf ≠ "" then .ok defaultLeaf else .error (.unmapped id)
  | leaf :: rest, defaultLeaf =>
    if namespaceOf leaf.path ≠ id.ns then scanLeaves id rest defaultLeaf
    else if leaf.serviceAccounts.contains id.serviceAccount then .ok leaf.path
    else scanLeaves id rest (if leaf.isDefaultLeaf then leaf.path else defaultLeaf)

def resolve (m : QueueManager V) (id : Identity) : Except PlacementErr String :=
  if rootName ++ "." ++ id.ns ∈ m.index then scanLeaves id (leaves m.index) ""
  else .error (.notOnboarded id.ns)

lemma resolve_congr {m m' : QueueManager V} (h : m.index = m'.index) (id : Identity) :
    resolve m id = resolve m' id := by
  simp only [resolve, h]

omit [CommRing V] [LinearOrder V] in
lemma scanLeaves_result {P : String → Prop} {id : Identity} {qs : List (Queue V)}
    {dflt leaf : String} (hq : ∀ q ∈ qs, namespaceOf q.path = id.ns → P q.path)
    (hd : dflt ≠ "" → P dflt)
    (h : scanLeaves id qs dflt = .ok leaf) : P leaf := by
  induction qs generalizing dflt with
  | nil =>
    simp only [scanLeaves] at h
    split_ifs at h with hne
    cases h
    exact hd hne
  | cons q rest ih =>
    have hhead := hq q List.mem_cons_self
    have htail := fun q' hm => hq q' (List.mem_cons_of_mem q hm)
    simp only [scanLeaves] at h
    split_ifs at h with hns
    · exact ih htail hd h
    · cases h
      exact hhead (not_not.mp hns)
    · exact ih htail (fun _ => hhead (not_not.mp hns)) h
    · exact ih htail hd h

lemma resolve_isLeafPath {m : QueueManager V} {id : Identity} {leaf : String}
    (h : resolve m id = .ok leaf) : m.isLeafPath leaf = true := by
  unfold resolve at h
  split_ifs at h
  refine scanLeaves_result (P := fun p => m.isLeafPath p = true) (fun q hq _ => ?_)
    (fun hne => absurd rfl hne) h
  obtain ⟨hall, hleaf⟩ := List.mem_filter.mp hq
  obtain ⟨p, _, hp⟩ := List.mem_filterMap.mp hall
  have hpath : q.path = p := m.wf.path_eq hp
  rw [QueueManager.isLeafPath, hpath, hp]
  exact hleaf

def oneTenant (leafMax : ℤ) : Spec ℤ :=
  bareSpec rootName ∅ [bareSpec "team" ∅
    [{ bareSpec "jobs" (Finmap.singleton "cpu" leafMax) [] with serviceAccounts := ["runner"] }]]

lemma oneTenant_isOk : (newManager (oneTenant 10)).isOk = true := by decide +kernel

end AdScheduler.Placement
