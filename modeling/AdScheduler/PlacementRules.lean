import AdScheduler.Manager
import AdScheduler.SpecTree

/-! The routing rules that `validatePlacement` checks, said without the scan, and with them
what `newManager` accepts. -/
namespace AdScheduler.PlacementRules
open KeyedMap Resources QueueTree TreeShape Manager SpecTree

variable {V : Type*}

/-- The queue declares service accounts or is marked as the default. -/
def Routed (q : Queue V) : Prop := ¬ (q.serviceAccounts = [] ∧ q.defaultLeaf = false)

def Sited (q : Queue V) : Prop := Routed q → q.isLeaf = true ∧ namespaceOf q.path ≠ ""

/-- In one namespace two queues are not both the default and share no service account. -/
def Compatible (a b : Queue V) : Prop :=
  namespaceOf a.path = namespaceOf b.path → ¬ (a.isDefaultLeaf = true ∧ b.isDefaultLeaf = true) ∧
    ∀ sa ∈ a.serviceAccounts, sa ∈ b.serviceAccounts → sa ≠ "*" → a.path = b.path

lemma Compatible.symm {a b : Queue V} (h : Compatible a b) : Compatible b a := by
  intro hns
  obtain ⟨hdefault, hsas⟩ := h hns.symm
  exact ⟨fun hb => hdefault hb.symm, fun sa hb ha hne => (hsas sa ha hb hne).symm⟩

/-- What the scan does not object to in a queue after what it has met. -/
def Passes (seen : PlacementSeen) (q : Queue V) : Prop :=
  Sited q ∧ (q.isDefaultLeaf = true → seen.defaultLeaf.lookup (namespaceOf q.path) = none) ∧
    ∀ sa ∈ q.serviceAccounts, sa ≠ "*" →
      ∀ prev, seen.saLeaf.lookup (namespaceOf q.path, sa) = some prev → prev = q.path

def record (seen : PlacementSeen) (q : Queue V) : PlacementSeen where
  saLeaf := (q.serviceAccounts.filter (· ≠ "*")).foldl
    (fun m sa => m.insert (namespaceOf q.path, sa) q.path) seen.saLeaf
  defaultLeaf := if q.isDefaultLeaf then
    seen.defaultLeaf.insert (namespaceOf q.path) q.path else seen.defaultLeaf

lemma lookup_insert_same {m : Map (String × String) String} {k : String × String} {path : String}
    (hfirst : ∀ p, m.lookup k = some p → p = path) (j : String × String) (prev : String) :
    ((m.insert k path).lookup j = some prev → prev = path) ↔
    (m.lookup j = some prev → prev = path) := by
  rw [lookup_insert_ite]
  by_cases he : j = k
  · subst he
    simp only [if_true, Option.some.injEq]
    exact ⟨fun _ => hfirst prev, fun _ h => h.symm⟩
  · simp [he]

lemma checkServiceAccounts_ok_iff (ns path : String) (sas : List String) (seen r : PlacementSeen) :
    checkServiceAccounts ns path sas seen = .ok r ↔
      (∀ sa ∈ sas, sa ≠ "*" → ∀ prev, seen.saLeaf.lookup (ns, sa) = some prev → prev = path) ∧
      r = ⟨(sas.filter (· ≠ "*")).foldl (fun m sa => m.insert (ns, sa) path) seen.saLeaf,
        seen.defaultLeaf⟩ := by
  induction sas generalizing seen with
  | nil => simp [checkServiceAccounts, eq_comm]
  | cons sa rest ih =>
    rw [checkServiceAccounts, List.forall_mem_cons]
    by_cases hstar : sa = "*"
    · simp [hstar, ih]
    have hnext : (∀ prev, seen.saLeaf.lookup (ns, sa) = some prev → prev = path) →
        (checkServiceAccounts ns path rest
          { seen with saLeaf := seen.saLeaf.insert (ns, sa) path } = .ok r ↔
        (∀ sa ∈ rest, sa ≠ "*" → ∀ prev, seen.saLeaf.lookup (ns, sa) = some prev → prev = path) ∧
          r = ⟨((sa :: rest).filter (· ≠ "*")).foldl
            (fun m sa => m.insert (ns, sa) path) seen.saLeaf,
            seen.defaultLeaf⟩) := by
      intro hfirst
      simp only [ih, lookup_insert_same hfirst]
      simp [hstar]
    cases hprev : seen.saLeaf.lookup (ns, sa) with
    | none => simpa [hstar, hprev] using hnext
    | some prev =>
      by_cases hsame : prev = path
      · simpa [hstar, hprev, hsame] using hnext
      · simp [hstar, hsame]

section Scan

lemma checkPlacement_ok_iff (q : Queue V) (seen r : PlacementSeen) :
    checkPlacement q seen = .ok r ↔ Passes seen q ∧ r = record seen q := by
  unfold checkPlacement
  by_cases hrouted : q.serviceAccounts = [] ∧ q.defaultLeaf = false
  · have hdefault : q.isDefaultLeaf = false := by
      simp [Queue.isDefaultLeaf, hrouted.1, hrouted.2]
    rw [if_pos hrouted, Except.ok.injEq, eq_comm]
    simp [Passes, Sited, Routed, record, hrouted, hdefault]
  rw [if_neg hrouted]
  by_cases hleaf : q.isLeaf = false
  · rw [if_pos hleaf]
    simp [Passes, Sited, Routed, hrouted, hleaf]
  rw [if_neg hleaf]
  by_cases hns : namespaceOf q.path = ""
  · rw [if_pos hns]
    simp [Passes, Sited, Routed, hrouted, hns]
  rw [if_neg hns]
  have hsited : Sited q := fun _ => ⟨by simpa using hleaf, hns⟩
  unfold checkDefault
  by_cases hdefault : q.isDefaultLeaf = true
  · cases hseen : seen.defaultLeaf.lookup (namespaceOf q.path) with
    | some prev => simp [Passes, hdefault, hseen]
    | none =>
      simp only [hdefault, if_true, checkServiceAccounts_ok_iff]
      simp [Passes, record, hsited, hdefault, hseen]
  · simp only [hdefault, if_false, Bool.false_eq_true, checkServiceAccounts_ok_iff]
    simp [Passes, record, hsited, hdefault]

lemma lookup_record_saLeaf (q : Queue V) (seen : PlacementSeen) (ns sa : String) :
    (record seen q).saLeaf.lookup (ns, sa) =
      if ns = namespaceOf q.path ∧ sa ∈ q.serviceAccounts ∧ sa ≠ "*" then some q.path
      else seen.saLeaf.lookup (ns, sa) := by
  unfold record
  have hfold : ∀ (sas : List String) (m : Map (String × String) String),
      (sas.foldl (fun m sa => m.insert (namespaceOf q.path, sa) q.path) m).lookup (ns, sa) =
        if ns = namespaceOf q.path ∧ sa ∈ sas then some q.path else m.lookup (ns, sa) := by
    intro sas
    induction sas with
    | nil => simp
    | cons x rest ih =>
      intro m
      rw [List.foldl_cons, ih, lookup_insert_ite]
      by_cases hns : ns = namespaceOf q.path
      · by_cases hx : sa = x
        · simp [hns, hx]
        · simp [hns, hx]
      · simp [hns]
  simp [hfold]

lemma default_record_iff (a b : Queue V) (seen : PlacementSeen) :
    (b.isDefaultLeaf = true → (record seen a).defaultLeaf.lookup (namespaceOf b.path) = none) ↔
      (b.isDefaultLeaf = true → seen.defaultLeaf.lookup (namespaceOf b.path) = none) ∧
        (namespaceOf a.path = namespaceOf b.path →
          ¬ (a.isDefaultLeaf = true ∧ b.isDefaultLeaf = true)) := by
  unfold record
  by_cases hb : b.isDefaultLeaf = true
  · by_cases ha : a.isDefaultLeaf = true
    · by_cases hns : namespaceOf b.path = namespaceOf a.path
      · simp [ha, hb, hns, lookup_insert_ite]
      · simp [ha, hb, hns, Ne.symm hns]
    · simp [ha, hb]
  · simp [hb]

/-- After one more queue, the scan objects to what it objected to before and to what does
not go together with that queue. -/
lemma passes_record_iff {a : Queue V} {seen : PlacementSeen} (ha : Passes seen a) (b : Queue V) :
    Passes (record seen a) b ↔ Passes seen b ∧ Compatible a b := by
  unfold Passes
  rw [default_record_iff]
  simp only [lookup_record_saLeaf]
  constructor
  · rintro ⟨hsited, ⟨hdefault, hone⟩, hsas⟩
    refine ⟨⟨hsited, hdefault, fun sa hsa hne prev hprev => ?_⟩, fun hns => ⟨hone hns, ?_⟩⟩
    · by_cases hshared : namespaceOf b.path = namespaceOf a.path ∧ sa ∈ a.serviceAccounts ∧ sa ≠ "*"
      · rw [hshared.1] at hprev
        rw [ha.2.2 sa hshared.2.1 hne prev hprev]
        exact hsas sa hsa hne a.path (if_pos hshared)
      · exact hsas sa hsa hne prev (by rw [if_neg hshared, hprev])
    · intro sa hsa hsb hne
      exact hsas sa hsb hne a.path (if_pos ⟨hns.symm, hsa, hne⟩)
  · rintro ⟨⟨hsited, hdefault, hsas⟩, hcompatible⟩
    refine ⟨hsited, ⟨hdefault, fun hns => (hcompatible hns).1⟩, fun sa hsb hne prev hprev => ?_⟩
    split_ifs at hprev with hshared
    · rw [← Option.some.inj hprev]
      exact (hcompatible hshared.1.symm).2 sa hshared.2.1 hsb hne
    · exact hsas sa hsb hne prev hprev

lemma scan_ok_iff (qs : List (Queue V)) (seen : PlacementSeen) :
    validatePlacement.scan qs seen = .ok () ↔
      (∀ q ∈ qs, Passes seen q) ∧ qs.Pairwise Compatible := by
  induction qs generalizing seen with
  | nil => simp [validatePlacement.scan]
  | cons q rest ih =>
    rw [validatePlacement.scan, List.forall_mem_cons, List.pairwise_cons]
    cases hcheck : checkPlacement q seen with
    | error e =>
      have hno : ¬ Passes seen q := fun h => by
        rw [(checkPlacement_ok_iff q seen _).mpr ⟨h, rfl⟩] at hcheck
        cases hcheck
      simp [hno]
    | ok seen' =>
      obtain ⟨hpasses, rfl⟩ := (checkPlacement_ok_iff q seen seen').mp hcheck
      simp only [ih, passes_record_iff hpasses]
      constructor
      · rintro ⟨hrest, hpair⟩
        exact ⟨⟨hpasses, fun b hb => (hrest b hb).1⟩, fun b hb => (hrest b hb).2, hpair⟩
      · rintro ⟨⟨-, hrest⟩, hcompatible, hpair⟩
        exact ⟨fun b hb => ⟨hrest b hb, hcompatible b hb⟩, hpair⟩

structure RoutingRules (ix : Index V) : Prop where
  sited : ∀ p q, ix.lookup p = some q → Sited q
  compatible : ∀ p q p' q', ix.lookup p = some q → ix.lookup p' = some q' → p ≠ p' →
    Compatible q q'

lemma mem_all_iff {ix : Index V} {q : Queue V} : q ∈ all ix ↔ ∃ p, ix.lookup p = some q := by
  simp only [all, List.mem_filterMap]
  constructor
  · rintro ⟨p, -, hp⟩
    exact ⟨p, hp⟩
  · rintro ⟨p, hp⟩
    exact ⟨p, ((sortedKeys_visits ix).2 p).mpr (Finmap.mem_of_lookup_eq_some hp), hp⟩

lemma pairwise_all_iff {ix : Index V} :
    (all ix).Pairwise Compatible ↔ ∀ p q p' q', ix.lookup p = some q → ix.lookup p' = some q' →
      p ≠ p' → Compatible q q' := by
  rw [all, List.pairwise_filterMap]
  constructor
  · intro h p q p' q' hp hp' hne
    have hmem : ∀ {p q}, ix.lookup p = some q → p ∈ sortedKeys ix := fun hp =>
      ((sortedKeys_visits ix).2 _).mpr (Finmap.mem_of_lookup_eq_some hp)
    have hsymm : Std.Symm fun p p' => ∀ q, ix.lookup p = some q → ∀ q', ix.lookup p' = some q' →
        Compatible q q' := ⟨fun _ _ hab b hb a ha => (hab a ha b hb).symm⟩
    exact h.forall (hmem hp) (hmem hp') hne q hp q' hp'
  · intro h
    exact (sortedKeys_visits ix).1.pairwise_of_forall_ne fun p _ p' _ hne q hq q' hq' =>
      h p q p' q' hq hq' hne

lemma validatePlacement_ok_iff (ix : Index V) :
    validatePlacement ix = .ok () ↔ RoutingRules ix := by
  have hpasses : ∀ q : Queue V, Passes ⟨∅, ∅⟩ q ↔ Sited q := fun q => by simp [Passes]
  rw [validatePlacement, scan_ok_iff, pairwise_all_iff]
  simp only [hpasses, mem_all_iff]
  exact ⟨fun h => ⟨fun p q hq => h.1 q ⟨p, hq⟩, h.2⟩,
    fun h => ⟨fun q ⟨p, hq⟩ => h.sited p q hq, h.compatible⟩⟩

end Scan

section Accepted
variable [CommRing V] [LinearOrder V]

def rootSite (spec : Spec V) : Site V := siteOf none { spec with name := rootName }

structure Acceptable (spec : Spec V) : Prop where
  sound : Sound (rootSite spec)
  sited : ∀ b, (rootSite spec).Below b → Sited b.queue
  compatible : ∀ a b, (rootSite spec).Below a → (rootSite spec).Below b → a.path ≠ b.path →
    Compatible a.queue b.queue

lemma build_root {spec : Spec V} (h : Sound (rootSite spec)) :
    ∃ ix, build none ∅ { spec with name := rootName } = .ok (ix, (rootSite spec).queue) ∧
      ∀ p x, ix.lookup p = some x ↔ ∃ b, (rootSite spec).Below b ∧ b.path = p ∧ x = b.queue := by
  obtain ⟨ix, hb, hadds⟩ := build_of_sound _ none ∅ h
    fun p hp => absurd hp Finmap.notMem_empty
  refine ⟨ix, hb, fun p x => ?_⟩
  by_cases hp : DottedPath.segments (rootSite spec).path <+: DottedPath.segments p
  · exact hadds.inside p x hp
  · rw [hadds.outside p hp, Finmap.lookup_empty]
    simp only [reduceCtorEq, false_iff, not_exists]
    rintro b ⟨hbelow, rfl, -⟩
    exact hp hbelow.segments

omit [CommRing V] [LinearOrder V] in
lemma routingRules_iff {spec : Spec V} {ix : Index V}
    (hix : ∀ p x, ix.lookup p = some x ↔
      ∃ b, (rootSite spec).Below b ∧ b.path = p ∧ x = b.queue) :
    RoutingRules ix ↔ (∀ b, (rootSite spec).Below b → Sited b.queue) ∧
      ∀ a b, (rootSite spec).Below a → (rootSite spec).Below b → a.path ≠ b.path →
        Compatible a.queue b.queue := by
  constructor
  · intro h
    have hlook : ∀ b, (rootSite spec).Below b → ix.lookup b.path = some b.queue := fun b hb =>
      (hix _ _).mpr ⟨b, hb, rfl, rfl⟩
    exact ⟨fun b hb => h.sited _ _ (hlook b hb),
      fun a b ha hb hne => h.compatible _ _ _ _ (hlook a ha) (hlook b hb) hne⟩
  · rintro ⟨hsited, hcompatible⟩
    refine ⟨fun p q hq => ?_, fun p q p' q' hq hq' hne => ?_⟩
    · obtain ⟨b, hb, -, rfl⟩ := (hix p q).mp hq
      exact hsited b hb
    · obtain ⟨a, ha, rfl, rfl⟩ := (hix p q).mp hq
      obtain ⟨b, hb, rfl, rfl⟩ := (hix p' q').mp hq'
      exact hcompatible a b ha hb hne

lemma newManager_ok {spec : Spec V} {m : QueueManager V} (h : newManager spec = .ok m) :
    Acceptable spec ∧ ∀ p x, m.index.lookup p = some x ↔
      ∃ b, (rootSite spec).Below b ∧ b.path = p ∧ x = b.queue := by
  unfold newManager at h
  split at h
  · cases h
  rename_i r hb
  have hsound : Sound (rootSite spec) := sound_of_build _ hb
  obtain ⟨ix, hb', hix⟩ := build_root hsound
  obtain rfl : r = (ix, (rootSite spec).queue) := Except.ok.inj (hb.symm.trans hb')
  split at h
  · cases h
  rename_i hplacement
  cases h
  obtain ⟨hsited, hcompatible⟩ := (routingRules_iff hix).mp
    ((validatePlacement_ok_iff _).mp hplacement)
  exact ⟨⟨hsound, hsited, hcompatible⟩, hix⟩

lemma newManager_of_acceptable {spec : Spec V} (h : Acceptable spec) :
    ∃ m, newManager spec = .ok m := by
  obtain ⟨ix, hb, hix⟩ := build_root h.sound
  have hplacement : validatePlacement ix = .ok () :=
    (validatePlacement_ok_iff ix).mpr ((routingRules_iff hix).mpr ⟨h.sited, h.compatible⟩)
  unfold newManager
  split
  · rename_i e he
    rw [hb] at he
    cases he
  · rename_i r hr
    obtain rfl := Except.ok.inj (hr.symm.trans hb)
    simp only [hplacement]
    exact ⟨_, rfl⟩

end Accepted

end AdScheduler.PlacementRules
