import AdScheduler.PlacementRules
import AdScheduler.SubmitRights

/-! Where an identity is routed, said of the specification: `Resolve` of
`pkg/queue/placement/placement.go` reads the built tree in path order, and takes the first
exact match or the last default. -/
namespace AdScheduler.Routing
open KeyedMap Resources QueueTree Manager Requests Placement SpecTree PlacementRules
open DottedPath Fences SubmitRights

variable {V : Type*}

section Scan
variable {id : Identity} {qs : List (Queue V)}

def near (id : Identity) (q : Queue V) : Bool := decide (namespaceOf q.path = id.ns)

/-- The leaf is in the namespace of the identity and lists its service account. -/
def hit (id : Identity) (q : Queue V) : Bool :=
  near id q && q.serviceAccounts.contains id.serviceAccount

def fallback (id : Identity) (q : Queue V) : Bool := near id q && q.isDefaultLeaf

lemma scanLeaves_cons (q : Queue V) (rest : List (Queue V)) (dflt : String) :
    scanLeaves id (q :: rest) dflt =
      if hit id q then .ok q.path
      else scanLeaves id rest (if fallback id q then q.path else dflt) := by
  rw [scanLeaves]
  by_cases hns : namespaceOf q.path = id.ns
  · simp [hit, fallback, near, hns]
  · simp [hit, fallback, near, hns]

lemma scanLeaves_hit {p : String} (h : ∃ q ∈ qs, hit id q = true)
    (hone : ∀ q ∈ qs, hit id q = true → q.path = p) (dflt : String) :
    scanLeaves id qs dflt = .ok p := by
  induction qs generalizing dflt with
  | nil => simp at h
  | cons q rest ih =>
    obtain ⟨hq, hrest⟩ := List.forall_mem_cons.mp hone
    rw [scanLeaves_cons]
    by_cases hhit : hit id q = true
    · rw [if_pos hhit, hq hhit]
    · rw [if_neg hhit]
      refine ih ?_ hrest _
      obtain ⟨q', hq', hhit'⟩ := h
      rcases List.mem_cons.mp hq' with rfl | hq'
      · exact absurd hhit' hhit
      · exact ⟨q', hq', hhit'⟩

lemma scanLeaves_fallback {p : String} (hne : p ≠ "") (hno : ∀ q ∈ qs, hit id q = false)
    (hone : ∀ q ∈ qs, fallback id q = true → q.path = p) {dflt : String}
    (h : dflt = p ∨ ∃ q ∈ qs, fallback id q = true) : scanLeaves id qs dflt = .ok p := by
  induction qs generalizing dflt with
  | nil =>
    obtain rfl : dflt = p := by simpa using h
    simp [scanLeaves, hne]
  | cons q rest ih =>
    obtain ⟨hq, hrest⟩ := List.forall_mem_cons.mp hone
    obtain ⟨hmiss, hnorest⟩ := List.forall_mem_cons.mp hno
    rw [scanLeaves_cons, if_neg (by simp [hmiss])]
    refine ih hnorest hrest ?_
    split_ifs with hdefault
    · exact .inl (hq hdefault)
    · rcases h with h | ⟨q', hq', hdefault'⟩
      · exact .inl h
      · rcases List.mem_cons.mp hq' with rfl | hq'
        · exact absurd hdefault' hdefault
        · exact .inr ⟨q', hq', hdefault'⟩

lemma scanLeaves_none (hno : ∀ q ∈ qs, hit id q = false) (hnone : ∀ q ∈ qs, fallback id q = false) :
    scanLeaves id qs "" = .error (.unmapped id) := by
  induction qs with
  | nil => rfl
  | cons q rest ih =>
    obtain ⟨hmiss, hnorest⟩ := List.forall_mem_cons.mp hno
    obtain ⟨hplain, hplainrest⟩ := List.forall_mem_cons.mp hnone
    rw [scanLeaves_cons]
    simp [hmiss, hplain, ih hnorest hplainrest]

end Scan

section Subtree

def LeafOf (spec : Spec V) (ns : String) (b : Site V) : Prop :=
  b.spec.children = [] ∧ ∃ c ∈ spec.children, c.name = ns ∧ ((rootSite spec).child c).Below b

def Lists (serviceAccount : String) (b : Site V) : Prop := serviceAccount ∈ b.spec.serviceAccounts

/-- The marker, or its alias. -/
def IsDefault (b : Site V) : Prop := b.spec.default = true ∨ "*" ∈ b.spec.serviceAccounts

lemma isDefaultLeaf_queue (b : Site V) : b.queue.isDefaultLeaf = true ↔ IsDefault b := by
  simp [Queue.isDefaultLeaf, Site.queue, IsDefault]

variable [CommRing V] [LinearOrder V] {spec : Spec V}

lemma segments_top (hsound : Sound (rootSite spec)) {c : Spec V} (hc : c ∈ spec.children) :
    segments ((rootSite spec).child c).path = [rootName.toList, c.name.toList] := by
  have hdot : '.' ∉ c.name.toList := (hsound _
    (.tail (Site.below_self _) (List.mem_map_of_mem hc))).undotted
  rw [Site.segments_child, segments_name hdot]
  rw [show (rootSite spec).path = rootName from rfl, segments_name (by decide)]
  rfl

lemma namespaceOf_top (hsound : Sound (rootSite spec)) {c : Spec V} (hc : c ∈ spec.children)
    {b : Site V} (hb : ((rootSite spec).child c).Below b) : namespaceOf b.path = c.name := by
  have hpre := hb.segments
  rw [segments_top hsound hc] at hpre
  rw [namespaceOf_segments hpre rfl, String.ofList_toList]

lemma leafOf_iff (hsound : Sound (rootSite spec)) {ns : String} (hns : ns ≠ "") {b : Site V} :
    LeafOf spec ns b ↔
      (rootSite spec).Below b ∧ b.spec.children = [] ∧ namespaceOf b.path = ns := by
  constructor
  · rintro ⟨hleaf, c, hc, rfl, hb⟩
    exact ⟨.head (List.mem_map_of_mem hc) hb, hleaf, namespaceOf_top hsound hc hb⟩
  · rintro ⟨hb, hleaf, rfl⟩
    rcases Site.below_iff.mp hb with rfl | ⟨a, ha, hab⟩
    · exact absurd namespaceOf_root hns
    · obtain ⟨c, hc, rfl⟩ := List.mem_map.mp ha
      exact ⟨hleaf, c, hc, (namespaceOf_top hsound hc hab).symm, hab⟩

lemma onboarded_iff {m : QueueManager V} (h : newManager spec = .ok m) {ns : String}
    (hdot : '.' ∉ ns.toList) :
    rootName ++ "." ++ ns ∈ m.index ↔ ∃ c ∈ spec.children, c.name = ns := by
  obtain ⟨hacc, hix⟩ := newManager_ok h
  constructor
  · intro hmem
    obtain ⟨q, hq⟩ := Finmap.mem_iff.mp hmem
    obtain ⟨b, hb, hpath, -⟩ := (hix _ _).mp hq
    have hsegs : segments b.path = [rootName.toList, ns.toList] := by
      rw [hpath, segments_append, segments_name hdot, segments_name (by decide)]
      rfl
    rcases Site.below_iff.mp hb with rfl | ⟨a, ha, hab⟩
    · rw [show (rootSite spec).path = rootName from rfl, segments_name (by decide)] at hsegs
      simp at hsegs
    · obtain ⟨c, hc, rfl⟩ := List.mem_map.mp ha
      have hpre := hab.segments
      rw [segments_top hacc.sound hc, hsegs] at hpre
      have heq := hpre.eq_of_length rfl
      exact ⟨c, hc, String.toList_injective (by simpa using heq)⟩
  · rintro ⟨c, hc, rfl⟩
    have hbelow : (rootSite spec).Below ((rootSite spec).child c) :=
      .tail (Site.below_self _) (List.mem_map_of_mem hc)
    exact Finmap.mem_of_lookup_eq_some ((hix _ _).mpr ⟨_, hbelow, rfl, rfl⟩)

lemma mem_leaves_iff {m : QueueManager V} (h : newManager spec = .ok m) {q : Queue V} :
    q ∈ leaves m.index ↔ ∃ b, (rootSite spec).Below b ∧ b.spec.children = [] ∧ q = b.queue := by
  obtain ⟨-, hix⟩ := newManager_ok h
  rw [leaves, List.mem_filter, mem_all_iff]
  constructor
  · rintro ⟨⟨p, hp⟩, hleaf⟩
    obtain ⟨b, hb, -, rfl⟩ := (hix p q).mp hp
    exact ⟨b, hb, b.isLeaf_queue.mp hleaf, rfl⟩
  · rintro ⟨b, hb, hleaf, rfl⟩
    exact ⟨⟨b.path, (hix _ _).mpr ⟨b, hb, rfl, rfl⟩⟩, b.isLeaf_queue.mpr hleaf⟩

lemma path_eq_of_lists (hacc : Acceptable spec) {a b : Site V} (ha : (rootSite spec).Below a)
    (hb : (rootSite spec).Below b) (hns : namespaceOf a.path = namespaceOf b.path) {sa : String}
    (hla : Lists sa a) (hlb : Lists sa b) : a.path = b.path := by
  by_contra hne
  obtain ⟨hdefault, hsas⟩ := hacc.compatible a b ha hb hne hns
  by_cases hstar : sa = "*"
  · subst hstar
    exact hdefault ⟨(isDefaultLeaf_queue a).mpr (.inr hla), (isDefaultLeaf_queue b).mpr (.inr hlb)⟩
  · exact hne (hsas sa hla hlb hstar)

lemma path_eq_of_isDefault (hacc : Acceptable spec) {a b : Site V} (ha : (rootSite spec).Below a)
    (hb : (rootSite spec).Below b) (hns : namespaceOf a.path = namespaceOf b.path)
    (hda : IsDefault a) (hdb : IsDefault b) : a.path = b.path := by
  by_contra hne
  exact (hacc.compatible a b ha hb hne hns).1
    ⟨(isDefaultLeaf_queue a).mpr hda, (isDefaultLeaf_queue b).mpr hdb⟩

end Subtree

section Outcome
variable [CommRing V] [LinearOrder V] {spec : Spec V} {m : QueueManager V} {id : Identity}
  (h : newManager spec = .ok m) (hdot : '.' ∉ id.ns.toList)
include h

lemma ns_ne_of_leafOf {ns : String} {b : Site V} (hb : LeafOf spec ns b) : ns ≠ "" := by
  obtain ⟨-, c, hc, rfl, -⟩ := hb
  exact ((newManager_ok h).1.sound _ (.tail (Site.below_self _) (List.mem_map_of_mem hc))).name_ne

lemma exists_leafOf {ns : String} (hns : ns ≠ "") {q : Queue V} (hq : q ∈ leaves m.index)
    (hnear : namespaceOf q.path = ns) : ∃ b, LeafOf spec ns b ∧ q = b.queue := by
  obtain ⟨b, hb, hleaf, rfl⟩ := (mem_leaves_iff h).mp hq
  exact ⟨b, (leafOf_iff (newManager_ok h).1.sound hns).mpr ⟨hb, hleaf, hnear⟩, rfl⟩

lemma queue_mem_leaves {ns : String} {b : Site V} (hb : LeafOf spec ns b) :
    b.queue ∈ leaves m.index ∧ namespaceOf b.queue.path = ns := by
  obtain ⟨hbelow, hleaf, hns⟩ :=
    (leafOf_iff (newManager_ok h).1.sound (ns_ne_of_leafOf h hb)).mp hb
  exact ⟨(mem_leaves_iff h).mpr ⟨b, hbelow, hleaf, rfl⟩, hns⟩

lemma hit_iff (hns : id.ns ≠ "") {q : Queue V} (hq : q ∈ leaves m.index) :
    hit id q = true ↔ ∃ b, LeafOf spec id.ns b ∧ Lists id.serviceAccount b ∧ q = b.queue := by
  simp only [hit, near, Bool.and_eq_true, decide_eq_true_eq, List.contains_iff_mem]
  constructor
  · rintro ⟨hnear, hlists⟩
    obtain ⟨b, hb, rfl⟩ := exists_leafOf h hns hq hnear
    exact ⟨b, hb, hlists, rfl⟩
  · rintro ⟨b, hb, hlists, rfl⟩
    exact ⟨(queue_mem_leaves h hb).2, hlists⟩

lemma fallback_iff (hns : id.ns ≠ "") {q : Queue V} (hq : q ∈ leaves m.index) :
    fallback id q = true ↔ ∃ b, LeafOf spec id.ns b ∧ IsDefault b ∧ q = b.queue := by
  simp only [fallback, near, Bool.and_eq_true, decide_eq_true_eq]
  constructor
  · rintro ⟨hnear, hdefault⟩
    obtain ⟨b, hb, rfl⟩ := exists_leafOf h hns hq hnear
    exact ⟨b, hb, (isDefaultLeaf_queue b).mp hdefault, rfl⟩
  · rintro ⟨b, hb, hdefault, rfl⟩
    exact ⟨(queue_mem_leaves h hb).2, (isDefaultLeaf_queue b).mpr hdefault⟩

include hdot

lemma resolve_eq_scanLeaves {b : Site V} (hb : LeafOf spec id.ns b) :
    resolve m id = scanLeaves id (leaves m.index) "" := by
  obtain ⟨-, c, hc, hname, -⟩ := hb
  rw [resolve, if_pos ((onboarded_iff h hdot).mpr ⟨c, hc, hname⟩)]

lemma resolve_of_lists {b : Site V} (hb : LeafOf spec id.ns b) (hl : Lists id.serviceAccount b) :
    resolve m id = .ok b.path := by
  have hacc := (newManager_ok h).1
  have hns := ns_ne_of_leafOf h hb
  obtain ⟨hbelow, -, hnear⟩ := (leafOf_iff hacc.sound hns).mp hb
  have hmem := (queue_mem_leaves h hb).1
  rw [resolve_eq_scanLeaves h hdot hb]
  refine scanLeaves_hit ⟨b.queue, hmem, (hit_iff h hns hmem).mpr ⟨b, hb, hl, rfl⟩⟩ ?_ ""
  intro q hq hhit
  obtain ⟨b', hb', hl', rfl⟩ := (hit_iff h hns hq).mp hhit
  obtain ⟨hbelow', -, hnear'⟩ := (leafOf_iff hacc.sound hns).mp hb'
  exact path_eq_of_lists hacc hbelow' hbelow (hnear'.trans hnear.symm) hl' hl

lemma resolve_of_isDefault (hno : ∀ b, LeafOf spec id.ns b → ¬ Lists id.serviceAccount b)
    {b : Site V} (hb : LeafOf spec id.ns b) (hd : IsDefault b) : resolve m id = .ok b.path := by
  have hacc := (newManager_ok h).1
  have hns := ns_ne_of_leafOf h hb
  obtain ⟨hbelow, -, hnear⟩ := (leafOf_iff hacc.sound hns).mp hb
  have hmem := (queue_mem_leaves h hb).1
  have hpath : b.path ≠ "" := by
    intro hempty
    rw [hempty] at hnear
    exact hns (hnear.symm.trans (by decide))
  rw [resolve_eq_scanLeaves h hdot hb]
  refine scanLeaves_fallback hpath ?_ ?_
    (.inr ⟨b.queue, hmem, (fallback_iff h hns hmem).mpr ⟨b, hb, hd, rfl⟩⟩)
  · intro q hq
    rw [← Bool.not_eq_true, hit_iff h hns hq]
    rintro ⟨b', hb', hl', -⟩
    exact hno b' hb' hl'
  · intro q hq hfall
    obtain ⟨b', hb', hd', rfl⟩ := (fallback_iff h hns hq).mp hfall
    obtain ⟨hbelow', -, hnear'⟩ := (leafOf_iff hacc.sound hns).mp hb'
    exact path_eq_of_isDefault hacc hbelow' hbelow (hnear'.trans hnear.symm) hd' hd

open Classical in
lemma resolve_of_none (hno : ∀ b, LeafOf spec id.ns b → ¬ Lists id.serviceAccount b)
    (hnone : ∀ b, LeafOf spec id.ns b → ¬ IsDefault b) :
    resolve m id = .error (if ∃ c ∈ spec.children, c.name = id.ns then .unmapped id
      else .notOnboarded id.ns) := by
  have hacc := (newManager_ok h).1
  rw [resolve]
  by_cases hon : ∃ c ∈ spec.children, c.name = id.ns
  · rw [if_pos ((onboarded_iff h hdot).mpr hon), if_pos hon]
    have hns : id.ns ≠ "" := by
      obtain ⟨c, hc, hname⟩ := hon
      rw [← hname]
      exact (hacc.sound _ (.tail (Site.below_self _) (List.mem_map_of_mem hc))).name_ne
    refine scanLeaves_none ?_ ?_
    · intro q hq
      rw [← Bool.not_eq_true, hit_iff h hns hq]
      rintro ⟨b, hb, hl, -⟩
      exact hno b hb hl
    · intro q hq
      rw [← Bool.not_eq_true, fallback_iff h hns hq]
      rintro ⟨b, hb, hd, -⟩
      exact hnone b hb hd
  · rw [if_neg fun hmem => hon ((onboarded_iff h hdot).mp hmem), if_neg hon]

end Outcome

section Rearranging

/-- The lists of service accounts of two limits are permutations of each other. -/
structure SameLimit (l l' : Limit V) : Prop where
  serviceAccounts : l.serviceAccounts.Perm l'.serviceAccounts
  maxApplications : l.maxApplications = l'.maxApplications
  maxResources : l.maxResources = l'.maxResources

/-- The second specification is the first one with lists of children and lists of service
accounts permuted, anywhere in it. -/
inductive Rearranged : Spec V → Spec V → Prop
  | refl (s : Spec V) : Rearranged s s
  | trans {s s' s'' : Spec V} : Rearranged s s' → Rearranged s' s'' → Rearranged s s''
  | serviceAccounts (s : Spec V) {sas : List String} (h : s.serviceAccounts.Perm sas) :
      Rearranged s { s with serviceAccounts := sas }
  | limits (s : Spec V) {lims : List (Limit V)} (h : List.Forall₂ SameLimit s.limits lims) :
      Rearranged s { s with limits := lims }
  | children (s : Spec V) {cs : List (Spec V)} (h : s.children.Perm cs) :
      Rearranged s { s with children := cs }
  | inside (s : Spec V) {before after : List (Spec V)} {c c' : Spec V}
      (hs : s.children = before ++ c :: after) (h : Rearranged c c') :
      Rearranged s { s with children := before ++ c' :: after }

lemma SameLimit.symm {l l' : Limit V} (h : SameLimit l l') : SameLimit l' l :=
  ⟨h.serviceAccounts.symm, h.maxApplications.symm, h.maxResources.symm⟩

lemma Rearranged.symm {s s' : Spec V} (h : Rearranged s s') : Rearranged s' s := by
  induction h with
  | refl s => exact .refl s
  | trans _ _ ih ih' => exact ih'.trans ih
  | @serviceAccounts s sas h =>
    cases s
    exact Rearranged.serviceAccounts ⟨_, _, _, sas, _, _, _, _, _, _, _⟩ h.symm
  | @limits s lims h =>
    cases s
    exact Rearranged.limits ⟨_, _, _, _, _, _, lims, _, _, _, _⟩ (h.flip.imp fun _ _ h => h.symm)
  | @children s cs h =>
    cases s
    exact Rearranged.children ⟨_, _, _, _, _, _, _, _, _, _, cs⟩ h.symm
  | @inside s before after c c' hs _ ih =>
    cases s
    obtain rfl := hs
    exact Rearranged.inside ⟨_, _, _, _, _, _, _, _, _, _, before ++ c' :: after⟩ rfl ih

lemma Rearranged.named {s s' : Spec V} (h : Rearranged s s') (n : String) :
    Rearranged { s with name := n } { s' with name := n } := by
  induction h with
  | refl s => exact .refl _
  | trans _ _ ih ih' => exact ih.trans ih'
  | serviceAccounts s h => exact .serviceAccounts { s with name := n } h
  | limits s h => exact .limits { s with name := n } h
  | children s h => exact .children { s with name := n } h
  | inside s hs h => exact .inside { s with name := n } hs h

def face (s : Spec V) : String × Resource V × Resource V := (s.name, s.guaranteed, s.max)

/-- What is checked of two queues and their children is the same. -/
structure Alike (s s' : Spec V) : Prop where
  face_eq : face s' = face s
  default_eq : s'.default = s.default
  serviceAccounts : s'.serviceAccounts.Perm s.serviceAccounts
  children : (s'.children.map face).Perm (s.children.map face)

lemma Alike.refl (s : Spec V) : Alike s s := ⟨rfl, rfl, .refl _, .refl _⟩

lemma Alike.trans {s s' s'' : Spec V} (h : Alike s s') (h' : Alike s' s'') : Alike s s'' :=
  ⟨h'.face_eq.trans h.face_eq, h'.default_eq.trans h.default_eq,
    h'.serviceAccounts.trans h.serviceAccounts, h'.children.trans h.children⟩

lemma Alike.symm {s s' : Spec V} (h : Alike s s') : Alike s' s :=
  ⟨h.face_eq.symm, h.default_eq.symm, h.serviceAccounts.symm, h.children.symm⟩

/-- Each queue of the first specification, wherever it stands, has a counterpart in the
second at the same path. -/
def Mirrored (s s' : Spec V) : Prop :=
  ∀ parent path b, (⟨parent, path, s⟩ : Site V).Below b →
    ∃ b', (⟨parent, path, s'⟩ : Site V).Below b' ∧ b'.path = b.path ∧ Alike b.spec b'.spec

lemma Mirrored.refl (s : Spec V) : Mirrored s s := fun _ _ b hb => ⟨b, hb, rfl, .refl _⟩

lemma Mirrored.trans {s s' s'' : Spec V} (h : Mirrored s s') (h' : Mirrored s' s'') :
    Mirrored s s'' := by
  intro parent path b hb
  obtain ⟨b', hb', hpath, halike⟩ := h parent path b hb
  obtain ⟨b'', hb'', hpath', halike'⟩ := h' parent path b' hb'
  exact ⟨b'', hb'', hpath'.trans hpath, halike.trans halike'⟩

lemma Mirrored.of_children {s s' : Spec V} (halike : Alike s s')
    (h : ∀ c ∈ s.children, ∃ c' ∈ s'.children, c'.name = c.name ∧ Mirrored c c') :
    Mirrored s s' := by
  intro parent path b hb
  rcases Site.below_iff.mp hb with rfl | ⟨a, ha, hab⟩
  · exact ⟨_, Site.below_self _, rfl, halike⟩
  · obtain ⟨c, hc, rfl⟩ := List.mem_map.mp ha
    obtain ⟨c', hc', hname, hmirror⟩ := h c hc
    obtain ⟨b', hb', hpath, hspec⟩ := hmirror _ _ b hab
    have hchild : (⟨some path, path ++ "." ++ c'.name, c'⟩ : Site V).Below b' := by
      rw [hname]
      exact hb'
    exact ⟨b', .head (List.mem_map_of_mem hc') hchild, hpath, hspec⟩

lemma Mirrored.of_mem {s s' : Spec V} (halike : Alike s s')
    (h : ∀ c ∈ s.children, c ∈ s'.children) : Mirrored s s' :=
  .of_children halike fun c hc => ⟨c, h c hc, rfl, .refl c⟩

lemma Rearranged.alike_mirrored {s s' : Spec V} (h : Rearranged s s') :
    Alike s s' ∧ Mirrored s s' := by
  induction h with
  | refl s => exact ⟨.refl s, .refl s⟩
  | trans _ _ ih ih' => exact ⟨ih.1.trans ih'.1, ih.2.trans ih'.2⟩
  | serviceAccounts s h =>
    have halike : Alike s { s with serviceAccounts := _ } := ⟨rfl, rfl, h.symm, .refl _⟩
    exact ⟨halike, .of_mem halike fun _ hc => hc⟩
  | @limits s lims h =>
    have halike : Alike s { s with limits := lims } := ⟨rfl, rfl, .refl _, .refl _⟩
    exact ⟨halike, .of_mem halike fun _ hc => hc⟩
  | children s h =>
    have halike : Alike s { s with children := _ } := ⟨rfl, rfl, .refl _, (h.map face).symm⟩
    exact ⟨halike, .of_mem halike fun _ hc => h.subset hc⟩
  | @inside s before after c c' hs _ ih =>
    have halike : Alike s { s with children := before ++ c' :: after } :=
      ⟨rfl, rfl, .refl _, by simp [hs, ih.1.face_eq]⟩
    have hname : c'.name = c.name := congrArg Prod.fst ih.1.face_eq
    refine ⟨halike, .of_children halike fun d hd => ?_⟩
    rw [hs] at hd
    rcases List.mem_append.mp hd with hd | hd
    · exact ⟨d, List.mem_append_left _ hd, rfl, .refl d⟩
    · rcases List.mem_cons.mp hd with rfl | hd
      · exact ⟨c', List.mem_append_right _ List.mem_cons_self, hname, ih.2⟩
      · exact ⟨d, List.mem_append_right _ (List.mem_cons_of_mem _ hd), rfl, .refl d⟩

end Rearranging

section Accepted
variable [CommRing V] [LinearOrder V]

lemma add_swap (a b c : Resource V) : add (add a b) c = add (add a c) b :=
  eq_of_get (fun _ => mem_prune_iff.mp) (fun _ => mem_prune_iff.mp) fun d => by
    simp only [get_add, add_right_comm]

lemma Alike.childrenGuaranteed_eq {s s' : Spec V} (h : Alike s s') :
    childrenGuaranteed s' = childrenGuaranteed s := by
  have hfold : ∀ t : Spec V, childrenGuaranteed t =
      (t.children.map face).foldl (fun g f => add g f.2.1) ∅ := fun t => by
    rw [List.foldl_map]
    rfl
  rw [hfold, hfold]
  exact h.children.foldl_eq' (fun a _ b _ g => add_swap g a.2.1 b.2.1) ∅

lemma Alike.checked {s s' : Spec V} (h : Alike s s') (hs : Checked s) : Checked s' := by
  have hname : s'.name = s.name := congrArg Prod.fst h.face_eq
  have hguar : s'.guaranteed = s.guaranteed := congrArg (fun f => f.2.1) h.face_eq
  have hmax : s'.max = s.max := congrArg (fun f => f.2.2) h.face_eq
  refine ⟨hname ▸ hs.name_ne, hname ▸ hs.undotted, hguar ▸ hs.guaranteed_nonneg,
    hmax ▸ hs.max_nonneg, ?_, fun c' hc' => ?_, ?_⟩
  · have hnames : (s'.children.map Spec.name).Perm (s.children.map Spec.name) := by
      simpa [Function.comp_def, face] using h.children.map Prod.fst
    exact hnames.nodup_iff.mpr hs.distinct
  · obtain ⟨c, hc, hface⟩ := List.mem_map.mp (h.children.subset (List.mem_map_of_mem hc'))
    have hcmax : c.max = c'.max := congrArg (fun f => f.2.2) hface
    rw [← hcmax, hmax]
    exact hs.within c hc
  · rw [h.childrenGuaranteed_eq, hguar]
    exact hs.covered

omit [CommRing V] [LinearOrder V] in
lemma Alike.children_nil_iff {s s' : Spec V} (h : Alike s s') :
    s'.children = [] ↔ s.children = [] := by
  rw [← List.map_eq_nil_iff (f := face), ← List.map_eq_nil_iff (f := face) (l := s.children)]
  exact ⟨fun hnil => (hnil ▸ h.children).nil_eq.symm, fun hnil => (hnil ▸ h.children).eq_nil⟩

omit [CommRing V] [LinearOrder V] in
lemma Alike.lists_iff {b b' : Site V} (h : Alike b.spec b'.spec) (sa : String) :
    Lists sa b' ↔ Lists sa b := h.serviceAccounts.mem_iff

omit [CommRing V] [LinearOrder V] in
lemma Alike.isDefault_iff {b b' : Site V} (h : Alike b.spec b'.spec) :
    IsDefault b' ↔ IsDefault b := by
  rw [IsDefault, IsDefault, h.default_eq, h.serviceAccounts.mem_iff]

omit [CommRing V] [LinearOrder V] in
lemma sited_queue_iff (b : Site V) : Sited b.queue ↔
    (b.spec.serviceAccounts ≠ [] ∨ b.spec.default = true →
      b.spec.children = [] ∧ namespaceOf b.path ≠ "") := by
  rw [Sited, Site.isLeaf_queue, Routed]
  simp only [Site.queue, not_and_or, ne_eq, Bool.not_eq_false]

omit [CommRing V] [LinearOrder V] in
lemma Alike.sited {b b' : Site V} (hpath : b'.path = b.path) (h : Alike b.spec b'.spec)
    (hb : Sited b.queue) : Sited b'.queue := by
  rw [sited_queue_iff] at hb ⊢
  have hnil : b'.spec.serviceAccounts = [] ↔ b.spec.serviceAccounts = [] :=
    ⟨fun hnil => (hnil ▸ h.serviceAccounts).nil_eq.symm, fun hnil =>
      (hnil ▸ h.serviceAccounts).eq_nil⟩
  rwa [h.children_nil_iff, hpath, h.default_eq, Ne, hnil]

omit [CommRing V] [LinearOrder V] in
lemma compatible_queue_iff (a b : Site V) : Compatible a.queue b.queue ↔
    (namespaceOf a.path = namespaceOf b.path → ¬ (IsDefault a ∧ IsDefault b) ∧
      ∀ sa, Lists sa a → Lists sa b → sa ≠ "*" → a.path = b.path) := by
  rw [Compatible, isDefaultLeaf_queue, isDefaultLeaf_queue]
  rfl

lemma Rearranged.acceptable {spec spec' : Spec V} (h : Rearranged spec spec')
    (hacc : Acceptable spec) : Acceptable spec' := by
  have hback : ∀ b', (rootSite spec').Below b' →
      ∃ b, (rootSite spec).Below b ∧ b.path = b'.path ∧ Alike b.spec b'.spec := by
    intro b' hb'
    obtain ⟨b, hb, hpath, halike⟩ := (h.symm.named rootName).alike_mirrored.2 _ _ b' hb'
    exact ⟨b, hb, hpath, halike.symm⟩
  constructor
  · intro b' hb'
    obtain ⟨b, hb, -, halike⟩ := hback b' hb'
    exact halike.checked (hacc.sound b hb)
  · intro b' hb'
    obtain ⟨b, hb, hpath, halike⟩ := hback b' hb'
    exact halike.sited hpath.symm (hacc.sited b hb)
  · intro a' b' ha' hb' hne
    obtain ⟨a, ha, hpa, hala⟩ := hback a' ha'
    obtain ⟨b, hb, hpb, halb⟩ := hback b' hb'
    have hold := (compatible_queue_iff a b).mp (hacc.compatible a b ha hb (by rwa [hpa, hpb]))
    rw [hpa, hpb] at hold
    rw [compatible_queue_iff, hala.isDefault_iff, halb.isDefault_iff]
    simpa only [hala.lists_iff, halb.lists_iff] using hold

lemma Rearranged.leafOf {spec spec' : Spec V} (h : Rearranged spec spec') (hacc : Acceptable spec)
    {ns : String} (hns : ns ≠ "") {b : Site V} (hb : LeafOf spec ns b) :
    ∃ b', LeafOf spec' ns b' ∧ b'.path = b.path ∧ Alike b.spec b'.spec := by
  obtain ⟨hbelow, hleaf, hnear⟩ := (leafOf_iff hacc.sound hns).mp hb
  obtain ⟨b', hb', hpath, halike⟩ := (h.named rootName).alike_mirrored.2 _ _ b hbelow
  exact ⟨b', (leafOf_iff (h.acceptable hacc).sound hns).mpr
    ⟨hb', halike.children_nil_iff.mpr hleaf, hpath ▸ hnear⟩, hpath, halike⟩

lemma Rearranged.resolve_eq {spec spec' : Spec V} (h : Rearranged spec spec')
    {m m' : QueueManager V} (hm : newManager spec = .ok m) (hm' : newManager spec' = .ok m')
    {id : Identity} (hdot : '.' ∉ id.ns.toList) : resolve m' id = resolve m id := by
  have hacc := (newManager_ok hm).1
  have hacc' := (newManager_ok hm').1
  by_cases hlists : ∃ b, LeafOf spec id.ns b ∧ Lists id.serviceAccount b
  · obtain ⟨b, hb, hl⟩ := hlists
    obtain ⟨b', hb', hpath, halike⟩ := h.leafOf hacc (ns_ne_of_leafOf hm hb) hb
    rw [resolve_of_lists hm hdot hb hl,
      resolve_of_lists hm' hdot hb' ((halike.lists_iff _).mpr hl), hpath]
  have hno : ∀ b, LeafOf spec id.ns b → ¬ Lists id.serviceAccount b := fun b hb hl =>
    hlists ⟨b, hb, hl⟩
  have hno' : ∀ b', LeafOf spec' id.ns b' → ¬ Lists id.serviceAccount b' := by
    intro b' hb' hl
    obtain ⟨b, hb, -, halike⟩ := h.symm.leafOf hacc' (ns_ne_of_leafOf hm' hb') hb'
    exact hno b hb ((halike.lists_iff _).mpr hl)
  by_cases hdefault : ∃ b, LeafOf spec id.ns b ∧ IsDefault b
  · obtain ⟨b, hb, hd⟩ := hdefault
    obtain ⟨b', hb', hpath, halike⟩ := h.leafOf hacc (ns_ne_of_leafOf hm hb) hb
    rw [resolve_of_isDefault hm hdot hno hb hd,
      resolve_of_isDefault hm' hdot hno' hb' (halike.isDefault_iff.mpr hd), hpath]
  have hnone : ∀ b, LeafOf spec id.ns b → ¬ IsDefault b := fun b hb hd => hdefault ⟨b, hb, hd⟩
  have hnone' : ∀ b', LeafOf spec' id.ns b' → ¬ IsDefault b' := by
    intro b' hb' hd
    obtain ⟨b, hb, -, halike⟩ := h.symm.leafOf hacc' (ns_ne_of_leafOf hm' hb') hb'
    exact hnone b hb (halike.isDefault_iff.mpr hd)
  have hnames : (∃ c ∈ spec'.children, c.name = id.ns) ↔ ∃ c ∈ spec.children, c.name = id.ns := by
    have hperm := h.alike_mirrored.1.children.map Prod.fst
    simpa [Function.comp_def, face] using hperm.mem_iff (a := id.ns)
  rw [resolve_of_none hm hdot hno hnone, resolve_of_none hm' hdot hno' hnone']
  simp only [hnames]

/-- An identity is routed by the one leaf of its namespace that lists its service account,
else by the one default leaf of the namespace, else nowhere. -/
structure RoutedRight (spec : Spec V) (m : QueueManager V) (id : Identity) : Prop where
  exact : (∃ b, LeafOf spec id.ns b ∧ Lists id.serviceAccount b) →
    ∃ b, (∀ b', LeafOf spec id.ns b' ∧ Lists id.serviceAccount b' ↔ b' = b) ∧
      resolve m id = .ok b.path
  default : (¬ ∃ b, LeafOf spec id.ns b ∧ Lists id.serviceAccount b) →
    (∃ b, LeafOf spec id.ns b ∧ IsDefault b) →
    ∃ b, (∀ b', LeafOf spec id.ns b' ∧ IsDefault b' ↔ b' = b) ∧ resolve m id = .ok b.path
  refused : (¬ ∃ b, LeafOf spec id.ns b ∧ Lists id.serviceAccount b) →
    (¬ ∃ b, LeafOf spec id.ns b ∧ IsDefault b) → ∃ err, resolve m id = .error err
  sited : ∀ p, resolve m id = .ok p → m.isLeafPath p = true ∧ namespaceOf p = id.ns

lemma routedRight {spec : Spec V} {m : QueueManager V} (h : newManager spec = .ok m) {id : Identity}
    (hdot : '.' ∉ id.ns.toList) : RoutedRight spec m id := by
  have hacc := (newManager_ok h).1
  have hsame : ∀ a b, LeafOf spec id.ns a → LeafOf spec id.ns b → a.path = b.path → a = b := by
    intro a b ha hb hpath
    have hns := ns_ne_of_leafOf h ha
    exact hacc.sound.eq_of_path ((leafOf_iff hacc.sound hns).mp ha).1
      ((leafOf_iff hacc.sound hns).mp hb).1 hpath
  constructor
  · rintro ⟨b, hb, hl⟩
    have hresolve := resolve_of_lists h hdot hb hl
    refine ⟨b, fun b' => ⟨fun ⟨hb', hl'⟩ => hsame b' b hb' hb ?_, ?_⟩, hresolve⟩
    · exact Except.ok.inj ((resolve_of_lists h hdot hb' hl').symm.trans hresolve)
    · rintro rfl
      exact ⟨hb, hl⟩
  · rintro hno ⟨b, hb, hd⟩
    push Not at hno
    have hresolve := resolve_of_isDefault h hdot hno hb hd
    refine ⟨b, fun b' => ⟨fun ⟨hb', hd'⟩ => hsame b' b hb' hb ?_, ?_⟩, hresolve⟩
    · exact Except.ok.inj ((resolve_of_isDefault h hdot hno hb' hd').symm.trans hresolve)
    · rintro rfl
      exact ⟨hb, hd⟩
  · intro hno hnone
    push Not at hno hnone
    exact ⟨_, resolve_of_none h hdot hno hnone⟩
  · exact fun p hp => ⟨resolve_isLeafPath hp, resolve_namespace hp⟩

lemma isOk_newManager_iff (spec : Spec V) : (newManager spec).isOk = true ↔ Acceptable spec := by
  constructor
  · intro h
    exact (newManager_ok (newManager_treeOf spec h)).1
  · intro h
    obtain ⟨m, hm⟩ := newManager_of_acceptable h
    rw [hm]
    rfl

/-- Routing is unambiguous and refuses what is not mapped, and neither it nor the acceptance
of the tree depends on the order in which children and service accounts are listed. -/
theorem routing_unambiguous (spec : Spec V) :
    (∀ m, newManager spec = .ok m → ∀ id : Identity, '.' ∉ id.ns.toList → RoutedRight spec m id) ∧
    ∀ spec', Rearranged spec spec' → (newManager spec').isOk = (newManager spec).isOk ∧
      ∀ m m', newManager spec = .ok m → newManager spec' = .ok m' →
        ∀ id : Identity, '.' ∉ id.ns.toList → resolve m' id = resolve m id := by
  refine ⟨fun m h id hdot => routedRight h hdot, fun spec' h => ⟨?_, fun m m' hm hm' id hdot => ?_⟩⟩
  · rw [Bool.eq_iff_iff, isOk_newManager_iff, isOk_newManager_iff]
    exact ⟨h.symm.acceptable, h.acceptable⟩
  · exact h.resolve_eq hm hm' hdot

end Accepted

def routedTenant (sas : List String) : Spec ℤ :=
  bareSpec rootName ∅ [bareSpec "team" ∅ [{ bareSpec "jobs" ∅ [] with serviceAccounts := sas },
    { bareSpec "rest" ∅ [] with serviceAccounts := ["*"] }]]

def routedTree : QueueManager ℤ := treeOf (routedTenant ["runner", "etl"]) (by decide +kernel)

example : resolve routedTree ⟨"team", "etl"⟩ = .ok "root.team.jobs" ∧
    resolve routedTree ⟨"team", "other"⟩ = .ok "root.team.rest" ∧
    resolve routedTree ⟨"guests", "etl"⟩ = .error (.notOnboarded "guests") := by
  decide +kernel

theorem tenant_routed : RoutedRight (routedTenant ["runner", "etl"]) routedTree ⟨"team", "etl"⟩ :=
  (routing_unambiguous _).1 _ (newManager_treeOf _ (by decide +kernel)) _ (by decide)

end AdScheduler.Routing
