import AdScheduler.DeclaredQueues

/-! What the ResourceQuotas of a namespace allow, and what becomes of the tree under the
envelopes that `envelopes` of `pkg/framework/coordinator.go` derives from them. -/
namespace AdScheduler.QuotaEnvelopes
open KeyedMap Resources QueueTree TreeShape Manager Requests TreeAssembly Conservation Headroom
open SpecTree PlacementRules QueueSpecs TenantTrees DeclaredQueues DottedPath Fences Outcomes

section Caps
variable {V : Type*} [CommRing V] [LinearOrder V]

lemma nonNegative_iff (r : Resource V) : nonNegative r = true ↔ ∀ d, Allows r d 0 := by
  simp [nonNegative, Allows]

lemma maxWithinParent_iff (childMax parentMax : Resource V) :
    maxWithinParent childMax parentMax = true ↔
      ∀ d ∈ childMax.keys, Allows parentMax d (get childMax d) := by
  simp only [maxWithinParent, decide_eq_true_eq, not_lt, Allows]
  exact ⟨fun h d hc hp => h d hp hc, fun h d hp hc => h d hc hp⟩

lemma allows_insert (cap : Resource V) (k : String) (v : V) (d : String) (x : V) :
    Allows (cap.insert k v) d x ↔ if d = k then x ≤ v else Allows cap d x := by
  unfold Allows
  rw [Finmap.mem_keys, Finmap.mem_insert, get_insert]
  by_cases hd : d = k <;> simp [hd, Finmap.mem_keys]

@[simp] lemma allows_minCap (a b : Resource V) (d : String) (x : V) :
    Allows (minCap a b) d x ↔ Allows a d x ∧ Allows b d x := by
  refine allows_smaller (fun ha hb => ?_) (fun ha hb => ?_) (fun ha hb => ?_) x
  · simp [ha, hb]
  · simp [ha]
  · simp only [ha, hb, true_and, true_implies, not_lt]
    rw [min_def]

lemma eq_of_allows {a b : Resource ℤ} (h : ∀ d x, Allows a d x ↔ Allows b d x) : a = b := by
  have hkeys : ∀ {a b : Resource ℤ}, (∀ d x, Allows a d x ↔ Allows b d x) →
      ∀ d, d ∈ a.keys → d ∈ b.keys := by
    intro a b h d ha
    by_contra hb
    have hmore := (h d (get a d + 1)).mpr (fun hin => absurd hin hb) ha
    omega
  refine Finmap.ext_lookup fun d => ?_
  by_cases ha : d ∈ a.keys
  · have hb := hkeys h d ha
    have hle := (h d (get a d)).mp (fun _ => le_rfl) hb
    have hge := (h d (get b d)).mpr (fun _ => le_rfl) ha
    obtain ⟨x, hx⟩ := Finmap.mem_iff.mp (Finmap.mem_keys.mp ha)
    obtain ⟨y, hy⟩ := Finmap.mem_iff.mp (Finmap.mem_keys.mp hb)
    simp only [Resources.get, hx, hy, Option.getD_some] at hle hge
    rw [hx, hy, le_antisymm hle hge]
  · have hb : d ∉ b.keys := fun hb => ha (hkeys (fun d x => (h d x).symm) d hb)
    rw [Finmap.lookup_eq_none.mpr fun hin => ha (Finmap.mem_keys.mpr hin),
      Finmap.lookup_eq_none.mpr fun hin => hb (Finmap.mem_keys.mpr hin)]

end Caps

section Quotas
variable {V : Type*} [CommRing V] [LinearOrder V]

/-- The limits that count: those of the status, once it has some. -/
def hardOf (rq : ResourceQuota V) : ResourceList V :=
  if rq.statusHard.keys = ∅ then rq.specHard else rq.statusHard

/-- Every hard limit for a dimension is at least the amount. -/
def HardAllows (hard : ResourceList V) (d : String) (x : V) : Prop :=
  ∀ key q, hard.lookup key = some q → envelopeDim key = d → d ≠ "" → x ≤ quantityToUnit d q

/-- Every quota of the namespace that caps the dimension is at least the amount. -/
def QuotasAllow (quotas : List (ResourceQuota V)) (ns d : String) (x : V) : Prop :=
  ∀ rq ∈ quotas, rq.ns = ns → HardAllows (hardOf rq) d x

omit [CommRing V] in
lemma QuotasAllow.mono {quotas : List (ResourceQuota V)} {ns d : String} {x y : V}
    (h : QuotasAllow quotas ns d x) (hle : y ≤ x) : QuotasAllow quotas ns d y :=
  fun rq hrq hns key q hq hdim hd => hle.trans (h rq hrq hns key q hq hdim hd)

lemma allows_tighten (hard : ResourceList V) (env : Resource V) (key d : String) (x : V) :
    Allows (quotaEnvelope.tighten hard env key) d x ↔ Allows env d x ∧
      ∀ q, hard.lookup key = some q → envelopeDim key = d → d ≠ "" → x ≤ quantityToUnit d q := by
  unfold quotaEnvelope.tighten
  cases hq : hard.lookup key with
  | none => simp
  | some q =>
    by_cases hdim : envelopeDim key = ""
    · have hvoid : envelopeDim key = d → ¬ d ≠ "" := fun he hd => hd (he ▸ hdim)
      simp only [hdim, if_true, Option.some.injEq]
      tauto
    · simp only [hdim, if_false]
      change Allows (if envelopeDim key ∈ env ∧
        ¬ quantityToUnit (envelopeDim key) q < get env (envelopeDim key) then env
          else env.insert (envelopeDim key) (quantityToUnit (envelopeDim key) q)) d x ↔ _
      by_cases hd : envelopeDim key = d
      · rw [hd] at hdim ⊢
        simp only [Option.some.injEq, forall_eq', true_implies, hdim, ne_eq, not_false_eq_true]
        split_ifs with hkeep
        · refine ⟨fun h => ⟨h, ?_⟩, fun h => h.1⟩
          exact (h (Finmap.mem_keys.mpr hkeep.1)).trans (not_lt.mp hkeep.2)
        · rw [allows_insert, if_pos rfl]
          refine ⟨fun h => ⟨fun hin => ?_, h⟩, fun h => h.2⟩
          rw [Finmap.mem_keys] at hin
          rw [not_and, not_not] at hkeep
          exact h.trans (hkeep hin).le
      · simp only [hd, false_implies, implies_true, and_true]
        split_ifs with hkeep
        · rfl
        · rw [allows_insert, if_neg (Ne.symm hd)]

lemma allows_foldl_tighten (hard : ResourceList V) (order : List String) (env : Resource V)
    (d : String) (x : V) :
    Allows (order.foldl (quotaEnvelope.tighten hard) env) d x ↔ Allows env d x ∧
      ∀ key ∈ order, ∀ q, hard.lookup key = some q → envelopeDim key = d → d ≠ "" →
        x ≤ quantityToUnit d q := by
  induction order generalizing env with
  | nil => simp
  | cons key rest ih =>
    rw [List.foldl_cons, ih, allows_tighten, List.forall_mem_cons, and_assoc]

lemma allows_visits {hard : ResourceList V} {order : List String} (h : Visits order hard)
    (d : String) (x : V) :
    Allows (order.foldl (quotaEnvelope.tighten hard) ∅) d x ↔ HardAllows hard d x := by
  rw [allows_foldl_tighten, HardAllows]
  simp only [allows_empty, true_and]
  refine forall_congr' fun key => ⟨fun hkey q hq => ?_, fun hkey _ => hkey⟩
  exact hkey ((h.2 key).mpr (Finmap.mem_of_lookup_eq_some hq)) q hq

lemma allows_quotaEnvelope (hard : ResourceList V) (d : String) (x : V) :
    Allows (quotaEnvelope hard) d x ↔ HardAllows hard d x :=
  allows_visits (sortedKeys_visits hard) d x

lemma allows_of_keys_empty {cap : Resource V} (h : cap.keys = ∅) (d : String) (x : V) :
    Allows cap d x := by
  intro hd
  simp [h] at hd

lemma allows_collect (out : Map String (Resource V)) (rq : ResourceQuota V)
    (ns d : String) (x : V) :
    Allows (((envelopes.collect out rq).lookup ns).getD ∅) d x ↔
      Allows ((out.lookup ns).getD ∅) d x ∧
        (rq.ns = ns → HardAllows (hardOf rq) d x) := by
  rw [← allows_quotaEnvelope]
  unfold envelopes.collect
  dsimp only
  rw [← hardOf]
  split_ifs with hempty
  · simp [allows_of_keys_empty hempty]
  · cases hcur : out.lookup rq.ns with
    | none =>
      rw [lookup_insert_ite]
      by_cases hns : ns = rq.ns
      · subst hns
        simp [hcur]
      · simp [hns, Ne.symm hns]
    | some cur =>
      rw [lookup_insert_ite]
      by_cases hns : ns = rq.ns
      · subst hns
        simp [hcur]
      · simp [hns, Ne.symm hns]

/-- The envelope of a namespace allows what each of its quotas does, in whatever order they
are listed. -/
theorem allows_envelopeOf (quotas : List (ResourceQuota V)) (ns d : String) (x : V) :
    Allows (envelopeOf quotas ns) d x ↔ QuotasAllow quotas ns d x := by
  have hfold : ∀ out : Map String (Resource V),
      Allows (((quotas.foldl envelopes.collect out).lookup ns).getD ∅) d x ↔
        Allows ((out.lookup ns).getD ∅) d x ∧ QuotasAllow quotas ns d x := by
    unfold QuotasAllow
    induction quotas with
    | nil => simp
    | cons rq rest ih =>
      intro out
      rw [List.foldl_cons, ih, allows_collect, List.forall_mem_cons, and_assoc]
  rw [envelopeOf, envelopes, hfold]
  simp

end Quotas

section Envelope
variable {V : Type*} [CommRing V] [LinearOrder V] {ns : String} {envelope : Resource V}
  {specs : List (Spec V)}

omit [CommRing V] [LinearOrder V] in
lemma below_bare {b : Site V} (hb : (tenantSite (bareSpec ns envelope specs)).Below b) :
    ∃ a, (tenantSite (bareSpec ns ∅ specs)).Below a ∧
      b.queue = { a.queue with max := b.queue.max } := by
  rcases Site.below_iff.mp hb with rfl | ⟨c, hc, hcb⟩
  · exact ⟨_, Site.below_self _, rfl⟩
  · exact ⟨b, .head hc hcb, rfl⟩

lemma tenant_envelope (h : Tenant (bareSpec ns ∅ specs)) (hnonneg : nonNegative envelope = true)
    (hwithin : ∀ s ∈ specs, maxWithinParent s.max envelope = true) :
    Tenant (bareSpec ns envelope specs) := by
  obtain ⟨hself, hbelow⟩ := (sound_iff _).mp h.sound
  refine ⟨(sound_iff _).mpr ⟨?_, hbelow⟩, fun b hb => ?_, fun a b ha hb hne => ?_⟩
  · exact ⟨hself.name_ne, hself.undotted, hself.guaranteed_nonneg, hnonneg, hself.distinct, hwithin,
      hself.covered⟩
  · obtain ⟨b', hb', heq⟩ := below_bare hb
    rw [heq]
    exact h.sited b' hb'
  · obtain ⟨a', ha', heqa⟩ := below_bare ha
    obtain ⟨b', hb', heqb⟩ := below_bare hb
    have hpaths : a'.path ≠ b'.path := by
      have hpa : a.path = a'.path := congrArg Queue.path heqa
      have hpb : b.path = b'.path := congrArg Queue.path heqb
      rwa [hpa, hpb] at hne
    rw [heqa, heqb]
    exact h.compatible a' b' ha' hb' hpaths

end Envelope

section Assembled
variable {queues : List (QueueCR ℤ)} {quotas : List (ResourceQuota ℤ)}

/-- No top queue declares more than a quota of its namespace leaves. -/
def QuotasCoverTops (queues : List (QueueCR ℤ)) (quotas : List (ResourceQuota ℤ)) : Prop :=
  ∀ cr ∈ queues, (validateQueue cr).isOk = true → cr.parent = "" → ∀ d q,
    cr.max.lookup d = some q → QuotasAllow quotas cr.ns d (quantityToUnit d q)

lemma assemble_under_quotas (hmax : ∀ cr ∈ queues, ∀ d q, cr.max.lookup d = some q →
    0 < quantityToUnit d q) (hhard : ∀ ns d, QuotasAllow quotas ns d 0)
    (hbare : ∃ m₀, assemble queues [] = .ok m₀) :
    (∃ m, assemble queues quotas = .ok m) ↔ QuotasCoverTops queues quotas := by
  constructor
  · intro h cr hcr hvalid hparent d q hq
    have hmem := mem_tenantQueues.mpr ⟨hcr, hvalid, rfl⟩
    obtain ⟨node, hn, htenant⟩ := assemble_ok_iff.mp h cr.ns ⟨cr, hmem⟩
    obtain ⟨specs, rfl, hstands⟩ := buildNamespace_ok hn.built
    obtain ⟨s, hs, hspec⟩ := hstands.top_of_cr hmem hparent
    have hwithin := (htenant.sound _ (Site.below_self _)).within s hs
    rw [maxWithinParent_iff, hspec] at hwithin
    have hd : d ∈ (fromQuantityMap cr.max).keys :=
      mem_fromQuantityMap.mpr ⟨q, hq, (hmax cr hcr d q hq).ne'⟩
    have hcap : Allows (envelopeOf quotas cr.ns) d (get (fromQuantityMap cr.max) d) := hwithin d hd
    rwa [get_fromQuantityMap, hq, Option.elim_some, allows_envelopeOf] at hcap
  · intro h
    rw [assemble_ok_iff] at hbare ⊢
    intro ns hns
    obtain ⟨node, hn, htenant⟩ := hbare ns hns
    obtain ⟨specs, rfl, hstands⟩ := buildNamespace_ok hn.built
    refine ⟨_, ⟨hns, hstands.built (envelopeOf quotas ns)⟩, tenant_envelope htenant ?_ ?_⟩
    · rw [nonNegative_iff]
      exact fun d => (allows_envelopeOf quotas ns d 0).mpr (hhard ns d)
    · intro s hs
      obtain ⟨cr, hcr, hparent, hspec⟩ := hstands.cr_of_top hs
      obtain ⟨hmem, hvalid, rfl⟩ := mem_tenantQueues.mp hcr
      rw [maxWithinParent_iff, hspec]
      intro d hd
      obtain ⟨q, hq, -⟩ := mem_fromQuantityMap.mp hd
      change Allows (envelopeOf quotas cr.ns) d (get (fromQuantityMap cr.max) d)
      rw [get_fromQuantityMap, hq, Option.elim_some, allows_envelopeOf]
      exact h cr hmem hvalid hparent d q hq

/-- The request is within every maximum declared on the way to the root and within the
quotas of the leaf's namespace. -/
def WithinDeclared (queues : List (QueueCR ℤ)) (quotas : List (ResourceQuota ℤ))
    (m : QueueManager ℤ) (leaf : String) (r : Resource ℤ) : Prop :=
  ∀ d ∈ r.keys,
    (∀ n ∈ pathUp m.index leaf, ∀ cr, CrOf queues n cr → ∀ q, cr.max.lookup d = some q →
      get r d ≤ quantityToUnit d q) ∧
    (leaf ≠ rootName → QuotasAllow quotas (namespaceOf leaf) d (get r d))

lemma assemble_used {m : QueueManager ℤ} (h : assemble queues quotas = .ok m) (p d : String) :
    get (m.used p) d = 0 := by
  obtain ⟨spec, hspec⟩ := assemble_newManager h
  exact (newManager_fresh hspec).used p d

lemma canFit_iff_withinDeclared (hmax : ∀ cr ∈ queues, ∀ d q, cr.max.lookup d = some q →
    0 < quantityToUnit d q) {m : QueueManager ℤ} (h : assemble queues quotas = .ok m)
      {leaf : String}
    (hleaf : m.isLeafPath leaf = true) (r : Resource ℤ) :
    m.canFit leaf r = .ok true ↔ WithinDeclared queues quotas m leaf r := by
  have hin := mem_index_of_isLeafPath hleaf
  rw [canFit_iff_fits hin, fits_iff]
  simp only [assemble_used h, zero_add]
  constructor
  · intro hfits d hd
    constructor
    · intro n hn cr hcr q hq
      have hcap := hfits n hn d hd
      rw [max_eq_of_crOf h (lookup_of_mem_pathUp m.wf.toShape hn) hcr,
        allows_fromQuantityMap] at hcap
      exact hcap q hq (hmax cr hcr.mem d q hq).ne'
    · intro hne
      obtain ⟨n, hn, hnode⟩ := exists_node h hin hne
      have hcap := hfits n hn d hd
      rwa [hnode.max_eq, allows_envelopeOf] at hcap
  · intro hwithin n hn d hd
    obtain ⟨hdeclared, hquota⟩ := hwithin d hd
    rcases assemble_origin h (lookup_of_mem_pathUp m.wf.toShape hn) with
      ⟨-, hempty, -⟩ | ⟨ns, hnode⟩ | ⟨cr, hcr, hcap⟩
    · rw [hempty]
      exact allows_empty d _
    · obtain ⟨hne, rfl⟩ := hnode.ns_of_mem_pathUp hn
      rw [hnode.max_eq, allows_envelopeOf]
      exact hquota hne
    · rw [hcap, allows_fromQuantityMap]
      exact fun q hq _ => hdeclared n hn cr hcr q hq

/-- The quotas clamp the tree: it is still accepted, and empty it admits exactly what the
declarations and the quotas allow. -/
def Clamps (queues : List (QueueCR ℤ)) (quotas : List (ResourceQuota ℤ)) : Prop :=
  ∃ m, assemble queues quotas = .ok m ∧ ∀ leaf, m.isLeafPath leaf = true → ∀ r,
    (m.canFit leaf r = .ok true ↔ WithinDeclared queues quotas m leaf r)

/-- Quotas clamp a tree that is accepted without them exactly where no top queue declares
more than a quota of its namespace; the keys of a quota count in any order. -/
theorem quotas_clamp_iff (queues : List (QueueCR ℤ)) (quotas : List (ResourceQuota ℤ))
    (hmax : ∀ cr ∈ queues, ∀ d q, cr.max.lookup d = some q → 0 < quantityToUnit d q)
    (hhard : ∀ rq ∈ quotas, ∀ key q, (hardOf rq).lookup key = some q →
      0 ≤ q.value ∧ 0 ≤ q.milliValue)
    (hbare : ∃ m₀, assemble queues [] = .ok m₀) :
    (Clamps queues quotas ↔ QuotasCoverTops queues quotas) ∧
      ∀ rq ∈ quotas, ∀ order, Visits order (hardOf rq) →
        order.foldl (quotaEnvelope.tighten (hardOf rq)) ∅ = quotaEnvelope (hardOf rq) := by
  have hnonneg : ∀ ns d, QuotasAllow quotas ns d 0 := by
    intro ns d rq hrq _ key q hq _ _
    obtain ⟨hvalue, hmilli⟩ := hhard rq hrq key q hq
    unfold quantityToUnit
    split_ifs
    · exact hmilli
    · exact hvalue
  refine ⟨?_, fun rq _ order horder => eq_of_allows fun d x => ?_⟩
  · rw [← assemble_under_quotas hmax hnonneg hbare]
    constructor
    · rintro ⟨m, hm, -⟩
      exact ⟨m, hm⟩
    · rintro ⟨m, hm⟩
      exact ⟨m, hm, fun leaf hleaf r => canFit_iff_withinDeclared hmax hm hleaf r⟩
  · rw [allows_visits horder, allows_quotaEnvelope]

end Assembled

def cpuQuota (ns : String) (cap : ℤ) : ResourceQuota ℤ :=
  ⟨ns, Finmap.singleton "requests.cpu" ⟨0, cap⟩, ∅⟩

/-- A quota below the maximum of a top queue is no clamp: the tree is rejected. -/
theorem quota_below_max_rejected :
    let queues := [bareQueue "team" "jobs" 10 []]
    (assemble queues []).isOk = true ∧
    (match assemble queues [cpuQuota "team" 4] with
      | .error e => decide (e = .tree (.maxExceedsParent "jobs" "root.team"))
      | .ok _ => false) = true ∧
    ¬ Clamps queues [cpuQuota "team" 4] := by
  intro queues
  have hrejected : (match assemble queues [cpuQuota "team" 4] with
      | .error e => decide (e = .tree (.maxExceedsParent "jobs" "root.team"))
      | .ok _ => false) = true := by decide +kernel
  refine ⟨by decide +kernel, hrejected, ?_⟩
  rintro ⟨m, hm, -⟩
  simp [hm] at hrejected

theorem quota_above_max_clamps :
    let queues := [bareQueue "team" "jobs" 4 []]
    Clamps queues [cpuQuota "team" 10] := by
  intro queues
  have hone : ∀ cr ∈ queues, ∀ d q, cr.max.lookup d = some q → d = "cpu" ∧ q = ⟨0, 4⟩ := by
    intro cr hcr d q hq
    rw [List.mem_singleton.mp hcr] at hq
    exact lookup_singleton_eq_some.mp hq
  have hquota : ∀ rq ∈ [cpuQuota "team" 10], ∀ key q, (hardOf rq).lookup key = some q →
      key = "requests.cpu" ∧ q = ⟨0, 10⟩ := by
    intro rq hrq key q hq
    rw [List.mem_singleton.mp hrq] at hq
    exact lookup_singleton_eq_some.mp hq
  refine (quotas_clamp_iff queues [cpuQuota "team" 10] ?_ ?_ ?_).1.mpr ?_
  · intro cr hcr d q hq
    obtain ⟨rfl, rfl⟩ := hone cr hcr d q hq
    decide
  · intro rq hrq key q hq
    obtain ⟨-, rfl⟩ := hquota rq hrq key q hq
    decide
  · exact exists_ok_of_isOk (by decide +kernel)
  · intro cr hcr _ _ d q hq rq hrq _ key h hh _ _
    obtain ⟨rfl, rfl⟩ := hone cr hcr d q hq
    obtain ⟨-, rfl⟩ := hquota rq hrq key h hh
    decide

end AdScheduler.QuotaEnvelopes
