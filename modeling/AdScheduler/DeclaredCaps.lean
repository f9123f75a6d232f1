import AdScheduler.QuotaEnvelopes

/-! Which declared maxima bind. A maximum of zero is dropped on its way into the tree, where
an absent dimension is unlimited. -/
namespace AdScheduler.DeclaredCaps
open KeyedMap Resources QueueTree TreeShape Manager Requests TreeAssembly Conservation Headroom
open DeclaredQueues QuotaEnvelopes Outcomes

/-- Whatever is booked in the tree, a request for more than the cap does not fit the leaf, and
a new gang asking for it is not admitted. -/
def Enforced (m : QueueManager ℤ) (leaf d : String) (cap : ℤ) : Prop :=
  ∀ u : QueueManager ℤ, u.index = m.index → (∀ p e, 0 ≤ get (u.used p) e) → ∀ r, cap < get r d →
    u.canFit leaf r = .ok false ∧
      ∀ g, g ∉ u.gangs → (u.admitGang leaf g r).1 = u ∧ (u.admitGang leaf g r).2 ≠ .ok true

lemma admitGang_of_not_fits {m : QueueManager ℤ} {leaf g : String} {r : Resource ℤ}
    (hg : g ∉ m.gangs) (h : m.fits leaf r = false) :
    (m.admitGang leaf g r).1 = m ∧ (m.admitGang leaf g r).2 ≠ .ok true := by
  rcases admitGang_cases m leaf g r with ⟨hadmits, -⟩ | ⟨-, hsame, hheld⟩
  · rw [hadmits.fits] at h
    cases h
  · exact ⟨hsame, fun hok => hg (hheld hok)⟩

lemma enforced_of_not_fits {m : QueueManager ℤ} {leaf d : String} {cap : ℤ} (hin : leaf ∈ m.index)
    (h : ∀ u : QueueManager ℤ, u.index = m.index → (∀ p e, 0 ≤ get (u.used p) e) → ∀ r,
      cap < get r d → ¬ u.fits leaf r = true) : Enforced m leaf d cap := by
  intro u hindex hused r hr
  have hfits : u.fits leaf r = false := by
    rw [Bool.eq_false_iff]
    exact h u hindex hused r hr
  obtain ⟨q, hq⟩ := Finmap.mem_iff.mp hin
  refine ⟨?_, fun g hg => admitGang_of_not_fits hg hfits⟩
  rw [QueueManager.canFit, hindex, hq]
  simp only [hfits]

variable {queues : List (QueueCR ℤ)} {quotas : List (ResourceQuota ℤ)} {m : QueueManager ℤ}
  {leaf d : String} {cap : ℤ}

lemma enforced_of_bound (hin : leaf ∈ m.index) {n : Queue ℤ} (hn : n ∈ pathUp m.index leaf)
    (hcap : 0 ≤ cap) (hbound : ∀ x, cap < x → ¬ Allows n.max d x) : Enforced m leaf d cap := by
  refine enforced_of_not_fits hin fun u hindex hused r hr hfits => ?_
  rw [fits_iff, hindex] at hfits
  have hd : d ∈ r.keys := mem_keys_of_get_ne_zero (by omega)
  have hroom := hfits n hn d hd
  have hnonneg := hused n.path d
  exact hbound _ (by omega) hroom

lemma one_unit_fits (h : assemble queues quotas = .ok m) (hin : leaf ∈ m.index)
    (hquota : QuotasAllow quotas (namespaceOf leaf) d 1) :
    m.canFit leaf (Finmap.singleton d 1) = .ok true := by
  rw [canFit_iff_fits hin, fits_iff]
  intro x hx e he
  obtain rfl : e = d := by simpa using he
  rw [assemble_used h, zero_add, get_singleton, if_pos rfl]
  have hlook := lookup_of_mem_pathUp m.wf.toShape hx
  rcases assemble_origin h hlook with ⟨-, hempty, -⟩ | ⟨ns, hns⟩ | ⟨cr, -, hmax⟩
  · rw [hempty]
    exact allows_empty e 1
  · rw [hns.max_eq, allows_envelopeOf, ← (hns.ns_of_mem_pathUp hx).2]
    exact hquota
  · rw [hmax, allows_fromQuantityMap]
    intro q hq hne
    have hnonneg := m.wf.max_nonneg hlook e
    rw [hmax, get_fromQuantityMap, hq, Option.elim_some] at hnonneg
    omega

/-- A declared maximum binds exactly where it is not zero, or where a quota of the namespace
leaves nothing of the dimension anyway. -/
theorem declared_max_enforced_iff (h : assemble queues quotas = .ok m)
    (hleaf : m.isLeafPath leaf = true) {n : Queue ℤ} (hn : n ∈ pathUp m.index leaf)
    {cr : QueueCR ℤ} (hcr : CrOf queues n cr) {q : Quantity ℤ} (hq : cr.max.lookup d = some q) :
    Enforced m leaf d (quantityToUnit d q) ↔
      quantityToUnit d q ≠ 0 ∨ ¬ QuotasAllow quotas cr.ns d 1 := by
  have hin := mem_index_of_isLeafPath hleaf
  have hlook := lookup_of_mem_pathUp m.wf.toShape hn
  have hmax := max_eq_of_crOf h hlook hcr
  have hcap : 0 ≤ quantityToUnit d q := by
    have hnonneg := m.wf.max_nonneg hlook d
    rwa [hmax, get_fromQuantityMap, hq, Option.elim_some] at hnonneg
  obtain ⟨node, hnode, hns⟩ := exists_node_of_crOf h hin hn hcr
  constructor
  · intro henforced
    by_contra hno
    rw [not_or, not_not, not_not] at hno
    obtain ⟨hzero, hquota⟩ := hno
    have hfits := one_unit_fits h hin ((hns.ns_of_mem_pathUp hnode).2 ▸ hquota)
    have hnone := (henforced m rfl (fun p e => (assemble_used h p e).ge) (Finmap.singleton d 1)
      (by simp [hzero, get_singleton])).1
    rw [hfits] at hnone
    cases hnone
  · rintro (hne | hquota)
    · refine enforced_of_bound hin hn hcap fun x hx hallows => ?_
      rw [hmax, allows_fromQuantityMap] at hallows
      exact absurd (hallows q hq hne) (not_le.mpr hx)
    · refine enforced_of_bound hin hnode hcap fun x hx hallows => ?_
      rw [hns.max_eq, allows_envelopeOf] at hallows
      exact hquota (QuotasAllow.mono hallows (by omega))

/-- A queue with a maximum of zero takes any request and admits a gang. -/
theorem zero_max_admits :
    let queues := [bareQueue "team" "jobs" 0 []]
    let r : Resource ℤ := Finmap.singleton "cpu" 5
    (match assemble queues [] with
      | .error _ => false
      | .ok m => decide (m.canFit "root.team.jobs" r = .ok true ∧
          (m.admitGang "root.team.jobs" "team/gang" r).2 = .ok true)) = true := by
  decide +kernel

theorem four_enforced :
    ∃ m : QueueManager ℤ, assemble [bareQueue "team" "jobs" 4 []] [] = .ok m ∧
      Enforced m "root.team.jobs" "cpu" 4 := by
  obtain ⟨m, hm, hleaf, n, hn, hname, hns, hparent⟩ : ∃ m : QueueManager ℤ,
      assemble [bareQueue "team" "jobs" 4 []] [] = .ok m ∧
        m.isLeafPath "root.team.jobs" = true ∧ ∃ n ∈ pathUp m.index "root.team.jobs",
          n.name = "jobs" ∧ namespaceOf n.path = "team" ∧ n.parent = some "root.team" :=
    exists_ok_of_any (by decide +kernel)
  have hcr : CrOf [bareQueue "team" "jobs" 4 []] n (bareQueue "team" "jobs" 4 []) :=
    ⟨List.mem_singleton_self _, by decide +kernel, hname, hns, _, hparent, by decide⟩
  have hcap : quantityToUnit "cpu" (⟨0, 4⟩ : Quantity ℤ) = 4 := by decide
  refine ⟨m, hm, hcap ▸ (declared_max_enforced_iff hm hleaf hn hcr ?_).mpr (.inl (by decide))⟩
  exact lookup_singleton_eq_some.mpr ⟨rfl, rfl⟩

end AdScheduler.DeclaredCaps
