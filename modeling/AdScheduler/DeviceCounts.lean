import AdScheduler.Plugins
import AdScheduler.MachineInt

/-! What the two modes of `PodDeviceRequests` count. The mode that fails closed is read against
the one that fails open: it returns the same counts, on the pods whose device counts are all
known ahead of the allocation. -/
namespace AdScheduler.DeviceCounts
open Resources Requests Outcomes CoordinatorCore Plugins

variable {V : Type*}

def Named (prc : PodResourceClaim) : Prop :=
  prc.resourceClaimName.getD "" ≠ "" ∨ prc.resourceClaimTemplateName.getD "" ≠ ""

/-- What a lookup finds, where it is configured and does not fail. -/
def found (lookup : ClaimLookup V) (ns name : String) : Option (ResourceClaimSpec V) :=
  lookup.bind fun find => (find ns name).toOption

/-- The claim behind a reference: a claim name goes before a template name. -/
def specOf (ns : String) (claim template : ClaimLookup V) (prc : PodResourceClaim) :
    Option (ResourceClaimSpec V) :=
  if prc.resourceClaimName.getD "" ≠ "" then found claim ns (prc.resourceClaimName.getD "")
  else if prc.resourceClaimTemplateName.getD "" ≠ "" then
    found template ns (prc.resourceClaimTemplateName.getD "")
  else none

/-- The device requests of the claim behind a reference. -/
def claimRequests (ns : String) (claim template : ClaimLookup V) (prc : PodResourceClaim) :
    List (DeviceRequest V) :=
  (specOf ns claim template prc).elim [] ResourceClaimSpec.requests

/-- All device requests of a pod that its references resolve to. -/
def resolvedRequests (pod : Pod V) (claim template : ClaimLookup V) : List (DeviceRequest V) :=
  pod.resourceClaims.flatMap (claimRequests pod.ns claim template)

/-- At most one of the two shapes of a request is set. -/
def OneShape (req : DeviceRequest V) : Prop := req.exactly = none ∨ req.firstAvailable = []

/-- The number of devices is known ahead of the allocation: there are no alternatives, and a
class is not asked for with all its devices. -/
@[mk_iff] structure Known (req : DeviceRequest V) : Prop where
  noAlternatives : req.firstAvailable = []
  counted : ∀ r ∈ req.exactly, r.deviceClassName ≠ "" → r.allocationMode ≠ .all

lemma resolveClaimSpec_cases (ns : String) (claim template : ClaimLookup V)
    (prc : PodResourceClaim) :
    (¬ Named prc ∧ specOf ns claim template prc = none ∧
      resolveClaimSpec ns prc claim template = .ok none) ∨
    (∃ spec, Named prc ∧ specOf ns claim template prc = some spec ∧
      resolveClaimSpec ns prc claim template = .ok (some spec)) ∨
    (∃ err, Named prc ∧ specOf ns claim template prc = none ∧
      resolveClaimSpec ns prc claim template = .error err) := by
  unfold Named specOf resolveClaimSpec found
  by_cases hclaim : prc.resourceClaimName.getD "" = ""
  · by_cases htemplate : prc.resourceClaimTemplateName.getD "" = ""
    · simp [hclaim, htemplate]
    · cases template with
      | none => simp [hclaim, htemplate]
      | some lookup =>
        cases hfound : lookup ns (prc.resourceClaimTemplateName.getD "") <;>
          simp [hclaim, htemplate, hfound, Except.toOption]
  · cases claim with
    | none => simp [hclaim]
    | some lookup =>
      cases hfound : lookup ns (prc.resourceClaimName.getD "") <;>
        simp [hclaim, hfound, Except.toOption]

lemma claimAsks_eq (ns : String) (claim template : ClaimLookup V) (prc : PodResourceClaim) :
    deviceAsks.claimAsks claim template ns prc =
      (claimRequests ns claim template prc).filterMap DeviceRequest.asked := by
  unfold deviceAsks.claimAsks claimRequests
  obtain ⟨-, hspec, hcode⟩ | ⟨spec, -, hspec, hcode⟩ | ⟨err, -, hspec, hcode⟩ :=
    resolveClaimSpec_cases ns claim template prc <;> simp [hspec, hcode]

lemma deviceAsks_eq (pod : Pod V) (claim template : ClaimLookup V) :
    deviceAsks pod claim template =
      (resolvedRequests pod claim template).filterMap DeviceRequest.asked := by
  have hasks := funext (claimAsks_eq pod.ns claim template)
  rw [deviceAsks, resolvedRequests, List.filterMap_flatMap, hasks]

variable [CommRing V] [LinearOrder V]

lemma addExact_open (out : Resource V) (r : ExactDeviceRequest V) (reqName : String) :
    ∃ out', addExact out r reqName false = .ok out' := by
  unfold addExact
  by_cases hclass : r.deviceClassName = ""
  · simp [hclass]
  · by_cases hall : r.allocationMode = .all <;> simp [hclass, hall]

lemma addExact_strictOn (out : Resource V) (r : ExactDeviceRequest V) (reqName : String) :
    StrictOn (r.deviceClassName ≠ "" → r.allocationMode ≠ .all) (addExact out r reqName true)
      (addExact out r reqName false) := by
  intro out'
  unfold addExact
  by_cases hclass : r.deviceClassName = ""
  · simp [hclass]
  · by_cases hall : r.allocationMode = .all <;> simp [hclass, hall]

lemma addDeviceRequest_open (out : Resource V) (req : DeviceRequest V) :
    ∃ out', addDeviceRequest out req false = .ok out' := by
  unfold addDeviceRequest
  split
  · exact addExact_open out _ _
  · simpa using addExact_open out _ _
  · exact ⟨out, rfl⟩

lemma addDeviceRequest_strictOn (out : Resource V) {req : DeviceRequest V} (hone : OneShape req) :
    StrictOn (Known req) (addDeviceRequest out req true) (addDeviceRequest out req false) := by
  unfold addDeviceRequest
  cases hexactly : req.exactly with
  | some r =>
    have hnone : req.firstAvailable = [] := hone.resolve_left (by simp [hexactly])
    exact (addExact_strictOn out r req.name).congr (by simp [known_iff, hexactly, hnone])
  | none =>
    cases hfirst : req.firstAvailable with
    | nil => exact (StrictOn.refl (.ok out)).congr (by simp [known_iff, hexactly, hfirst])
    | cons sr rest => exact strictOn_error (by simp [known_iff, hfirst]) _ _

lemma addDeviceRequests_eq_foldlM (failClosed : Bool) (reqs : List (DeviceRequest V))
    (out : Resource V) : addDeviceRequests failClosed reqs out =
      reqs.foldlM (fun out req => addDeviceRequest out req failClosed) out := by
  induction reqs generalizing out with
  | nil => rfl
  | cons req rest ih =>
    rw [addDeviceRequests, List.foldlM_cons]
    cases addDeviceRequest out req failClosed with
    | error err => rfl
    | ok mid => exact ih mid

/-- The body of the loop over the claims of a pod. -/
def addClaim (ns : String) (claim template : ClaimLookup V) (failClosed : Bool) (out : Resource V)
    (prc : PodResourceClaim) : Except DRAErr (Resource V) :=
  match resolveClaimSpec ns prc claim template with
  | .error err => if failClosed then .error err else .ok out
  | .ok none => .ok out
  | .ok (some spec) => addDeviceRequests failClosed spec.requests out

lemma addClaims_eq_foldlM (ns : String) (claim template : ClaimLookup V) (failClosed : Bool)
    (claims : List PodResourceClaim) (out : Resource V) :
    addClaims ns claim template failClosed claims out =
      claims.foldlM (addClaim ns claim template failClosed) out := by
  induction claims generalizing out with
  | nil => rfl
  | cons prc rest ih =>
    rw [addClaims, List.foldlM_cons, addClaim]
    rcases resolveClaimSpec ns prc claim template with err | _ | spec
    · cases failClosed with
      | true => rfl
      | false => exact ih out
    · exact ih out
    · dsimp only
      cases addDeviceRequests failClosed spec.requests out with
      | error err => rfl
      | ok mid => exact ih mid

section Claims
variable (ns : String) (claim template : ClaimLookup V) (out : Resource V)

lemma addClaim_open (prc : PodResourceClaim) :
    ∃ out', addClaim ns claim template false out prc = .ok out' := by
  unfold addClaim
  rcases resolveClaimSpec ns prc claim template with err | _ | spec
  · exact ⟨out, rfl⟩
  · exact ⟨out, rfl⟩
  · dsimp only
    rw [addDeviceRequests_eq_foldlM]
    exact foldlM_ok addDeviceRequest_open _ out

lemma addClaim_strictOn {prc : PodResourceClaim}
    (hone : ∀ req ∈ claimRequests ns claim template prc, OneShape req) :
    StrictOn ((Named prc → (specOf ns claim template prc).isSome) ∧
        ∀ req ∈ claimRequests ns claim template prc, Known req)
      (addClaim ns claim template true out prc) (addClaim ns claim template false out prc) := by
  unfold addClaim
  obtain ⟨hnamed, hspec, hcode⟩ | ⟨spec, hnamed, hspec, hcode⟩ | ⟨err, hnamed, hspec, hcode⟩ :=
    resolveClaimSpec_cases ns claim template prc
  · rw [hcode]
    exact (StrictOn.refl (.ok out)).congr (by simp [claimRequests, hnamed, hspec])
  · have hreqs : claimRequests ns claim template prc = spec.requests := by
      simp [claimRequests, hspec]
    rw [hreqs] at hone ⊢
    simp only [hcode, addDeviceRequests_eq_foldlM]
    have hloop := strictOn_foldlM (fun req hreq mid =>
      addDeviceRequest_strictOn mid (hone req hreq)) out
    exact hloop.congr (by simp [hspec])
  · rw [hcode]
    exact strictOn_error (by simp [hnamed, hspec]) err _

end Claims

/-- Every reference that names a claim or a template resolves, and every request behind one
is for a known number of devices. -/
@[mk_iff] structure Accountable (pod : Pod V) (claim template : ClaimLookup V) : Prop where
  resolves : ∀ prc ∈ pod.resourceClaims, Named prc → (specOf pod.ns claim template prc).isSome
  known : ∀ req ∈ resolvedRequests pod claim template, Known req

/-- A count that is not positive stands for one device. -/
def devices (r : ExactDeviceRequest V) : V := if 0 < r.count then r.count else 1

/-- The numbers of devices of one class that exact requests ask for. -/
def classCounts (reqs : List (DeviceRequest V)) (cls : String) : List V :=
  ((reqs.filterMap DeviceRequest.exactly).filter (·.deviceClassName = cls)).map devices

lemma podDeviceRequests_open (pod : Pod V) (claim template : ClaimLookup V) :
    ∃ out, podDeviceRequests pod claim template false = .ok out := by
  obtain ⟨raw, hraw⟩ :=
    foldlM_ok (addClaim_open pod.ns claim template) pod.resourceClaims ∅
  rw [podDeviceRequests, addClaims_eq_foldlM, hraw]
  exact ⟨prune raw, rfl⟩

lemma podDeviceRequests_strictOn {pod : Pod V} {claim template : ClaimLookup V}
    (hone : ∀ req ∈ resolvedRequests pod claim template, OneShape req) :
    StrictOn (Accountable pod claim template) (podDeviceRequests pod claim template true)
      (podDeviceRequests pod claim template false) := by
  rw [resolvedRequests, List.forall_mem_flatMap] at hone
  have hloop := strictOn_foldlM
    (fun prc hprc out => addClaim_strictOn pod.ns claim template out (hone prc hprc)) ∅
  simp only [podDeviceRequests, addClaims_eq_foldlM]
  refine (hloop.map prune).congr ?_
  rw [accountable_iff, resolvedRequests, List.forall_mem_flatMap, forall₂_and]

lemma amount_eq {r : ExactDeviceRequest V} {cls : String} (hcls : cls ≠ "")
    (hcounted : r.deviceClassName ≠ "" → r.allocationMode ≠ .all) :
    r.amount (draDimPrefix ++ cls) = if r.deviceClassName = cls then devices r else 0 := by
  unfold ExactDeviceRequest.amount ExactDeviceRequest.countable devices
  by_cases hclass : r.deviceClassName = cls
  · subst hclass
    have hone : ¬ r.count ≤ 0 ↔ 0 < r.count := not_le
    by_cases hcount : r.count ≤ 0 <;> simp [hcls, hcounted hcls, ← hone, hcount]
  · simp [hclass, Ne.symm hclass]

lemma sum_amount_eq {reqs : List (DeviceRequest V)} (h : ∀ req ∈ reqs, Known req) {cls : String}
    (hcls : cls ≠ "") :
    ((reqs.filterMap DeviceRequest.asked).map (·.amount (draDimPrefix ++ cls))).sum =
      (classCounts reqs cls).sum := by
  unfold classCounts
  induction reqs with
  | nil => rfl
  | cons req rest ih =>
    rw [List.forall_mem_cons] at h
    have hasked : req.asked = req.exactly := by
      simp [DeviceRequest.asked, h.1.noAlternatives]
    cases hexactly : req.exactly with
    | none => simpa [hasked, hexactly] using ih h.2
    | some r =>
      have hamount := amount_eq hcls (h.1.counted r hexactly)
      by_cases hclass : r.deviceClassName = cls <;>
        simp [hasked, hexactly, hamount, hclass, ih h.2]

lemma podDeviceRequests_counts {pod : Pod V} {claim template : ClaimLookup V}
    (hone : ∀ req ∈ resolvedRequests pod claim template, OneShape req) {out : Resource V}
    (hout : podDeviceRequests pod claim template true = .ok out) {cls : String} (hcls : cls ≠ "") :
    get out (draDimPrefix ++ cls) =
      (classCounts (resolvedRequests pod claim template) cls).sum := by
  have hknown := ((podDeviceRequests_strictOn hone out).mp hout).1.known
  rw [podDeviceRequests_get hout, deviceAsks_eq, sum_amount_eq hknown hcls]

/-- Failing closed is exact, and failing open agrees with it wherever it succeeds. -/
theorem device_counts_exact (pod : Pod V) (claim template : ClaimLookup V)
    (hone : ∀ req ∈ resolvedRequests pod claim template, OneShape req) :
    ((∃ out, podDeviceRequests pod claim template true = .ok out) ↔
      Accountable pod claim template) ∧
    (∀ out, podDeviceRequests pod claim template true = .ok out → ∀ cls, cls ≠ "" →
      get out (draDimPrefix ++ cls) =
        (classCounts (resolvedRequests pod claim template) cls).sum) ∧
    (∃ out, podDeviceRequests pod claim template false = .ok out) ∧
    (∀ out, podDeviceRequests pod claim template true = .ok out →
      podDeviceRequests pod claim template false = .ok out) := by
  have hstrict := podDeviceRequests_strictOn hone
  have hopen := podDeviceRequests_open pod claim template
  refine ⟨hstrict.exists_ok_iff hopen, ?_, hopen, ?_⟩
  · intro out hout cls hcls
    exact podDeviceRequests_counts hone hout hcls
  · intro out hout
    exact ((hstrict out).mp hout).2

theorem mixed_references_counted :
    let pod := { barePod "pod" "team" "runner" 1 with
      resourceClaims := [⟨some "claim", none⟩, ⟨some "", some "template"⟩, ⟨none, none⟩] }
    let claim : ClaimLookup ℤ := some fun _ _ =>
      .ok ⟨[⟨"exact", some ⟨"gpu", .exactCount, 2⟩, []⟩, ⟨"default", some ⟨"gpu", .unset, 0⟩, []⟩]⟩
    let template : ClaimLookup ℤ := some fun _ _ =>
      .ok ⟨[⟨"only", some ⟨"fpga", .exactCount, 4⟩, []⟩]⟩
    ∃ out, podDeviceRequests pod claim template true = .ok out ∧
      podDeviceRequests pod claim template false = .ok out ∧
      get out (draDimPrefix ++ "gpu") = 3 ∧ get out (draDimPrefix ++ "fpga") = 4 := by
  intro pod claim template
  have hone : ∀ req ∈ resolvedRequests pod claim template, OneShape req := by
    intro req hreq
    refine Or.inr (List.isEmpty_iff.mp ?_)
    exact List.all_eq_true.mp (by decide +kernel :
      (resolvedRequests pod claim template).all (·.firstAvailable.isEmpty) = true) req hreq
  obtain ⟨-, hcounts, -, hopen⟩ := device_counts_exact pod claim template hone
  obtain ⟨out, hout⟩ : ∃ out, podDeviceRequests pod claim template true = .ok out :=
    exists_ok_of_isOk (by decide +kernel)
  refine ⟨out, hout, hopen out hout, ?_, ?_⟩
  · rw [hcounts out hout "gpu" (by decide)]
    decide +kernel
  · rw [hcounts out hout "fpga" (by decide)]
    decide +kernel

lemma toInt_devices_nonneg (r : ExactDeviceRequest Int64) : 0 ≤ (devices r).toInt := by
  unfold devices
  split_ifs with hcount
  · exact (Int64.lt_iff_toInt_lt.mp hcount).le
  · decide

/-- The sums above are those of the integers that `V` stands for. On 64 bits they wrap around;
a count is the exact one where the exact one fits. -/
theorem machine_count_exact {pod : Pod Int64} {claim template : ClaimLookup Int64}
    (hone : ∀ req ∈ resolvedRequests pod claim template, OneShape req) {out : Resource Int64}
    (hout : podDeviceRequests pod claim template true = .ok out) {cls : String} (hcls : cls ≠ "")
    (hfits :
      ((classCounts (resolvedRequests pod claim template) cls).map Int64.toInt).sum < 2 ^ 63) :
    (get out (draDimPrefix ++ cls)).toInt =
      ((classCounts (resolvedRequests pod claim template) cls).map Int64.toInt).sum := by
  rw [podDeviceRequests_counts hone hout hcls]
  refine MachineInt.toInt_sum_of_lt ?_ hfits
  intro n hn
  obtain ⟨r, -, rfl⟩ := List.mem_map.mp hn
  exact toInt_devices_nonneg r

section PreFilter
variable {cap : Capacity V} {pod : Pod V}

lemma request_strictOn
    (hone : ∀ req ∈ resolvedRequests pod cap.draClaims cap.draTemplates, OneShape req) :
    StrictOn (Accountable pod cap.draClaims cap.draTemplates)
      (Capacity.request { cap with draFailClosed := true } pod)
      (Capacity.request { cap with draFailClosed := false } pod) := by
  have hrequest : ∀ cap : Capacity V, cap.request pod =
      (podDeviceRequests pod cap.draClaims cap.draTemplates cap.draFailClosed).map fun dra =>
        if isEmpty dra then effectiveRequest pod else add (effectiveRequest pod) dra := by
    intro cap
    unfold Capacity.request
    cases podDeviceRequests pod cap.draClaims cap.draTemplates cap.draFailClosed <;> rfl
  rw [hrequest, hrequest]
  exact (podDeviceRequests_strictOn hone).map _

/-- Failing closed turns pods away and changes nothing else: PreFilter passes the pods with
known device counts among those that it passes when it fails open, in the same state. -/
theorem preFilter_strictOn (c : Coordinator V)
    (hone : ∀ req ∈ resolvedRequests pod cap.draClaims cap.draTemplates, OneShape req) :
    StrictOn (Accountable pod cap.draClaims cap.draTemplates)
      (Capacity.preFilter { cap with draFailClosed := true } c pod)
      (Capacity.preFilter { cap with draFailClosed := false } c pod) := by
  intro s
  unfold Capacity.preFilter
  cases c.engine.tree with
  | none => simp
  | some t =>
    cases hleaf : Placement.resolve t pod.placementKey with
    | error err => simp [hleaf]
    | ok leaf =>
      have hreq := request_strictOn hone
      cases hclosed : Capacity.request { cap with draFailClosed := true } pod with
      | ok req =>
        obtain ⟨hacc, hopen⟩ := (hreq req).mp hclosed
        simp only [hleaf, hopen, hacc, true_and]
      | error err =>
        -- the lenient request exists, so it is the condition that fails
        cases hopen : Capacity.request { cap with draFailClosed := false } pod with
        | ok req =>
          have hunknown : ¬ Accountable pod cap.draClaims cap.draTemplates := by
            intro hacc
            simp [(hreq req).mpr ⟨hacc, hopen⟩] at hclosed
          simp [hleaf, hunknown]
        | error err' => simp [hleaf]

end PreFilter

end AdScheduler.DeviceCounts
