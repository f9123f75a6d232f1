import AdScheduler.GangAgreement
import AdScheduler.Headroom
import AdScheduler.PeakRequests
import AdScheduler.MachineInt

/-! The headroom gate over the 64-bit integers of the code, against the exact sums. No sum
is checked for overflow: not those of a pod, not those of a queue. -/
namespace AdScheduler.OverflowGate
open KeyedMap Resources QueueTree TreeShape Manager Conservation EngineCore LedgerTree Runs
open GangAgreement Headroom Requests PeakRequests MachineInt

/-- The exact reading of what the code holds in 64 bits. -/
def exactQuantity (q : Quantity Int64) : Quantity ℤ := ⟨q.value.toInt, q.milliValue.toInt⟩

def exactList (rl : ResourceList Int64) : ResourceList ℤ :=
  tabulate rl.keys fun name => (rl.lookup name).elim ⟨0, 0⟩ exactQuantity

def exactContainer (c : Container Int64) : Container ℤ := ⟨exactList c.requests, c.restartPolicy⟩

def exactPod (pod : Pod Int64) : Pod ℤ where
  uid := pod.uid
  ns := pod.ns
  annotations := pod.annotations
  labels := pod.labels
  creationTimestamp := pod.creationTimestamp
  deletionTimestamp := pod.deletionTimestamp
  serviceAccountName := pod.serviceAccountName
  schedulerName := pod.schedulerName
  nodeName := pod.nodeName
  priority := pod.priority
  phase := pod.phase
  containers := pod.containers.map exactContainer
  initContainers := pod.initContainers.map exactContainer
  overhead := pod.overhead.map exactList
  resourceClaims := pod.resourceClaims

/-- What the pod asks for, computed without bounds on the integers. -/
def exactRequest (pod : Pod Int64) (d : String) : ℤ := get (effectiveRequest (exactPod pod)) d

/-- No container and no overhead asks for a negative amount. -/
structure NonNegative (pod : Pod Int64) : Prop where
  containers : ∀ c ∈ pod.containers ++ pod.initContainers, ∀ d, 0 ≤ asked c d
  overhead : ∀ d, 0 ≤ overheadOf pod d

lemma toInt_nonneg {x : Int64} (h : 0 ≤ x) : 0 ≤ x.toInt := Int64.le_iff_toInt_le.mp h

section Exact

lemma quantityToUnit_exactList (rl : ResourceList Int64) (d : String) :
    ((exactList rl).lookup d).elim 0 (quantityToUnit d) =
      ((rl.lookup d).elim 0 (quantityToUnit d)).toInt := by
  rw [exactList, lookup_tabulate]
  cases h : rl.lookup d with
  | none =>
    have hd : d ∉ rl.keys := fun hin => Finmap.lookup_eq_none.mp h (Finmap.mem_keys.mp hin)
    rw [if_neg hd]
    rfl
  | some q =>
    rw [if_pos (Finmap.mem_keys.mpr (Finmap.mem_of_lookup_eq_some h))]
    simp only [Option.elim_some, quantityToUnit, exactQuantity]
    split_ifs <;> rfl

lemma asked_exactContainer (c : Container Int64) (d : String) :
    asked (exactContainer c) d = (asked c d).toInt := quantityToUnit_exactList c.requests d

lemma overheadOf_exactPod (pod : Pod Int64) (d : String) :
    overheadOf (exactPod pod) d = (overheadOf pod d).toInt := by
  simp only [overheadOf, exactPod]
  cases pod.overhead with
  | none => rfl
  | some overhead => exact quantityToUnit_exactList overhead d

lemma load_exact (cs : List (Container Int64)) (d : String) :
    load (cs.map exactContainer) d = ((cs.map (asked · d)).map Int64.toInt).sum := by
  simp [load, Function.comp_def, asked_exactContainer]

lemma filter_exactContainer (cs : List (Container Int64)) :
    (cs.map exactContainer).filter restartable = (cs.filter restartable).map exactContainer := by
  rw [List.filter_map]
  rfl

lemma running_exact {pod : Pod Int64} {cs : List (Container Int64)} (h : Running pod cs) :
    Running (exactPod pod) (cs.map exactContainer) := by
  cases h with
  | @starting before after c h =>
    have hinit : (exactPod pod).initContainers =
        before.map exactContainer ++ exactContainer c :: after.map exactContainer := by
      simp [exactPod, h]
    simpa [filter_exactContainer] using Running.starting hinit
  | initialised =>
    have hready : ready (exactPod pod) = (ready pod).map exactContainer := by
      simp [ready, exactPod, filter_exactContainer]
    rw [← hready]
    exact .initialised

lemma exists_of_running_exact {pod : Pod Int64} {cs : List (Container ℤ)}
    (h : Running (exactPod pod) cs) :
    ∃ cs', Running pod cs' ∧ cs = cs'.map exactContainer := by
  cases h with
  | starting h =>
    obtain ⟨before, rest, hsplit, rfl, hrest⟩ := List.map_eq_append_iff.mp h
    obtain ⟨c, after, rfl, rfl, rfl⟩ := List.map_eq_cons_iff.mp hrest
    exact ⟨_, .starting hsplit, by simp [filter_exactContainer]⟩
  | initialised =>
    exact ⟨_, .initialised, by simp [ready, exactPod, filter_exactContainer]⟩

variable {pod : Pod Int64} {d : String}

lemma NonNegative.load_nonneg (hpod : NonNegative pod) {cs : List (Container Int64)}
    (h : Running pod cs) : 0 ≤ load (cs.map exactContainer) d := by
  apply PeakRequests.load_nonneg
  intro c hc
  obtain ⟨c', hc', rfl⟩ := List.mem_map.mp hc
  rw [asked_exactContainer]
  exact toInt_nonneg (hpod.containers c' (mem_of_running h hc') d)

lemma NonNegative.exact_peak (hpod : NonNegative pod) (d : String) :
    ∃ peak, IsGreatest {x | ∃ cs, Running pod cs ∧ load (cs.map exactContainer) d = x} peak ∧
      exactRequest pod d = peak + (overheadOf pod d).toInt := by
  obtain ⟨cs, hcs, hready⟩ := exists_of_running_exact (.initialised : Running (exactPod pod) _)
  have hnonneg : 0 ≤ load (ready (exactPod pod)) d := hready ▸ hpod.load_nonneg hcs
  obtain ⟨peak, hpeak, heq⟩ := effectiveRequest_peak hnonneg
  have hsame : loads (exactPod pod) d =
      {x | ∃ cs, Running pod cs ∧ load (cs.map exactContainer) d = x} := by
    ext x
    constructor
    · rintro ⟨_, hrun, rfl⟩
      obtain ⟨cs, hcs, rfl⟩ := exists_of_running_exact hrun
      exact ⟨cs, hcs, rfl⟩
    · rintro ⟨cs, hcs, rfl⟩
      exact ⟨_, running_exact hcs, rfl⟩
  exact ⟨peak, hsame ▸ hpeak, by rw [exactRequest, heq, overheadOf_exactPod]⟩

lemma NonNegative.exactRequest_nonneg (hpod : NonNegative pod) (d : String) :
    0 ≤ exactRequest pod d := by
  obtain ⟨peak, ⟨⟨cs, hcs, rfl⟩, -⟩, heq⟩ := hpod.exact_peak d
  rw [heq]
  exact add_nonneg (hpod.load_nonneg hcs) (toInt_nonneg (hpod.overhead d))

lemma NonNegative.request_exact (hpod : NonNegative pod) (h : exactRequest pod d < 2 ^ 63) :
    (get (effectiveRequest pod) d).toInt = exactRequest pod d := by
  obtain ⟨peak, hpeak, heq⟩ := hpod.exact_peak d
  have hover : 0 ≤ (overheadOf pod d).toInt := toInt_nonneg (hpod.overhead d)
  -- no sum met while the pod runs is above the peak, so none wraps
  have hload {cs : List (Container Int64)} (hcs : Running pod cs) :
      (load cs d).toInt = load (cs.map exactContainer) d := by
    have hle : load (cs.map exactContainer) d ≤ peak := hpeak.2 ⟨cs, hcs, rfl⟩
    rw [load_exact] at hle ⊢
    refine toInt_sum_of_lt ?_ (by omega)
    intro x hx
    obtain ⟨c, hc, rfl⟩ := List.mem_map.mp hx
    exact toInt_nonneg (hpod.containers c (mem_of_running hcs hc) d)
  have hready : 0 ≤ load (ready pod) d := by
    rw [Int64.le_iff_toInt_le, hload .initialised]
    exact hpod.load_nonneg .initialised
  obtain ⟨word, ⟨⟨cs, hcs, hword⟩, hmax⟩, heff⟩ := effectiveRequest_peak hready
  have hsame : word.toInt = peak := by
    apply le_antisymm
    · rw [← hword, hload hcs]
      exact hpeak.2 ⟨cs, hcs, rfl⟩
    · obtain ⟨cs', hcs', hpeak'⟩ := hpeak.1
      rw [← hpeak', ← hload hcs', ← Int64.le_iff_toInt_le]
      exact hmax ⟨cs', hcs', rfl⟩
  have hpos : 0 ≤ word.toInt := by
    rw [← hword, hload hcs]
    exact hpod.load_nonneg hcs
  rw [heff, toInt_add_of_lt hpos hover (by omega)]
  omega

end Exact

/-- The engine, with the pod behind each entry of its ledger. -/
structure Ledger where
  engine : Engine Int64
  pods : Map String (Pod Int64)

/-- The calls by which pods are booked and given up. -/
inductive Booking
  | reserve (pod : Pod Int64) (leaf : String)
  | observeBound (pod : Pod Int64) (leaf : String)
  | commit (uid : String)
  | unreserve (uid : String)
  | observeDeleted (uid : String)

def Ledger.note (s : Ledger) (pod : Pod Int64) : Map String (Pod Int64) :=
  if pod.uid ∈ s.engine.book then s.pods else s.pods.insert pod.uid pod

/-- A pod is reserved once the gate lets it through; a bound one is booked as it is. -/
def bookings : Machine Ledger Booking where
  enabled s
    | .reserve pod leaf => NonNegative pod ∧
        ∃ t, s.engine.tree = some t ∧ t.canFit leaf (effectiveRequest pod) = .ok true
    | .observeBound pod _ => NonNegative pod
    | _ => True
  next s
    | .reserve pod leaf => ⟨s.engine.reserve pod.uid leaf (effectiveRequest pod), s.note pod⟩
    | .observeBound pod leaf =>
      ⟨s.engine.observeBound pod.uid leaf (effectiveRequest pod), s.note pod⟩
    | .commit uid => { s with engine := s.engine.commit uid }
    | .unreserve uid => { s with engine := s.engine.unreserve uid }
    | .observeDeleted uid => { s with engine := s.engine.observeDeleted uid }

/-- The exact sum of the requests of the pods booked under a queue. -/
def Ledger.booked (s : Ledger) (ix : Index Int64) (n d : String) : ℤ :=
  total s.engine.book fun uid rec =>
    if Charges ix rec.leaf n then (s.pods.lookup uid).elim 0 (exactRequest · d) else 0

section Runs

/-- Every entry of the second ledger has the request it had in the first. -/
def Carries (e e' : Engine Int64) : Prop := ∀ uid rec', e'.book.lookup uid = some rec' →
  ∃ rec, e.book.lookup uid = some rec ∧ rec.req = rec'.req

def Posts (e e' : Engine Int64) (uid : String) (req : Resource Int64) : Prop :=
  uid ∉ e.book ∧ ∃ rec : BookRec Int64, e'.book = e.book.insert uid rec ∧ rec.req = req

lemma Carries.refl (e : Engine Int64) : Carries e e := fun _ rec h => ⟨rec, h, rfl⟩

lemma carries_commit (e : Engine Int64) (uid : String) : Carries e (e.commit uid) := by
  unfold Engine.commit
  cases hrec : e.book.lookup uid with
  | none => exact .refl e
  | some rec =>
    dsimp only
    split_ifs
    · exact .refl e
    · intro u rec' h
      rcases lookup_insert_cases h with ⟨rfl, rfl⟩ | ⟨-, h⟩
      · exact ⟨rec, hrec, rfl⟩
      · exact ⟨rec', h, rfl⟩

lemma carries_unreserve (e : Engine Int64) (uid : String) : Carries e (e.unreserve uid) := by
  unfold Engine.unreserve
  repeat' split
  · exact .refl e
  · exact .refl e
  · exact fun u rec' h => ⟨rec', lookup_of_erase h, rfl⟩

lemma carries_observeDeleted (e : Engine Int64) (uid : String) :
    Carries e (e.observeDeleted uid) := by
  unfold Engine.observeDeleted
  split
  · exact .refl e
  · exact fun u rec' h => ⟨rec', lookup_of_erase h, rfl⟩

lemma reserve_posts (e : Engine Int64) (uid leaf : String) (req : Resource Int64) :
    Carries e (e.reserve uid leaf req) ∨ Posts e (e.reserve uid leaf req) uid req := by
  unfold Engine.reserve
  split_ifs with hmem
  · exact .inl (.refl e)
  cases e.tree with
  | none => exact .inl (.refl e)
  | some t =>
    dsimp only
    split
    · exact .inl fun _ rec h => ⟨rec, h, rfl⟩
    · exact .inr ⟨hmem, _, rfl, rfl⟩

lemma observeBound_posts (e : Engine Int64) (uid leaf : String) (req : Resource Int64) :
    Carries e (e.observeBound uid leaf req) ∨ Posts e (e.observeBound uid leaf req) uid req := by
  cases ht : e.tree with
  | none =>
    rw [Engine.observeBound, ht]
    exact .inl (.refl e)
  | some t =>
    cases hrec : e.book.lookup uid with
    | none =>
      rw [Engine.observeBound, ht, hrec]
      dsimp only
      split_ifs
      · exact .inr ⟨Finmap.lookup_eq_none.mp hrec, _, rfl, rfl⟩
      · exact .inl (.refl e)
    | some rec =>
      have hcommit : e.observeBound uid leaf req = e.commit uid := by
        rw [Engine.observeBound, Engine.commit, ht, hrec]
        cases hs : rec.state <;> simp [hs]
      rw [hcommit]
      exact .inl (carries_commit e uid)

/-- What holds of every ledger on the way: the tree carries the entries and nothing else,
and each entry stands for the pod noted beside it. -/
structure Kept (s : Ledger) : Prop where
  balanced : Balanced s.engine
  gangs : ∀ t, s.engine.tree = some t → t.gangs = ∅
  pods : ∀ uid rec, s.engine.book.lookup uid = some rec →
    ∃ pod, s.pods.lookup uid = some pod ∧ NonNegative pod ∧ rec.req = effectiveRequest pod

lemma lookup_note {s : Ledger} {uid : String} (h : uid ∈ s.engine.book) (pod : Pod Int64) :
    (s.note pod).lookup uid = s.pods.lookup uid := by
  unfold Ledger.note
  split_ifs with hin
  · rfl
  · have hne : uid ≠ pod.uid := by
      rintro rfl
      exact hin h
    exact Finmap.lookup_insert_of_ne _ hne

lemma Kept.next {s : Ledger} (hs : Kept s) {e' : Engine Int64} {pods' : Map String (Pod Int64)}
    (hgangs : SameGangs s.engine e') (hb : Balanced e')
    (hpods : ∀ uid rec, e'.book.lookup uid = some rec →
      ∃ pod, pods'.lookup uid = some pod ∧ NonNegative pod ∧ rec.req = effectiveRequest pod) :
    Kept ⟨e', pods'⟩ := by
  refine ⟨hb, fun t' (ht' : e'.tree = some t') => ?_, hpods⟩
  have hsame := hgangs.tree
  rw [ht', Option.map_some, eq_comm, Option.map_eq_some_iff] at hsame
  obtain ⟨t, ht, hskeleton⟩ := hsame
  exact (congrArg Prod.snd hskeleton).symm.trans (hs.gangs t ht)

lemma Kept.carries {s : Ledger} (hs : Kept s) {e' : Engine Int64} (h : Carries s.engine e')
    (pods' : Map String (Pod Int64))
    (hpods : ∀ uid ∈ s.engine.book, pods'.lookup uid = s.pods.lookup uid) (uid : String)
    (rec' : BookRec Int64) (hrec' : e'.book.lookup uid = some rec') :
    ∃ pod, pods'.lookup uid = some pod ∧ NonNegative pod ∧ rec'.req = effectiveRequest pod := by
  obtain ⟨rec, hrec, hreq⟩ := h uid rec' hrec'
  rw [hpods uid (Finmap.mem_of_lookup_eq_some hrec), ← hreq]
  exact hs.pods uid rec hrec

lemma Kept.posts {s : Ledger} (hs : Kept s) {e' : Engine Int64} {pod : Pod Int64}
    (hpod : NonNegative pod)
    (h : Carries s.engine e' ∨ Posts s.engine e' pod.uid (effectiveRequest pod)) (uid : String)
    (rec' : BookRec Int64) (hrec' : e'.book.lookup uid = some rec') :
    ∃ p, (s.note pod).lookup uid = some p ∧ NonNegative p ∧ rec'.req = effectiveRequest p := by
  rcases h with h | ⟨hnew, rec, hbook, hreq⟩
  · exact hs.carries h _ (fun uid hin => lookup_note hin pod) uid rec' hrec'
  rw [hbook] at hrec'
  rcases lookup_insert_cases hrec' with ⟨rfl, rfl⟩ | ⟨-, hold⟩
  · refine ⟨pod, ?_, hpod, hreq⟩
    rw [Ledger.note, if_neg hnew, Finmap.lookup_insert]
  · rw [lookup_note (Finmap.mem_of_lookup_eq_some hold)]
    exact hs.pods uid rec' hold

lemma Kept.step {s : Ledger} (hs : Kept s) {b : Booking} (h : bookings.enabled s b) :
    Kept (bookings.next s b) := by
  cases b with
  | reserve pod leaf =>
    exact hs.next (sameGangs_reserve _ _ _ _) (balanced_reserve hs.balanced _ _ _)
      (hs.posts h.1 (reserve_posts _ _ _ _))
  | observeBound pod leaf =>
    exact hs.next (sameGangs_observeBound _ _ _ _) (balanced_observeBound hs.balanced _ _ _)
      (hs.posts h (observeBound_posts _ _ _ _))
  | commit uid =>
    exact hs.next (sameGangs_commit _ uid) (balanced_commit hs.balanced uid)
      (hs.carries (carries_commit _ uid) _ fun _ _ => rfl)
  | unreserve uid =>
    exact hs.next (sameGangs_unreserve _ uid) (balanced_unreserve hs.balanced uid)
      (hs.carries (carries_unreserve _ uid) _ fun _ _ => rfl)
  | observeDeleted uid =>
    exact hs.next (sameGangs_observeDeleted _ uid) (balanced_observeDeleted hs.balanced uid)
      (hs.carries (carries_observeDeleted _ uid) _ fun _ _ => rfl)

lemma kept_run {spec : Spec Int64} {t₀ : QueueManager Int64} (ht₀ : newManager spec = .ok t₀)
    {timeout : ℤ} {bs : List Booking} {s : Ledger}
    (hrun : Run bookings ⟨engineOn timeout t₀, ∅⟩ bs s) : Kept s := by
  refine hrun.invariant ⟨balanced_engineOn (newManager_fresh ht₀) timeout, ?_, ?_⟩
    fun s b hs hb => hs.step hb
  · rintro t ⟨⟩
    exact (newManager_fresh ht₀).gangs
  · intro uid rec hrec
    cases hrec

end Runs

section Gate
variable {s : Ledger} {t : QueueManager Int64} {pod : Pod Int64} {leaf n d : String}

lemma Kept.entry_nonneg (hs : Kept s) (ix : Index Int64) (n d : String) (uid : String)
    (rec : BookRec Int64) (hrec : s.engine.book.lookup uid = some rec) :
    0 ≤ if Charges ix rec.leaf n then (s.pods.lookup uid).elim 0 (exactRequest · d) else 0 := by
  obtain ⟨pod, hpod, hnonneg, -⟩ := hs.pods uid rec hrec
  rw [hpod]
  split_ifs
  · exact hnonneg.exactRequest_nonneg d
  · exact le_rfl

lemma Kept.booked_nonneg (hs : Kept s) (ix : Index Int64) (n d : String) : 0 ≤ s.booked ix n d :=
  total_nonneg _ (hs.entry_nonneg ix n d)

lemma Kept.used_exact (hs : Kept s) (ht : s.engine.tree = some t)
    (h : s.booked t.index n d < 2 ^ 63) : (get (t.used n) d).toInt = s.booked t.index n d := by
  have hnone : holdDemand t n d = 0 := by
    rw [holdDemand, hs.gangs t ht, total_empty]
  have hcast : podDemand t.index s.engine.book n d = ((s.booked t.index n d : ℤ) : Int64) := by
    change _ = Int.castAddHom Int64 (s.booked t.index n d)
    rw [Ledger.booked, map_total]
    refine total_congr _ fun uid rec hrec => ?_
    obtain ⟨pod, hpod, hnonneg, hreq⟩ := hs.pods uid rec hrec
    have hle := sum_lookup_le_total (hs.entry_nonneg t.index n d) (List.nodup_singleton uid)
    simp only [List.map_cons, List.map_nil, List.sum_singleton, hrec, Option.elim_some, hpod] at hle
    rw [hpod]
    by_cases hc : Charges t.index rec.leaf n
    · rw [if_pos hc] at hle
      have hfit : exactRequest pod d < 2 ^ 63 := lt_of_le_of_lt hle h
      rw [if_pos hc, if_pos hc, hreq, Option.elim_some, ← hnonneg.request_exact hfit]
      exact (intCast_toInt _).symm
    · rw [if_neg hc, if_neg hc, map_zero]
  have hlow := hs.booked_nonneg t.index n d
  rw [(hs.balanced t ht).used, hnone, add_zero, hcast, toInt_intCast (by omega) h]

/-- One queue and one dimension: a request that passes is within the maximum unless the
exact sum leaves the 64 bits. -/
lemma Kept.within_max (hs : Kept s) (ht : s.engine.tree = some t) (hpod : NonNegative pod)
    (hfit : t.canFit leaf (effectiveRequest pod) = .ok true) {q : Queue Int64}
    (hq : q ∈ pathUp t.index leaf) (hd : d ∈ q.max.keys) (hasks : 0 < exactRequest pod d)
    (h : s.booked t.index q.path d + exactRequest pod d < 2 ^ 63) :
    s.booked t.index q.path d + exactRequest pod d ≤ (get q.max d).toInt := by
  have hlow := hs.booked_nonneg t.index q.path d
  have hused := hs.used_exact ht (n := q.path) (d := d) (by omega)
  have hneed := hpod.request_exact (d := d) (by omega)
  have hmax : 0 ≤ (get q.max d).toInt :=
    toInt_nonneg (t.wf.max_nonneg (lookup_of_mem_pathUp t.wf.toShape hq) d)
  have hkey : d ∈ (effectiveRequest pod).keys := by
    refine mem_keys_of_get_ne_zero fun hzero => ?_
    rw [hzero] at hneed
    exact hasks.ne hneed
  have hin : leaf ∈ t.index := by
    by_contra hout
    rw [pathUp_unknown (Finmap.lookup_eq_none.mpr hout)] at hq
    cases hq
  have hall := (canFit_iff_fits hin _).mp hfit
  simp only [QueueManager.fits, List.all_eq_true, decide_eq_true_eq] at hall
  have hroom := hall q hq d hkey hd
  rw [Int64.lt_iff_toInt_lt, toInt_sub_of_nonneg hmax (by omega), hused, hneed] at hroom
  omega

/-- A pod's request is exact, and so not negative, where the exact one fits; and a request
that passes the gate keeps every queue on its way within its maximum, as exact sums, if and
only if those sums fit. -/
theorem gate_exact_iff {spec : Spec Int64} {t₀ : QueueManager Int64}
    (ht₀ : newManager spec = .ok t₀) {timeout : ℤ} {bs : List Booking}
    (hrun : Run bookings ⟨engineOn timeout t₀, ∅⟩ bs s) (ht : s.engine.tree = some t)
    (hpod : NonNegative pod) (leaf : String) :
    (∀ d, ((get (effectiveRequest pod) d).toInt = exactRequest pod d ↔
        exactRequest pod d < 2 ^ 63) ∧
      (exactRequest pod d < 2 ^ 63 → 0 ≤ get (effectiveRequest pod) d)) ∧
    (t.canFit leaf (effectiveRequest pod) = .ok true →
      ((∀ q ∈ pathUp t.index leaf, ∀ d ∈ q.max.keys, 0 < exactRequest pod d →
          s.booked t.index q.path d + exactRequest pod d ≤ (get q.max d).toInt) ↔
        ∀ q ∈ pathUp t.index leaf, ∀ d ∈ q.max.keys, 0 < exactRequest pod d →
          s.booked t.index q.path d + exactRequest pod d < 2 ^ 63)) := by
  have hs := kept_run ht₀ hrun
  refine ⟨fun d => ⟨⟨fun h => ?_, hpod.request_exact⟩, fun h => ?_⟩, fun hfit => ⟨?_, ?_⟩⟩
  · rw [← h]
    exact Int64.toInt_lt _
  · rw [Int64.le_iff_toInt_le, hpod.request_exact h]
    exact hpod.exactRequest_nonneg d
  · intro h q hq d hd hasks
    exact lt_of_le_of_lt (h q hq d hd hasks) (Int64.toInt_lt _)
  · intro h q hq d hd hasks
    exact hs.within_max ht hpod hfit hq hd hasks (h q hq d hd hasks)

def memoryPod (uid : String) (amounts : List Int64) : Pod Int64 where
  uid := uid
  ns := "team"
  annotations := ∅
  labels := ∅
  creationTimestamp := 0
  deletionTimestamp := none
  serviceAccountName := "default"
  schedulerName := "ad-scheduler"
  nodeName := ""
  priority := none
  phase := .pending
  containers := amounts.map fun x => ⟨Finmap.singleton "memory" ⟨x, 0⟩, none⟩
  initContainers := []
  overhead := none
  resourceClaims := []

lemma memoryPod_nonNegative (uid : String) {amounts : List Int64}
    (h : (amounts.all fun x => decide (0 ≤ x)) = true) : NonNegative (memoryPod uid amounts) := by
  refine ⟨fun c hc d => ?_, fun d => le_rfl⟩
  rw [memoryPod, List.append_nil, List.mem_map] at hc
  obtain ⟨x, hx, rfl⟩ := hc
  by_cases hd : d = "memory"
  · rw [asked, hd, Finmap.lookup_singleton_eq]
    exact of_decide_eq_true (List.all_eq_true.mp h x hx)
  · rw [asked, Finmap.lookup_eq_none.mpr (by simpa using hd)]
    rfl

def memoryLeaf (max : Int64) : Spec Int64 :=
  bareSpec rootName ∅ [bareSpec "a" (Finmap.singleton "memory" max) []]

/-- Two containers of 2^62 bytes add up to a negative request, which passes; and once two
bound pods of about 2^62 bytes are booked, the used amount is negative and one more byte
passes. -/
theorem wrapped_sums_pass :
    let t₀ := treeOf (memoryLeaf 1000) (by decide +kernel)
    let huge := memoryPod "huge" [2 ^ 62, 2 ^ 62]
    let small := memoryPod "small" [1]
    let s := [.observeBound (memoryPod "p" [2 ^ 62]) "root.a",
      .observeBound (memoryPod "q" [2 ^ 62 + 5000]) "root.a"].foldl bookings.next ⟨engineOn 0 t₀, ∅⟩
    (NonNegative huge ∧ get (effectiveRequest huge) "memory" < 0 ∧
      t₀.canFit "root.a" (effectiveRequest huge) = .ok true ∧
      1000 < exactRequest huge "memory") ∧
    ∃ bs, Run bookings ⟨engineOn 0 t₀, ∅⟩ bs s ∧ NonNegative small ∧
      (match s.engine.tree with
        | none => false
        | some t => decide (t.canFit "root.a" (effectiveRequest small) = .ok true ∧
            1000 < s.booked t.index "root.a" "memory" + exactRequest small "memory")) = true := by
  intro t₀ huge small s
  refine ⟨⟨memoryPod_nonNegative _ (by decide +kernel), by decide +kernel, by decide +kernel,
    by decide +kernel⟩, _, Machine.Legal.run ⟨?_, ?_, trivial⟩, memoryPod_nonNegative _ ?_, ?_⟩
  · exact memoryPod_nonNegative _ (by decide +kernel)
  · exact memoryPod_nonNegative _ (by decide +kernel)
  · decide +kernel
  · decide +kernel

def partlyBooked : Ledger :=
  bookings.next ⟨engineOn 0 (treeOf (memoryLeaf 1000) (by decide +kernel)), ∅⟩
    (.reserve (memoryPod "q" [400]) "root.a")

theorem small_sums_within :
    ∃ t, partlyBooked.engine.tree = some t ∧
      t.canFit "root.a" (effectiveRequest (memoryPod "p" [200, 300])) = .ok true ∧
      0 ≤ get (effectiveRequest (memoryPod "p" [200, 300])) "memory" ∧
      ∀ q ∈ pathUp t.index "root.a", ∀ d ∈ q.max.keys,
        0 < exactRequest (memoryPod "p" [200, 300]) d →
        partlyBooked.booked t.index q.path d + exactRequest (memoryPod "p" [200, 300]) d ≤
          (get q.max d).toInt := by
  have hpod : NonNegative (memoryPod "p" [200, 300]) := memoryPod_nonNegative _ (by decide +kernel)
  have hfirst : NonNegative (memoryPod "q" [400]) := memoryPod_nonNegative _ (by decide +kernel)
  have hrun : Run bookings _ [.reserve (memoryPod "q" [400]) "root.a"] partlyBooked :=
    .snoc .nil ⟨hfirst, _, rfl, by decide +kernel⟩
  have hroom : partlyBooked.engine.tree.all (fun t =>
      decide (t.canFit "root.a" (effectiveRequest (memoryPod "p" [200, 300])) = .ok true ∧
        ∀ q ∈ pathUp t.index "root.a", ∀ d ∈ q.max.keys,
          0 < exactRequest (memoryPod "p" [200, 300]) d →
          partlyBooked.booked t.index q.path d + exactRequest (memoryPod "p" [200, 300]) d <
            2 ^ 63)) = true := by
    decide +kernel
  have hsome : partlyBooked.engine.tree.isSome = true := by decide +kernel
  obtain ⟨t, ht⟩ := Option.isSome_iff_exists.mp hsome
  rw [ht, Option.all_some, decide_eq_true_eq] at hroom
  obtain ⟨hexact, hgate⟩ :=
    gate_exact_iff (newManager_treeOf (memoryLeaf 1000) (by decide +kernel)) hrun ht hpod "root.a"
  exact ⟨t, ht, hroom.1, (hexact "memory").2 (by decide +kernel), (hgate hroom.1).mpr hroom.2⟩

end Gate

end AdScheduler.OverflowGate
