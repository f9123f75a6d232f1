import AdScheduler.NodePreemption
import AdScheduler.Rounding
import Mathlib.Data.Finset.Fold

/-! The score of a node, after `pkg/plugins/capacity/score.go`, `pkg/queue/nodesort.go` and
`pkg/resource/drf.go`. The shares are computed in binary64, so a share here is a rational that was
rounded after every operation; shares and scores are between 2 ^ -63 and 2 ^ 63 or zero, where the
format has neither subnormal numbers nor overflows. -/
namespace AdScheduler.NodeScoring
open KeyedMap Resources Requests Plugins NodePreemption

/-- A result of Go's float64 arithmetic. -/
def float64 (x : ℚ) : ℚ := Rounding.round 52 x

section DominantShare
variable (usage capacity : Resource ℤ)

/-- The loop over the usage, from the dominant share so far; `⊤` is `posInf`. -/
def shareLoop : List String → ℚ → WithTop ℚ
  | [], dominant => dominant
  | k :: rest, dominant =>
    if get usage k ≤ 0 then shareLoop rest dominant
    else if get capacity k ≤ 0 then ⊤
    else
      let share := float64 (float64 (get usage k : ℤ) / float64 (get capacity k : ℤ))
      shareLoop rest (if dominant < share then share else dominant)

/-- The dominant share, the usage visited in the given order. -/
def dominantShare (order : List String) : WithTop ℚ := shareLoop usage capacity order 0

end DominantShare

inductive NodeSortPolicy
  | nodeSpread
  | nodeBinpack
  deriving DecidableEq

def parseNodeSortPolicy (s : String) : NodeSortPolicy :=
  if s = "binpacking" ∨ s = "binpack" then .nodeBinpack else .nodeSpread

def maxNodeScore : ℚ := 100

/-- Go's conversion to an integer. -/
def toInt64 (x : ℚ) : ℤ := x.num.tdiv x.den

def clampShare (util : WithTop ℚ) : ℚ :=
  let util := if util < 0 then 0 else util
  if 1 < util then 1 else util.untopD 1

def scoreOf (policy : NodeSortPolicy) (util : ℚ) : ℤ :=
  match policy with
  | .nodeBinpack => toInt64 (float64 (util * maxNodeScore))
  | .nodeSpread => toInt64 (float64 (float64 (1 - util) * maxNodeScore))

def nodeScore (policy : NodeSortPolicy) (order : List String)
    (used request capacity : Resource ℤ) : ℤ :=
  scoreOf policy (clampShare (dominantShare (add used request) capacity order))

/-- The dimensions of a request that the node advertises. -/
def scoreReq (req : Resource ℤ) (ni : NodeInfo ℤ) : Resource ℤ :=
  tabulate (req.keys.filter fun d => d ∈ fwkResource ni.allocatable) (get req)

/-- The request that is scored: the one PreFilter computed, if its state is there. -/
def scoredRequest (state : Option (PreFilterState ℤ)) (pod : Pod ℤ) : Resource ℤ :=
  match state with
  | some s => s.req
  | none => effectiveRequest pod

def score (policy : NodeSortPolicy) (order : List String) (state : Option (PreFilterState ℤ))
    (pod : Pod ℤ) (ni : NodeInfo ℤ) : ℤ :=
  nodeScore policy order (fwkResource ni.requested) (scoreReq (scoredRequest state pod) ni)
    (fwkResource ni.allocatable)

section Shares
variable {usage capacity : Resource ℤ}

/-- The share in one dimension, computed with a rounding. -/
def shareIn (rnd : ℚ → ℚ) (usage capacity : Resource ℤ) (k : String) : WithTop ℚ :=
  if get usage k ≤ 0 then 0
  else if get capacity k ≤ 0 then ⊤
  else (rnd (rnd (get usage k : ℤ) / rnd (get capacity k : ℤ)) : ℚ)

/-- The largest share over all dimensions, in no order. -/
def largestShare (rnd : ℚ → ℚ) (usage capacity : Resource ℤ) : WithTop ℚ :=
  usage.keys.fold max 0 (shareIn rnd usage capacity)

lemma shareLoop_le_iff (order : List String) {dominant : ℚ} (h : 0 ≤ dominant) (x : WithTop ℚ) :
    shareLoop usage capacity order dominant ≤ x ↔
      dominant ≤ x ∧ ∀ k ∈ order, shareIn float64 usage capacity k ≤ x := by
  induction order generalizing dominant with
  | nil => simp [shareLoop]
  | cons k rest ih =>
    rw [shareLoop, List.forall_mem_cons]
    by_cases hu : get usage k ≤ 0
    · have hzero : (dominant : WithTop ℚ) ≤ x → 0 ≤ x := fun hx => le_trans (mod_cast h) hx
      have hshare : shareIn float64 usage capacity k = 0 := if_pos hu
      rw [if_pos hu, ih h, hshare]
      tauto
    by_cases hc : get capacity k ≤ 0
    · have hshare : shareIn float64 usage capacity k = ⊤ := by rw [shareIn, if_neg hu, if_pos hc]
      rw [if_neg hu, if_pos hc, hshare, top_le_iff]
      refine ⟨?_, fun hx => hx.2.1⟩
      rintro rfl
      simp
    · have hshare : shareIn float64 usage capacity k
          = (float64 (float64 (get usage k : ℤ) / float64 (get capacity k : ℤ)) : ℚ) := by
        rw [shareIn, if_neg hu, if_neg hc]
      rw [if_neg hu, if_neg hc, hshare]
      dsimp only
      generalize float64 (float64 (get usage k : ℤ) / float64 (get capacity k : ℤ)) = share
      rw [← max_def_lt, ih (h.trans (le_max_left _ _)), WithTop.coe_max, max_le_iff, and_assoc]

lemma largestShare_le_iff (rnd : ℚ → ℚ) (x : WithTop ℚ) :
    largestShare rnd usage capacity ≤ x ↔
      0 ≤ x ∧ ∀ k ∈ usage.keys, shareIn rnd usage capacity k ≤ x :=
  Finset.fold_max_le x

lemma dominantShare_eq {order : List String} (hv : Visits order usage) :
    dominantShare usage capacity order = largestShare float64 usage capacity := by
  refine eq_of_forall_ge_iff fun x => ?_
  rw [dominantShare, shareLoop_le_iff order le_rfl, largestShare_le_iff, WithTop.coe_zero]
  simp only [hv.2, Finmap.mem_keys]

lemma float64_mono : Monotone float64 := Rounding.round_mono

@[simp] lemma float64_zero : float64 0 = 0 := Rounding.round_zero

@[simp] lemma float64_one : float64 1 = 1 := Rounding.round_one

/-- The quantities of a node are numbers of the format: a capacity is not negative, and everything
is below 2 ^ 53, which for bytes is 8 PiB. -/
structure Representable (usage capacity : Resource ℤ) : Prop where
  usage_lt : ∀ d, get usage d < 2 ^ 53
  capacity_nonneg : ∀ d, 0 ≤ get capacity d
  capacity_lt : ∀ d, get capacity d < 2 ^ 53

lemma float64_intCast {n : ℤ} (h0 : 0 ≤ n) (h : n < 2 ^ 53) : float64 n = n := by
  obtain ⟨m, rfl⟩ := Int.eq_ofNat_of_zero_le h0
  exact Rounding.round_natCast (p := 52) (by exact_mod_cast h)

lemma float64_hundred : float64 100 = 100 := by
  simpa using float64_intCast (n := 100) (by norm_num) (by norm_num)

lemma shareIn_float64 (h : Representable usage capacity) (k : String) :
    shareIn float64 usage capacity k = (shareIn id usage capacity k).map float64 := by
  unfold shareIn
  by_cases hu : get usage k ≤ 0
  · simp [hu]
  by_cases hc : get capacity k ≤ 0
  · simp [hu, hc]
  · push Not at hu hc
    rw [float64_intCast hu.le (h.usage_lt k), float64_intCast hc.le (h.capacity_lt k)]
    simp [hu.not_ge, hc.not_ge]

lemma largestShare_float64 (h : Representable usage capacity) :
    largestShare float64 usage capacity = (largestShare id usage capacity).map float64 := by
  have hmax : ∀ x y : WithTop ℚ, (max x y).map float64 = max (x.map float64) (y.map float64) :=
    fun x y => float64_mono.withTop_map.map_max
  have hzero : WithTop.map float64 0 = 0 := by simp [← WithTop.coe_zero]
  rw [largestShare, largestShare, ← Finset.fold_hom hmax, hzero]
  simp only [shareIn_float64 h]

end Shares

section Utilisation
variable {usage capacity : Resource ℤ} {x : ℚ}

def utilisation (usage capacity : Resource ℤ) : ℚ := clampShare (largestShare id usage capacity)

/-- No dimension is filled to more than the given part of its capacity. -/
def FilledTo (x : ℚ) (usage capacity : Resource ℤ) : Prop :=
  ∀ d, ((get usage d : ℤ) : ℚ) ≤ x * (get capacity d : ℤ)

lemma clampShare_top : clampShare ⊤ = 1 := by
  simp [clampShare]

lemma clampShare_coe (h : 0 ≤ x) : clampShare x = min x 1 := by
  have hx : ¬ (x : WithTop ℚ) < 0 := by exact_mod_cast h.not_gt
  have hone : (1 : WithTop ℚ) < x ↔ 1 < x := by exact_mod_cast Iff.rfl
  rw [clampShare, if_neg hx]
  simp only [hone, WithTop.untopD_coe]
  rw [min_comm, min_def_lt]

lemma largestShare_cases (rnd : ℚ → ℚ) (usage capacity : Resource ℤ) :
    largestShare rnd usage capacity = ⊤ ∨
      ∃ y : ℚ, 0 ≤ y ∧ largestShare rnd usage capacity = y := by
  have hnonneg := ((largestShare_le_iff rnd _).mp (le_refl (largestShare rnd usage capacity))).1
  cases hy : largestShare rnd usage capacity with
  | top => exact .inl rfl
  | coe y =>
    rw [hy] at hnonneg
    exact .inr ⟨y, by exact_mod_cast hnonneg, rfl⟩

lemma utilisation_mem (usage capacity : Resource ℤ) :
    0 ≤ utilisation usage capacity ∧ utilisation usage capacity ≤ 1 := by
  unfold utilisation
  rcases largestShare_cases id usage capacity with h | ⟨y, hy, h⟩
  · simp [h, clampShare_top]
  · simp [h, clampShare_coe hy, hy]

lemma clampShare_dominantShare (h : Representable usage capacity) {order : List String}
    (hv : Visits order usage) :
    clampShare (dominantShare usage capacity order) = float64 (utilisation usage capacity) := by
  rw [dominantShare_eq hv, largestShare_float64 h, utilisation]
  rcases largestShare_cases id usage capacity with h | ⟨y, hy, h⟩
  · simp [h, clampShare_top]
  · have hfloat : 0 ≤ float64 y := Rounding.round_nonneg hy
    rw [h, WithTop.map_coe, clampShare_coe hfloat, clampShare_coe hy,
      float64_mono.map_min, float64_one]

lemma shareIn_le_iff (hc : ∀ d, 0 ≤ get capacity d) (hx : 0 ≤ x) (d : String) :
    shareIn id usage capacity d ≤ x ↔ ((get usage d : ℤ) : ℚ) ≤ x * (get capacity d : ℤ) := by
  have hcap : (0 : ℚ) ≤ (get capacity d : ℤ) := by exact_mod_cast hc d
  unfold shareIn
  by_cases hu : get usage d ≤ 0
  · have hle : ((get usage d : ℤ) : ℚ) ≤ 0 := by exact_mod_cast hu
    simp [hu, hx, hle.trans (mul_nonneg hx hcap)]
  push Not at hu
  rcases (hc d).eq_or_lt with hzero | hpos
  · simp [hu.not_ge, ← hzero]
  · have hpos' : (0 : ℚ) < (get capacity d : ℤ) := by exact_mod_cast hpos
    rw [if_neg hu.not_ge, if_neg hpos.not_ge, WithTop.coe_le_coe]
    exact div_le_iff₀ hpos'

lemma largestShare_le_iff_filledTo (hc : ∀ d, 0 ≤ get capacity d) (hx : 0 ≤ x) :
    largestShare id usage capacity ≤ x ↔ FilledTo x usage capacity := by
  have hx' : (0 : WithTop ℚ) ≤ x := by exact_mod_cast hx
  rw [largestShare_le_iff]
  constructor
  · rintro ⟨-, hkeys⟩ d
    by_cases hd : d ∈ usage.keys
    · exact (shareIn_le_iff hc hx d).mp (hkeys d hd)
    · rw [get_of_notMem hd, Int.cast_zero]
      exact mul_nonneg hx (by exact_mod_cast hc d)
  · exact fun h => ⟨hx', fun k _ => (shareIn_le_iff hc hx k).mpr (h k)⟩

lemma utilisation_le_of_filledTo (hc : ∀ d, 0 ≤ get capacity d) (hx : 0 ≤ x)
    (h : FilledTo x usage capacity) : utilisation usage capacity ≤ x := by
  rw [← largestShare_le_iff_filledTo hc hx] at h
  unfold utilisation
  rcases largestShare_cases id usage capacity with hy | ⟨y, hy0, hy⟩
  · simp [hy] at h
  · rw [hy] at h ⊢
    rw [clampShare_coe hy0]
    exact (min_le_left _ _).trans (by exact_mod_cast h)

lemma le_utilisation_of_not_filledTo (hc : ∀ d, 0 ≤ get capacity d) (hx : 0 ≤ x) (hx1 : x ≤ 1)
    (h : ¬ FilledTo x usage capacity) : x ≤ utilisation usage capacity := by
  rw [← largestShare_le_iff_filledTo hc hx, not_le] at h
  unfold utilisation
  rcases largestShare_cases id usage capacity with hy | ⟨y, hy0, hy⟩
  · rwa [hy, clampShare_top]
  · rw [hy] at h ⊢
    rw [clampShare_coe hy0]
    exact le_min (by exact_mod_cast h.le) hx1

end Utilisation

section Scores
variable {policy : NodeSortPolicy} {u v : ℚ}

lemma toInt64_eq_floor (h : 0 ≤ u) : toInt64 u = ⌊u⌋ := by
  rw [toInt64, Int.tdiv_eq_ediv_of_nonneg (Rat.num_nonneg.mpr h), ← Rat.floor_def]
  rfl

lemma float64_mem (h : 0 ≤ u ∧ u ≤ 1) : 0 ≤ float64 u ∧ float64 u ≤ 1 :=
  ⟨Rounding.round_nonneg h.1, float64_one ▸ float64_mono h.2⟩

lemma abs_float64_sub_le {b : ℚ} (h : 0 ≤ u) (hb : u ≤ b) : |float64 u - u| ≤ b / 2 ^ 53 :=
  (Rounding.abs_round_sub_le h).trans (by gcongr)

lemma scaled_spec (h : 0 ≤ u ∧ u ≤ 1) :
    0 ≤ float64 (float64 u * maxNodeScore) ∧ float64 (float64 u * maxNodeScore) ≤ 100 ∧
      |float64 (float64 u * maxNodeScore) - u * 100| ≤ 200 / 2 ^ 53 := by
  obtain ⟨h0, h1⟩ := float64_mem h
  have hprod : 0 ≤ float64 u * maxNodeScore ∧ float64 u * maxNodeScore ≤ 100 := by
    unfold maxNodeScore
    constructor <;> linarith
  refine ⟨Rounding.round_nonneg hprod.1, float64_hundred ▸ float64_mono hprod.2, ?_⟩
  have hfirst := abs_le.mp (abs_float64_sub_le h.1 h.2)
  have hsecond := abs_le.mp (abs_float64_sub_le hprod.1 hprod.2)
  rw [show maxNodeScore = 100 from rfl] at hsecond ⊢
  rw [abs_le]
  constructor <;> linarith [hfirst.1, hfirst.2, hsecond.1, hsecond.2]

def rewarded (policy : NodeSortPolicy) (u : ℚ) : ℚ :=
  match policy with
  | .nodeBinpack => u
  | .nodeSpread => 1 - u

lemma scoreOf_eq_floor (policy : NodeSortPolicy) (h : 0 ≤ u ∧ u ≤ 1) :
    ∃ w, (0 ≤ w ∧ w ≤ 1) ∧ |w - rewarded policy u| ≤ 1 / 2 ^ 53 ∧
      scoreOf policy (float64 u) = ⌊float64 (float64 w * maxNodeScore)⌋ := by
  cases policy with
  | nodeBinpack =>
    refine ⟨u, h, ?_, toInt64_eq_floor (scaled_spec h).1⟩
    rw [rewarded, sub_self, abs_zero]
    positivity
  | nodeSpread =>
    obtain ⟨h0, h1⟩ := float64_mem h
    have hrest : 0 ≤ 1 - float64 u ∧ 1 - float64 u ≤ 1 := ⟨by linarith, by linarith⟩
    refine ⟨1 - float64 u, hrest, ?_, toInt64_eq_floor (scaled_spec hrest).1⟩
    rw [rewarded, sub_sub_sub_cancel_left, abs_sub_comm]
    exact abs_float64_sub_le h.1 h.2

lemma scoreOf_spec (policy : NodeSortPolicy) (h : 0 ≤ u ∧ u ≤ 1) :
    (0 ≤ scoreOf policy (float64 u) ∧ scoreOf policy (float64 u) ≤ 100) ∧
      scoreOf policy (float64 u) ≤ rewarded policy u * 100 + 1 / 2 ^ 44 ∧
      rewarded policy u * 100 < scoreOf policy (float64 u) + 1 + 1 / 2 ^ 44 := by
  obtain ⟨w, hw, herror, hscore⟩ := scoreOf_eq_floor policy h
  obtain ⟨hnonneg, hle, hscaled⟩ := scaled_spec hw
  have hfloor := Int.floor_le (float64 (float64 w * maxNodeScore))
  have hlt := Int.lt_floor_add_one (float64 (float64 w * maxNodeScore))
  rw [hscore]
  rw [abs_le] at herror hscaled
  refine ⟨⟨Int.floor_nonneg.mpr hnonneg, ?_⟩, ?_, ?_⟩
  · exact_mod_cast hfloor.trans hle
  · linarith [herror.2, hscaled.2]
  · linarith [herror.1, hscaled.1]

end Scores

section Nodes
variable {policy : NodeSortPolicy} {order order' : List String} {req req' : Resource ℤ}
  {ni ni' : NodeInfo ℤ}

/-- What the node would hold with the pod on it, as it is scored. -/
def placed (req : Resource ℤ) (ni : NodeInfo ℤ) : Resource ℤ :=
  add (fwkResource ni.requested) (scoreReq req ni)

/-- With the pod on it, the node would be filled to at most the given part in every dimension; the
pod counts where the node advertises the dimension. -/
def LoadedTo (x : ℚ) (req : Resource ℤ) (ni : NodeInfo ℤ) : Prop :=
  ∀ d, ((get (fwkResource ni.requested) d +
    if d ∈ fwkResource ni.allocatable then get req d else 0 : ℤ) : ℚ)
    ≤ x * (get (fwkResource ni.allocatable) d : ℤ)

lemma get_placed (req : Resource ℤ) (ni : NodeInfo ℤ) (d : String) :
    get (placed req ni) d = get (fwkResource ni.requested) d +
      if d ∈ fwkResource ni.allocatable then get req d else 0 := by
  rw [placed, get_add, scoreReq, get_tabulate]
  by_cases hd : d ∈ req.keys
  · simp [hd]
  · simp [hd, get_of_notMem hd]

lemma loadedTo_iff (x : ℚ) :
    LoadedTo x req ni ↔ FilledTo x (placed req ni) (fwkResource ni.allocatable) := by
  simp only [LoadedTo, FilledTo, get_placed]

lemma score_eq {state : Option (PreFilterState ℤ)} {pod : Pod ℤ}
    (hrep : Representable (placed (scoredRequest state pod) ni) (fwkResource ni.allocatable))
    (hv : Visits order (placed (scoredRequest state pod) ni)) :
    score policy order state pod ni = scoreOf policy
      (float64 (utilisation (placed (scoredRequest state pod) ni)
        (fwkResource ni.allocatable))) := by
  rw [score, nodeScore]
  exact congrArg (scoreOf policy) (clampShare_dominantShare hrep hv)

/-- Scores are per cents, and off by less than one from the exact utilisation of the node with the
pod on it. -/
theorem score_measures_utilisation (policy : NodeSortPolicy) {state : Option (PreFilterState ℤ)}
    {pod : Pod ℤ}
    (hrep : Representable (placed (scoredRequest state pod) ni) (fwkResource ni.allocatable))
    (hv : Visits order (placed (scoredRequest state pod) ni)) :
    (0 ≤ score policy order state pod ni ∧ score policy order state pod ni ≤ 100) ∧
      ∀ x, 0 ≤ x → x ≤ 1 →
        (LoadedTo x (scoredRequest state pod) ni →
          score .nodeBinpack order state pod ni ≤ x * 100 + 1 / 2 ^ 44 ∧
            (1 - x) * 100 < score .nodeSpread order state pod ni + 1 + 1 / 2 ^ 44) ∧
        (¬ LoadedTo x (scoredRequest state pod) ni →
          x * 100 < score .nodeBinpack order state pod ni + 1 + 1 / 2 ^ 44 ∧
            score .nodeSpread order state pod ni ≤ (1 - x) * 100 + 1 / 2 ^ 44) := by
  have hu := utilisation_mem (placed (scoredRequest state pod) ni) (fwkResource ni.allocatable)
  simp only [score_eq hrep hv, loadedTo_iff]
  obtain ⟨hbinLe, hbinLt⟩ := (scoreOf_spec .nodeBinpack hu).2
  obtain ⟨hspreadLe, hspreadLt⟩ := (scoreOf_spec .nodeSpread hu).2
  simp only [rewarded] at hbinLe hbinLt hspreadLe hspreadLt
  refine ⟨(scoreOf_spec policy hu).1, fun x hx hx1 => ⟨fun h => ?_, fun h => ?_⟩⟩
  · have hle := utilisation_le_of_filledTo hrep.capacity_nonneg hx h
    constructor <;> linarith
  · have hle := le_utilisation_of_not_filledTo hrep.capacity_nonneg hx hx1 h
    constructor <;> linarith

lemma placed_congr (h : ∀ d ∈ fwkResource ni.allocatable, get req d = get req' d) :
    placed req ni = placed req' ni := by
  refine eq_of_get (fun d hd => mem_prune_iff.mp hd) (fun d hd => mem_prune_iff.mp hd) fun d => ?_
  rw [get_placed, get_placed]
  by_cases hd : d ∈ fwkResource ni.allocatable
  · simp [hd, h d hd]
  · simp [hd]

lemma dominantShare_saturated {d : String} (hv : Visits order (placed req ni))
    (hd : d ∉ fwkResource ni.allocatable) (hused : 0 < get (fwkResource ni.requested) d) :
    dominantShare (placed req ni) (fwkResource ni.allocatable) order = ⊤ := by
  have hget : 0 < get (placed req ni) d := by simpa [get_placed, hd] using hused
  have hcap : get (fwkResource ni.allocatable) d = 0 :=
    get_of_notMem fun hin => hd (Finmap.mem_keys.mp hin)
  have hshare : shareIn float64 (placed req ni) (fwkResource ni.allocatable) d = ⊤ := by
    rw [shareIn, if_neg hget.not_ge, if_pos hcap.le]
  have hall := ((largestShare_le_iff float64 _).mp
    (le_refl (largestShare float64 (placed req ni) (fwkResource ni.allocatable)))).2
  rw [dominantShare_eq hv, ← top_le_iff, ← hshare]
  exact hall d (mem_keys_of_get_ne_zero hget.ne')

/-- What a pod asks for in dimensions that the node does not advertise has no effect on its score.
What is in use there already has: one such dimension makes the node the worst for spreading and
the best for packing, for every pod. -/
theorem unadvertised_dimensions (policy : NodeSortPolicy) {state state' : Option (PreFilterState ℤ)}
    {pod pod' : Pod ℤ}
    (h : ∀ d ∈ fwkResource ni.allocatable,
      get (scoredRequest state pod) d = get (scoredRequest state' pod') d)
    (hv : Visits order (placed (scoredRequest state pod) ni))
    (hv' : Visits order' (placed (scoredRequest state' pod') ni)) :
    score policy order state pod ni = score policy order' state' pod' ni ∧
      ∀ d ∉ fwkResource ni.allocatable, 0 < get (fwkResource ni.requested) d →
        score .nodeSpread order state pod ni = 0 ∧ score .nodeBinpack order state pod ni = 100 := by
  constructor
  · have hplaced := placed_congr h
    have hsame :
        dominantShare (placed (scoredRequest state pod) ni) (fwkResource ni.allocatable) order
          = dominantShare (placed (scoredRequest state' pod') ni)
            (fwkResource ni.allocatable) order' := by
      rw [dominantShare_eq hv, dominantShare_eq hv', hplaced]
    exact congrArg (fun util => scoreOf policy (clampShare util)) hsame
  · intro d hd hused
    have hfull : ∀ policy, score policy order state pod ni = scoreOf policy 1 := fun policy =>
      congrArg (scoreOf policy) ((congrArg clampShare (dominantShare_saturated hv hd hused)).trans
        clampShare_top)
    simp [hfull, scoreOf, maxNodeScore, toInt64, float64_hundred]

lemma representable_of_keys {usage capacity : Resource ℤ}
    (hu : ∀ d ∈ usage.keys, get usage d < 2 ^ 53)
    (hc : ∀ d ∈ capacity.keys, 0 ≤ get capacity d ∧ get capacity d < 2 ^ 53) :
    Representable usage capacity := by
  constructor
  · intro d
    by_cases hd : d ∈ usage.keys
    · exact hu d hd
    · simp [get_of_notMem hd]
  · intro d
    by_cases hd : d ∈ capacity.keys
    · exact (hc d hd).1
    · simp [get_of_notMem hd]
  · intro d
    by_cases hd : d ∈ capacity.keys
    · exact (hc d hd).2
    · simp [get_of_notMem hd]

def nodeWith (milliCPU gpus : ℤ) : NodeInfo ℤ where
  node := none
  allocatable := ⟨milliCPU, 0, 0, Finmap.singleton "nvidia.com/gpu" gpus⟩
  requested := ⟨1000, 0, 0, Finmap.singleton "nvidia.com/gpu" 1⟩
  pods := []

def corePod : Pod ℤ := barePod "p" "team" "sa" 1000

lemma nodeWith_representable :
    Representable (placed (scoredRequest none corePod) (nodeWith 4000 8))
        (fwkResource (nodeWith 4000 8).allocatable) ∧
      Representable (placed (scoredRequest none corePod) (nodeWith 8000 8))
        (fwkResource (nodeWith 8000 8).allocatable) :=
  ⟨representable_of_keys (by decide +kernel) (by decide +kernel),
    representable_of_keys (by decide +kernel) (by decide +kernel)⟩

theorem half_full_node_scored :
    score .nodeSpread ["cpu", "nvidia.com/gpu"] none corePod (nodeWith 4000 8)
      ≤ (1 - 1 / 4 : ℚ) * 100 + 1 / 2 ^ 44 := by
  have hmore : ¬ LoadedTo (1 / 4) (scoredRequest none corePod) (nodeWith 4000 8) :=
    fun h => absurd (h "cpu") (by decide +kernel)
  have hv : Visits ["cpu", "nvidia.com/gpu"]
      (placed (scoredRequest none corePod) (nodeWith 4000 8)) := by
    decide +kernel
  have hmeasured := (score_measures_utilisation .nodeSpread nodeWith_representable.1 hv).2
  exact ((hmeasured (1 / 4) (by norm_num) (by norm_num)).2 hmore).2

theorem node_without_plugin_packed_first :
    score (parseNodeSortPolicy "binpacking") ["cpu", "nvidia.com/gpu"] none corePod
      (nodeWith 64000 0) = 100 := by
  have hv : Visits ["cpu", "nvidia.com/gpu"]
      (placed (scoredRequest none corePod) (nodeWith 64000 0)) := by
    decide +kernel
  exact ((unadvertised_dimensions .nodeSpread (fun _ _ => rfl) hv hv).2 "nvidia.com/gpu"
    (by decide +kernel) (by decide +kernel)).2

end Nodes

end AdScheduler.NodeScoring
