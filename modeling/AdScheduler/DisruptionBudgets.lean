import AdScheduler.NodePreemption
import AdScheduler.SharedBudgets

/-! The victims of a preemption and the disruption budgets that cover them. The counters of
`filterPDBProtected` are made when they are first read; here they are counters that every
budget has from the start. -/
namespace AdScheduler.DisruptionBudgets
open KeyedMap Requests Preemption NodePreemption SharedBudgets

variable {V : Type*}

def covers (pdb : PodDisruptionBudget) (pod : Pod V) : Bool :=
  decide (pdb.ns = pod.ns) && pdb.selector.any fun sel => sel pod.labels

lemma mem_matchingPDBs {all : List PodDisruptionBudget} {pod : Pod V} {pdb : PodDisruptionBudget} :
    pdb ∈ matchingPDBs all pod ↔ pdb ∈ all ∧ covers pdb pod = true := List.mem_filter

def disrupted (byUID : Map String (Pod V)) (pdb : PodDisruptionBudget) (S : List (Victim V)) : ℕ :=
  S.countP fun v => (byUID.lookup v.uid).any (covers pdb)

def budgetsOf (all : List PodDisruptionBudget) (byUID : Map String (Pod V)) (v : Victim V) :
    List String :=
  match byUID.lookup v.uid with
  | none => []
  | some p => (matchingPDBs all p).map PodDisruptionBudget.key

def allowedAt (all : List PodDisruptionBudget) (k : String) : ℤ :=
  ((all.find? fun pdb => decide (pdb.key = k)).map PodDisruptionBudget.disruptionsAllowed).getD 0

/-- What is left of the budget with some key, whether its counter has been made or not. -/
def left (all : List PodDisruptionBudget) (remaining : Map String ℤ) (k : String) : ℤ :=
  (remaining.lookup k).getD (allowedAt all k)

section Store
variable {all : List PodDisruptionBudget}

lemma eq_of_key_eq (hall : (all.map PodDisruptionBudget.key).Nodup) {a b : PodDisruptionBudget}
    (ha : a ∈ all) (hb : b ∈ all) (h : a.key = b.key) : a = b :=
  List.inj_on_of_nodup_map hall ha hb h

lemma allowedAt_key (hall : (all.map PodDisruptionBudget.key).Nodup) {pdb : PodDisruptionBudget}
    (h : pdb ∈ all) : allowedAt all pdb.key = pdb.disruptionsAllowed := by
  cases hfind : all.find? fun b => decide (b.key = pdb.key) with
  | none => simpa using List.find?_eq_none.mp hfind pdb h
  | some b =>
    have hkey : b.key = pdb.key := by simpa using List.find?_some hfind
    have hb : b = pdb := eq_of_key_eq hall (List.mem_of_find?_eq_some hfind) h hkey
    simp [allowedAt, hfind, hb]

lemma left_of_mem {remaining : Map String ℤ} {k : String} (h : k ∈ remaining) (n : ℤ) :
    (remaining.lookup k).getD n = left all remaining k := by
  obtain ⟨r, hr⟩ := Finmap.mem_iff.mp h
  simp [left, hr]

/-- The counter of a budget is made where there is none. -/
def seed (pdb : PodDisruptionBudget) (remaining : Map String ℤ) : Map String ℤ :=
  if pdb.key ∈ remaining then remaining else remaining.insert pdb.key pdb.disruptionsAllowed

lemma probe_cons (pdb : PodDisruptionBudget) (rest : List PodDisruptionBudget)
    (remaining : Map String ℤ) :
    probe (pdb :: rest) remaining =
      if ((seed pdb remaining).lookup pdb.key).getD 0 ≤ 0 then (seed pdb remaining, true)
      else probe rest (seed pdb remaining) := rfl

lemma mem_seed {pdb : PodDisruptionBudget} {remaining : Map String ℤ} {k : String} :
    k ∈ seed pdb remaining ↔ k = pdb.key ∨ k ∈ remaining := by
  unfold seed
  split_ifs with hseen
  · constructor
    · exact .inr
    · rintro (rfl | h) <;> assumption
  · exact Finmap.mem_insert

section Counters
variable (hall : (all.map PodDisruptionBudget.key).Nodup)
include hall

lemma left_seed {pdb : PodDisruptionBudget} (h : pdb ∈ all) (remaining : Map String ℤ) :
    left all (seed pdb remaining) = left all remaining := by
  unfold seed
  split_ifs with hseen
  · rfl
  · funext k
    by_cases hk : k = pdb.key
    · subst hk
      simp [left, Finmap.lookup_eq_none.mpr hseen, allowedAt_key hall h]
    · simp [left, Finmap.lookup_insert_of_ne _ hk]

/-- The loop over the budgets of a pod makes counters, and what is left stays as it is. It
reports whether one of them is spent; if none is, all have their counters. -/
lemma probe_spec {pdbs : List PodDisruptionBudget} (hsub : pdbs ⊆ all) (remaining : Map String ℤ) :
    left all (probe pdbs remaining).1 = left all remaining ∧
      ((probe pdbs remaining).2 = true ↔ ∃ pdb ∈ pdbs, left all remaining pdb.key ≤ 0) ∧
      ((probe pdbs remaining).2 = false →
        ∀ k, k ∈ remaining ∨ k ∈ pdbs.map PodDisruptionBudget.key →
        k ∈ (probe pdbs remaining).1) := by
  induction pdbs generalizing remaining with
  | nil => simp [probe]
  | cons pdb rest ih =>
    obtain ⟨hpdb, hrest⟩ := List.cons_subset.mp hsub
    obtain ⟨hleft, hspent, hmade⟩ := ih hrest (seed pdb remaining)
    have hhere : ((seed pdb remaining).lookup pdb.key).getD 0 = left all remaining pdb.key := by
      rw [left_of_mem (mem_seed.mpr (.inl rfl)), left_seed hall hpdb]
    rw [left_seed hall hpdb] at hleft hspent
    rw [probe_cons, hhere]
    split_ifs with hnone
    · exact ⟨left_seed hall hpdb remaining, by simp [hnone], by simp⟩
    · refine ⟨hleft, by simp [hspent, hnone], fun hfree k hk => hmade hfree k ?_⟩
      rw [mem_seed]
      simp only [List.map_cons, List.mem_cons] at hk
      tauto

end Counters

lemma left_spend {pdbs : List PodDisruptionBudget}
    (hnodup : (pdbs.map PodDisruptionBudget.key).Nodup)
    {remaining : Map String ℤ} (hmade : ∀ pdb ∈ pdbs, pdb.key ∈ remaining) (k : String) :
    left all (spend pdbs remaining) k =
      if k ∈ pdbs.map PodDisruptionBudget.key then left all remaining k - 1
      else left all remaining k := by
  induction pdbs generalizing remaining with
  | nil => simp [spend]
  | cons pdb rest ih =>
    obtain ⟨hpdb, hrest⟩ := List.forall_mem_cons.mp hmade
    rw [List.map_cons, List.nodup_cons] at hnodup
    have hstep : ∀ j, left all
        (remaining.insert pdb.key ((remaining.lookup pdb.key).getD 0 - 1)) j =
          if j = pdb.key then left all remaining j - 1 else left all remaining j := by
      intro j
      split_ifs with hj
      · subst hj
        rw [left, Finmap.lookup_insert, Option.getD_some, left_of_mem hpdb]
      · simp [left, Finmap.lookup_insert_of_ne _ hj]
    have hmore : spend (pdb :: rest) remaining =
        spend rest (remaining.insert pdb.key ((remaining.lookup pdb.key).getD 0 - 1)) := rfl
    rw [hmore, ih hnodup.2 (fun b hb => Finmap.mem_insert.mpr (.inr (hrest b hb))), hstep]
    by_cases hk : k = pdb.key
    · subst hk
      simp [hnodup.1]
    · simp [hk]

def known (byUID : Map String (Pod V)) (v : Victim V) : Bool := (byUID.lookup v.uid).isSome

lemma keepAllowed_eq (hall : (all.map PodDisruptionBudget.key).Nodup) (byUID : Map String (Pod V))
    (victims : List (Victim V)) (remaining : Map String ℤ) :
    keepAllowed all byUID victims remaining =
      keepWithin (budgetsOf all byUID) (victims.filter (known byUID)) (left all remaining) := by
  induction victims generalizing remaining with
  | nil => rfl
  | cons v rest ih =>
    rw [keepAllowed]
    cases hp : byUID.lookup v.uid with
    | none => simp [known, hp, ih]
    | some p =>
      have hsub : matchingPDBs all p ⊆ all := List.filter_sublist.subset
      obtain ⟨hleft, hspent, hmade⟩ := probe_spec hall hsub remaining
      have huses : budgetsOf all byUID v = (matchingPDBs all p).map PodDisruptionBudget.key := by
        simp [budgetsOf, hp]
      have hblocked : (∃ k ∈ budgetsOf all byUID v, left all remaining k ≤ 0) ↔
          (probe (matchingPDBs all p) remaining).2 = true := by
        rw [hspent, huses]
        simp
      rw [List.filter_cons_of_pos (by simp [known, hp]), keepWithin]
      simp only [hblocked, ih, hleft]
      split_ifs with hfree
      · rfl
      · have hkeys := hmade (Bool.not_eq_true _ ▸ hfree)
        have hnodup : ((matchingPDBs all p).map PodDisruptionBudget.key).Nodup :=
          hall.sublist (List.filter_sublist.map _)
        have hcharge : left all (spend (matchingPDBs all p)
          (probe (matchingPDBs all p) remaining).1) =
            charge (budgetsOf all byUID) v (left all remaining) := by
          funext k
          rw [left_spend hnodup fun b hb => hkeys _ (.inr (List.mem_map_of_mem hb)), hleft, charge,
            huses]
        rw [hcharge]

lemma drawn_eq_disrupted (hall : (all.map PodDisruptionBudget.key).Nodup)
    (byUID : Map String (Pod V)) {pdb : PodDisruptionBudget} (h : pdb ∈ all) (S : List (Victim V)) :
    drawn (budgetsOf all byUID) pdb.key S = disrupted byUID pdb S := by
  refine List.countP_congr fun v _ => ?_
  rw [decide_eq_true_eq, budgetsOf]
  cases hp : byUID.lookup v.uid with
  | none => simp
  | some p =>
    rw [Option.any_some, List.mem_map]
    constructor
    · rintro ⟨b, hb, hkey⟩
      obtain ⟨hb, hcovers⟩ := mem_matchingPDBs.mp hb
      rwa [← eq_of_key_eq hall hb h hkey]
    · exact fun hcovers => ⟨pdb, mem_matchingPDBs.mpr ⟨h, hcovers⟩, rfl⟩

end Store

def notAfter (a b : Victim V) : Bool := decide (a.priority ≤ b.priority)

lemma filterPDBProtected_eq {all : List PodDisruptionBudget}
    (hall : (all.map PodDisruptionBudget.key).Nodup) (victims : List (Victim V))
    (byUID : Map String (Pod V)) :
    filterPDBProtected (some all) victims byUID = keepWithin (budgetsOf all byUID)
      ((victims.insertionSort fun a b => a.priority ≤ b.priority).filter (known byUID))
      (allowedAt all) := by
  have hstart : left all ∅ = allowedAt all := by
    funext k
    simp [left]
  rw [← hstart, ← keepAllowed_eq hall]
  simp only [filterPDBProtected]
  split_ifs with hnone
  · subst hnone
    rfl
  · rfl

section Result
variable {all : List PodDisruptionBudget} (hall : (all.map PodDisruptionBudget.key).Nodup)
  (victims : List (Victim V)) (byUID : Map String (Pod V))
include hall

lemma kept_within {pdb : PodDisruptionBudget} (h : pdb ∈ all) :
    (disrupted byUID pdb (filterPDBProtected (some all) victims byUID) : ℤ) ≤
      max 0 pdb.disruptionsAllowed := by
  rw [filterPDBProtected_eq hall, ← drawn_eq_disrupted hall byUID h, ← allowedAt_key hall h]
  exact drawn_keepWithin_le _ _ _ _

lemma exists_dropped_victims :
    let kept := filterPDBProtected (some all) victims byUID
    ∃ dropped, (kept ++ dropped).Perm victims ∧ ∀ v ∈ dropped, ∀ p, byUID.lookup v.uid = some p →
      ∃ pdb ∈ matchingPDBs all p,
        (disrupted byUID pdb (kept.filter (notAfter · v)) : ℤ) = max 0 pdb.disruptionsAllowed := by
  intro kept
  set sorted := victims.insertionSort fun a b => a.priority ≤ b.priority
  have hkept : kept = keepWithin (budgetsOf all byUID) (sorted.filter (known byUID))
      (allowedAt all) :=
    filterPDBProtected_eq hall victims byUID
  have hsorted : (sorted.filter (known byUID)).Pairwise fun a b => notAfter a b := by
    refine List.Pairwise.filter _ ?_
    simpa [notAfter] using
      List.pairwise_insertionSort (fun a b : Victim V => a.priority ≤ b.priority) victims
  obtain ⟨dropped, hperm, hwhy⟩ :=
    exists_dropped (budgetsOf all byUID) notAfter hsorted (allowedAt all)
  rw [← hkept] at hperm hwhy
  refine ⟨dropped ++ sorted.filter fun v => !known byUID v, ?_, ?_⟩
  · rw [← List.append_assoc]
    exact ((hperm.append_right _).trans (List.filter_append_perm _ _)).trans
      (List.perm_insertionSort _ _)
  · intro v hv p hp
    have hdropped : v ∈ dropped := by
      rcases List.mem_append.mp hv with hv | hv
      · exact hv
      · simp [known, hp] at hv
    obtain ⟨k, hk, hspent⟩ := hwhy v hdropped
    simp only [budgetsOf, hp, List.mem_map] at hk
    obtain ⟨pdb, hpdb, rfl⟩ := hk
    have hin : pdb ∈ all := (mem_matchingPDBs.mp hpdb).1
    rw [drawn_eq_disrupted hall byUID hin, allowedAt_key hall hin] at hspent
    exact ⟨pdb, hpdb, hspent⟩

end Result

/-- The budgets are respected together. No budget covers more kept victims than it allows; a
known pod is dropped only where one of its budgets is spent, down to nothing, on kept victims
of no higher priority; and what is selected of the kept victims breaches no budget. -/
theorem budgets_respected [CommRing V] [LinearOrder V] {all : List PodDisruptionBudget}
    (hall : (all.map PodDisruptionBudget.key).Nodup) (victims : List (Victim V))
    (byUID : Map String (Pod V)) :
    let kept := filterPDBProtected (some all) victims byUID
    (∀ pdb ∈ all, (disrupted byUID pdb kept : ℤ) ≤ max 0 pdb.disruptionsAllowed) ∧
    (∃ dropped, (kept ++ dropped).Perm victims ∧ ∀ v ∈ dropped, ∀ p, byUID.lookup v.uid = some p →
      ∃ pdb ∈ matchingPDBs all p,
        (disrupted byUID pdb (kept.filter (notAfter · v)) : ℤ) = max 0 pdb.disruptionsAllowed) ∧
    ∀ need, ∀ pdb ∈ all,
      (disrupted byUID pdb (selectVictims need kept) : ℤ) ≤ max 0 pdb.disruptionsAllowed := by
  intro kept
  have hwithin : ∀ pdb ∈ all, (disrupted byUID pdb kept : ℤ) ≤ max 0 pdb.disruptionsAllowed :=
    fun pdb hpdb => kept_within hall victims byUID hpdb
  refine ⟨hwithin, exists_dropped_victims hall victims byUID, fun need pdb hpdb => ?_⟩
  have hfew : disrupted byUID pdb (selectVictims need kept) ≤ disrupted byUID pdb kept :=
    (selectVictims_subperm need kept).countP_le _
  have hbound := hwithin pdb hpdb
  omega

def teamBudgets : List PodDisruptionBudget :=
  [⟨"team", "web", some fun labels => labels.lookup "app" = some "web", 1⟩,
    ⟨"team", "any", some fun _ => true, 2⟩]

def labelled (uid app : String) : Pod ℤ :=
  { barePod uid "team" "runner" 1 with labels := Finmap.singleton "app" app }

def teamPods : Map String (Pod ℤ) :=
  ((Finmap.singleton "a" (labelled "a" "web")).insert "b" (labelled "b" "web")).insert "c"
    (labelled "c" "batch")

def teamVictims : List (Victim ℤ) :=
  [⟨"c", 2, ∅, true⟩, ⟨"b", 1, ∅, true⟩, ⟨"a", 0, ∅, true⟩]

example : (filterPDBProtected (some teamBudgets) teamVictims teamPods).map Victim.uid =
    ["a", "c"] := by
  decide +kernel

theorem overlapping_budgets_respected :
    (teamBudgets.map PodDisruptionBudget.key).Nodup ∧ ∀ pdb ∈ teamBudgets,
      (disrupted teamPods pdb (filterPDBProtected (some teamBudgets) teamVictims teamPods) : ℤ) ≤
        max 0 pdb.disruptionsAllowed :=
  ⟨by decide, (budgets_respected (by decide) teamVictims teamPods).1⟩

end AdScheduler.DisruptionBudgets
