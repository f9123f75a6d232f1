import AdScheduler.KeyedMap

/-! Passes of a reconcile loop over a store of objects, through calls that may fail. A pass writes
the objects that it wants and then sweeps the ones that it owns and no longer wants. -/
namespace AdScheduler.Reconciling
open KeyedMap

/-- How a call ends: done, the object to create is there already, refused, or done with the
answer lost. -/
inductive Reply
  | done
  | alreadyExists
  | refused
  | unheard
  deriving DecidableEq

/-- A write that ends so has taken effect. -/
def Reply.applied : Reply → Bool
  | .done | .unheard => true
  | .alreadyExists | .refused => false

/-- A lost race to create the object counts as success. -/
def Reply.created : Reply → Bool
  | .done | .alreadyExists => true
  | .refused | .unheard => false

section Store
variable {K O : Type*} [DecidableEq K]

def put (reply : Reply) (k : K) (o : O) (m : Map K O) : Map K O :=
  if reply.applied then m.insert k o else m

lemma lookup_put (reply : Reply) (k : K) (o : O) (m : Map K O) (j : K) :
    (put reply k o m).lookup j = if j = k ∧ reply.applied = true then some o else m.lookup j := by
  rw [put]
  by_cases happ : reply.applied = true
  · simp [happ, lookup_insert_ite]
  · simp [happ]

lemma lookup_put_done (k : K) (o : O) (m : Map K O) (j : K) :
    (put .done k o m).lookup j = if j = k then some o else m.lookup j := by
  simp [lookup_put, Reply.applied]

lemma mem_put {k j : K} {m : Map K O} (h : j ∈ m) (reply : Reply) (o : O) :
    j ∈ put reply k o m := by
  rw [put]
  split_ifs
  · exact Finmap.mem_insert.mpr (.inr h)
  · exact h

lemma put_self {k : K} {o : O} {m : Map K O} (h : m.lookup k = some o) (reply : Reply) :
    put reply k o m = m := by
  apply Finmap.ext_lookup
  intro j
  rw [lookup_put]
  split_ifs with hj
  · rw [hj.1, h]
  · rfl

/-- List the owned objects and delete those that are not to be kept. -/
def sweep (owned : O → Bool) (keep : K → Bool) (reply : K → Reply) (order : List K) (m : Map K O) :
    Map K O :=
  sift (fun k o => !owned o || keep k || !(reply k).applied) (entries order m) m

lemma lookup_sweep_of_spared {owned : O → Bool} {keep : K → Bool} {k : K} {m : Map K O}
    (h : ∀ o, m.lookup k = some o → keep k = true ∨ owned o = false) (reply : K → Reply)
    (order : List K) : (sweep owned keep reply order m).lookup k = m.lookup k := by
  refine lookup_sift_kept (fun o ho => ?_) m
  rcases h o (lookup_of_mem_entries ho) with hkeep | hforeign
  · simp [hkeep]
  · simp [hforeign]

lemma lookup_sweep_done (owned : O → Bool) (keep : K → Bool) {reply : K → Reply}
    (hreply : ∀ k, reply k = .done) {order : List K} {m : Map K O} (h : Visits order m) (k : K) :
    (sweep owned keep reply order m).lookup k =
      (m.lookup k).filter fun o => !owned o || keep k := by
  rw [sweep, lookup_sift h]
  simp [hreply, Reply.applied]

lemma lookup_of_lookup_sweep {owned : O → Bool} {keep : K → Bool} {reply : K → Reply}
    {order : List K} {m : Map K O} (h : Visits order m) {k : K} {o : O}
    (ho : (sweep owned keep reply order m).lookup k = some o) : m.lookup k = some o := by
  rw [sweep, lookup_sift h, Option.filter_eq_some_iff] at ho
  exact ho.1

end Store

section Loops
variable {S X : Type*} {step : S → X → S}

lemma foldl_establishes (good : S → Prop) {l : List X}
    (hkeeps : ∀ s, ∀ y ∈ l, good s → good (step s y)) {x : X} (hx : x ∈ l)
    (hestablishes : ∀ s, good (step s x)) (s : S) : good (l.foldl step s) := by
  induction l generalizing s with
  | nil => cases hx
  | cons y rest ih =>
    have hrest : ∀ s, ∀ z ∈ rest, good s → good (step s z) :=
      fun s z hz => hkeeps s z (List.mem_cons_of_mem _ hz)
    rcases List.mem_cons.mp hx with rfl | hx
    · exact List.foldlRecOn rest step (hestablishes s) fun s hs z hz => hrest s z hz hs
    · exact ih hrest hx _

end Loops

end AdScheduler.Reconciling
