import AdScheduler.QueueLookup

/-! The writes of `syncQueueStatuses` in `pkg/framework/queuestatus.go`, over the runs in which the
loop, the API server, the informer and the clients take their steps in any order. -/
namespace AdScheduler.StatusWrites
open KeyedMap Resources QueueTree Manager EngineCore GangAgreement TreeAssembly Runs
open QueueDrain QueueLookup

variable {V : Type*} [CommRing V] [LinearOrder V]

section Versions
variable {s : Server V}

/-- The copies that the informer and the pass have. -/
def cached (s : Server V) : List (QueueObject V) := s.store ++ s.pass.left

/-- The server has one object for a name, no version is newer than its revision, and a copy of the
current version is the current version. -/
structure Consistent (s : Server V) : Prop where
  api : ∀ a ∈ s.api, a.resourceVersion ≤ s.revision
  dated : ∀ o ∈ cached s, o.resourceVersion ≤ s.revision
  updates : ∀ u ∈ s.updates, u.object.resourceVersion ≤ s.revision
  unique : ∀ a ∈ s.api, ∀ b ∈ s.api, a.ident = b.ident → a = b
  copies : ∀ o ∈ cached s, ∀ a ∈ s.api,
    a.ref = o.ref → a.resourceVersion = o.resourceVersion → a = o

lemma consistent_write (h : Consistent s) (w : QueueObject V) : Consistent (s.write w) := by
  refine ⟨fun a ha => ?_, fun o ho => Nat.le_succ_of_le (h.dated o ho),
    fun u hu => Nat.le_succ_of_le (h.updates u hu), fun a ha b hb hid => ?_,
    fun o ho a ha href hrv => ?_⟩
  · rcases mem_put_iff.mp ha with ⟨ha, -⟩ | ⟨rfl, -⟩
    · exact Nat.le_succ_of_le (h.api a ha)
    · exact le_rfl
  · rcases mem_put_iff.mp ha with ⟨ha, hne⟩ | ⟨rfl, -⟩
    · rcases mem_put_iff.mp hb with ⟨hb, -⟩ | ⟨rfl, -⟩
      · exact h.unique a ha b hb hid
      · exact absurd hid hne
    · rcases mem_put_iff.mp hb with ⟨hb, hne⟩ | ⟨rfl, -⟩
      · exact absurd hid.symm hne
      · rfl
  · rcases mem_put_iff.mp ha with ⟨ha, -⟩ | ⟨rfl, -⟩
    · exact h.copies o ho a ha href hrv
    · have hold := h.dated o ho
      dsimp only at hrv
      omega

lemma consistent_copies (h : Consistent s) {s' : Server V}
    (hserver : s'.api = s.api ∧ s'.revision = s.revision) (hcached : ∀ o ∈ cached s', o ∈ cached s)
    (hupdates : ∀ u ∈ s'.updates, u.object.resourceVersion ≤ s.revision) : Consistent s' := by
  obtain ⟨hapi, hrevision⟩ := hserver
  constructor
  · simpa [hapi, hrevision] using h.api
  · exact fun o ho => hrevision ▸ h.dated o (hcached o ho)
  · simpa [hrevision] using hupdates
  · simpa [hapi] using h.unique
  · exact fun o ho a ha => h.copies o (hcached o ho) a (hapi ▸ ha)

lemma consistent_answer (h : Consistent s) (u : Update V) : Consistent (s.answer u) := by
  unfold Server.answer
  split
  · exact h
  · rename_i a _
    have hw := consistent_write h (u.written a)
    exact ⟨hw.api, hw.dated, hw.updates, hw.unique, hw.copies⟩

lemma consistent_eraseIdx (h : Consistent s) (i : ℕ) :
    Consistent { s with updates := s.updates.eraseIdx i } :=
  consistent_copies h ⟨rfl, rfl⟩ (fun _ ho => ho)
    fun u hu => h.updates u (List.mem_of_mem_eraseIdx hu)

lemma consistent_inspect (h : Consistent s) (order : List String) :
    Consistent (s.next (.inspect order)) := by
  cases hlooks : s.looksAt with
  | none => simpa [Server.next, hlooks] using h
  | some p =>
    rw [next_inspect hlooks]
    refine consistent_copies h ⟨rfl, rfl⟩ (fun o ho => ?_) fun u hu => ?_
    · rcases List.mem_append.mp ho with ho | ho
      · exact List.mem_append_left _ ho
      · exact List.mem_append_right _ (left_rest s.pass ho)
    · rcases List.mem_append.mp hu with hu | hu
      · exact h.updates u hu
      · rw [(reconcileQueue_object (Option.mem_toList.mp hu)).2]
        exact h.dated p.1 (List.mem_append_right _ (looksAt_mem hlooks).1)

lemma consistent_deliver (h : Consistent s) (id : String × String) :
    Consistent (s.next (.deliver id)) := by
  have hnew : ∀ o ∈ cached (s.next (.deliver id)), o ∈ cached s ∨ o ∈ s.api := by
    intro o ho
    simp only [cached, Server.next, dropObject, List.mem_append, List.mem_filter] at ho ⊢
    tauto
  refine ⟨h.api, fun o ho => ?_, h.updates, h.unique, fun o ho a ha href hrv => ?_⟩
  · exact (hnew o ho).elim (h.dated o) (h.api o)
  · rcases hnew o ho with ho | ho
    · exact h.copies o ho a ha href hrv
    · exact h.unique a ha o ho (congrArg Prod.fst href)

lemma consistent_next (h : Consistent s) {step : Step V} (he : s.Enabled step) :
    Consistent (s.next step) := by
  cases step with
  | inspect order => exact consistent_inspect h order
  | begin =>
    simp only [Server.next]
    split
    · exact h
    · exact consistent_copies h ⟨rfl, rfl⟩ (by simp +contextual [cached, Pass.left]) h.updates
  | list objects =>
    simp only [Server.next]
    split
    · have hlist : objects.Perm s.store := he
      exact consistent_copies h ⟨rfl, rfl⟩ (by simp +contextual [cached, Pass.left, hlist.mem_iff])
        h.updates
    · exact h
  | answer i =>
    simp only [Server.next]
    split
    · exact h
    · exact consistent_answer (consistent_eraseIdx h i) _
  | lose i => exact consistent_eraseIdx h i
  | call c => exact consistent_copies h ⟨rfl, rfl⟩ (fun _ ho => ho) h.updates
  | assemble =>
    simp only [Server.next]
    split
    · exact h
    · exact consistent_copies h ⟨rfl, rfl⟩ (fun _ ho => ho) h.updates
  | publish bookOrder gangOrder =>
    simp only [Server.next]
    split
    · exact h
    · exact consistent_copies h ⟨rfl, rfl⟩ (by simp [cached, left_keep]) h.updates
  | create cr finalizers => exact consistent_write h _
  | edit cr finalizers =>
    simp only [Server.next]
    split
    · exact h
    · exact consistent_write h _
  | delete id =>
    simp only [Server.next]
    split
    · exact h
    · exact consistent_write h _
  | deliver id => exact consistent_deliver h id

/-- Nothing has been stored, cached or sent yet. -/
def Blank (s : Server V) : Prop := s.api = [] ∧ cached s = [] ∧ s.updates = []

lemma Blank.consistent (h : Blank s) : Consistent s := by
  obtain ⟨hapi, hcached, hupdates⟩ := h
  constructor <;> simp [hapi, hcached, hupdates]

lemma consistent_run {start : Server V} {steps : List (Step V)} (h0 : Blank start)
    (hrun : Run server start steps s) : Consistent s :=
  hrun.invariant h0.consistent fun _ _ h he => consistent_next h he

end Versions

section Due
variable {t : QueueManager V} {order order' : List String} {o a : QueueObject V} {u : Update V}

/-- No two queues of the tree share the namespace and the bare name. -/
def Distinct (t : QueueManager V) : Prop := ∀ p ∈ t.index, ∀ q ∈ t.index, ident p = ident q → p = q

lemma find_congr (hd : Distinct t) (ho : Visits order t.index) (ho' : Visits order' t.index)
    (id : String × String) : findByNamespaceName t order id = findByNamespaceName t order' id := by
  by_cases hex : ∃ p ∈ t.index, ident p = id
  · obtain ⟨p, hp, rfl⟩ := hex
    obtain ⟨x, hx⟩ := Finmap.mem_iff.mp hp
    have hone : ∀ p' ∈ t.index, ident p' = ident p → p' = p := fun p' hp' => hd p' hp' p hp
    rw [findByNamespaceName_of_unique ho hx rfl hone, findByNamespaceName_of_unique ho' hx rfl hone]
  · push Not at hex
    rw [findByNamespaceName_of_none hex, findByNamespaceName_of_none hex]

def finalizerDue (t : QueueManager V) (order : List String) (o : QueueObject V) : Bool :=
  (!o.deleting && !o.hasFin) || (o.deleting && o.hasFin && !live t order o.ident)

def wantedPath (t : QueueManager V) (order : List String) (o : QueueObject V) : String :=
  (findByNamespaceName t order o.ident).elim "" Prod.fst

def wantedPhase (t : QueueManager V) (order : List String) (o : QueueObject V) : QueuePhase :=
  if o.deleting then .draining
  else if (findByNamespaceName t order o.ident).isNone then .degraded else .active

/-- The status shows another path or another phase. -/
def statusDue (t : QueueManager V) (order : List String) (o : QueueObject V) : Bool :=
  !decide (o.status.path = wantedPath t order o ∧ o.status.phase = some (wantedPhase t order o))

def due (t : QueueManager V) (order : List String) (o : QueueObject V) : ℕ :=
  (finalizerDue t order o).toNat + (statusDue t order o).toNat

def toggled (o : QueueObject V) : List String :=
  if o.deleting then o.finalizers.filter (· ≠ drainFinalizer) else o.finalizers ++ [drainFinalizer]

def shown (t : QueueManager V) (order : List String) (o : QueueObject V) : QueueStatus :=
  ⟨wantedPath t order o, some (wantedPhase t order o), (findByNamespaceName t order o.ident).isSome,
    (findByNamespaceName t order o.ident).elim false Prod.snd⟩

lemma reconcileQueue_eq (t : QueueManager V) (order : List String) (o : QueueObject V) :
    reconcileQueue t order o =
      if finalizerDue t order o then some (.finalizers { o with finalizers := toggled o })
      else if statusDue t order o then some (.status { o with status := shown t order o })
      else none := by
  have hpatch : patchQueueStatus o (wantedPath t order o) (wantedPhase t order o)
      (findByNamespaceName t order o.ident).isSome
      ((findByNamespaceName t order o.ident).elim false Prod.snd)
      = if statusDue t order o then some (.status { o with status := shown t order o })
          else none := by
    simp only [patchQueueStatus, statusDue, shown, Bool.not_eq_true', decide_eq_false_iff_not]
    split_ifs <;> rfl
  unfold reconcileQueue
  dsimp only
  rw [← wantedPath, ← wantedPhase, hpatch]
  cases hdeleting : o.deleting <;> cases hfin : o.hasFin <;> cases hlive : live t order o.ident <;>
    simp [finalizerDue, toggled, hdeleting, hfin, hlive]

lemma due_congr (hd : Distinct t) (ho : Visits order t.index) (ho' : Visits order' t.index)
    (o : QueueObject V) : due t order o = due t order' o := by
  unfold due finalizerDue statusDue wantedPath wantedPhase live
  rw [find_congr hd ho ho']

lemma due_le_two (t : QueueManager V) (order : List String) (o : QueueObject V) :
    due t order o ≤ 2 :=
  Nat.add_le_add (Bool.toNat_le _) (Bool.toNat_le _)

lemma due_of_reconcileQueue_none (h : reconcileQueue t order o = none) : due t order o = 0 := by
  rw [reconcileQueue_eq] at h
  split_ifs at h with hfin hstatus
  simp [due, hfin, hstatus]

omit [CommRing V] [LinearOrder V] in
lemma hasFin_toggled (o : QueueObject V) :
    ({ o with finalizers := toggled o } : QueueObject V).hasFin = !o.deleting := by
  cases hdeleting : o.deleting <;> simp [QueueObject.hasFin, toggled, hdeleting]

lemma due_written (h : reconcileQueue t order o = some u) :
    due t order (u.written o) + 1 = due t order o := by
  rw [reconcileQueue_eq] at h
  split_ifs at h with hfin hstatus
  · cases h
    have hdone : finalizerDue t order { o with finalizers := toggled o } = false := by
      rw [finalizerDue, hasFin_toggled]
      cases o.deleting <;> simp
    show (finalizerDue t order { o with finalizers := toggled o }).toNat
      + (statusDue t order o).toNat + 1 = _
    rw [hdone, due, hfin]
    simp [Nat.add_comm]
  · cases h
    have hdone : statusDue t order { o with status := shown t order o } = false := by
      simp [statusDue, shown, wantedPath, wantedPhase, QueueObject.ident]
    show (finalizerDue t order o).toNat
      + (statusDue t order { o with status := shown t order o }).toNat + 1 = _
    rw [hdone, due, hstatus]
    rfl

lemma due_written_le (t : QueueManager V) (order : List String) (h : a.ref = u.object.ref) :
    due t order (u.written a) ≤ due t order a + 1 := by
  cases u with
  | finalizers o =>
    have hid : o.ident = a.ident := (congrArg Prod.fst h).symm
    have hstatus : statusDue t order ((Update.finalizers o).written a) = statusDue t order a := by
      unfold statusDue wantedPath wantedPhase
      rw [show ((Update.finalizers o).written a).ident = a.ident from hid]
      rfl
    have hone := Bool.toNat_le (finalizerDue t order ((Update.finalizers o).written a))
    rw [due, hstatus, due]
    omega
  | status o =>
    have hfin : finalizerDue t order ((Update.status o).written a) = finalizerDue t order a := rfl
    have hone := Bool.toNat_le (statusDue t order ((Update.status o).written a))
    rw [due, hfin, due]
    omega

end Due

section Bound
variable {s : Server V} {t : QueueManager V}

/-- The writes that the objects of the server still need. -/
def pendingWrites (t : QueueManager V) (api : List (QueueObject V)) : ℕ :=
  (api.map (due t (sortedKeys t.index))).sum

lemma pendingWrites_le (t : QueueManager V) (api : List (QueueObject V)) :
    pendingWrites t api ≤ 2 * api.length := by
  have hsum := List.sum_le_card_nsmul (api.map (due t (sortedKeys t.index))) 2 fun n hn => by
    obtain ⟨o, -, rfl⟩ := List.mem_map.mp hn
    exact due_le_two t _ o
  simpa [pendingWrites, Nat.mul_comm] using hsum

/-- The update was made from the current version for this tree, or its version is stale. -/
def Fresh (t : QueueManager V) (api : List (QueueObject V)) (u : Update V) : Prop :=
  ∃ o order, Visits order t.index ∧ reconcileQueue t order o = some u ∧
    ∀ a ∈ api, a.ref = o.ref → a.resourceVersion = o.resourceVersion → a = o

open Classical in
noncomputable def stale (t : QueueManager V) (api : List (QueueObject V)) (u : Update V) : Bool :=
  decide (¬ Fresh t api u)

lemma stale_eq_true {api : List (QueueObject V)} {u : Update V} :
    stale t api u = true ↔ ¬ Fresh t api u := by
  simp only [stale, decide_eq_true_eq]

/-- The objects that a pass is still to look at with a tree that a rebuild has replaced. -/
def outdated (s : Server V) : List (QueueObject V) :=
  if s.pass.replaced.isSome then s.pass.left else []

/-- The writes to come: those that are due, and for each update of before, or of a pass that began
before the tree, its own and another one. -/
noncomputable def owed (t : QueueManager V) (s : Server V) : ℕ :=
  pendingWrites t s.api + 2 * (s.updates.countP (stale t s.api) + (outdated s).length)

omit [CommRing V] [LinearOrder V] in
lemma sum_filter_add_le (f : QueueObject V → ℕ) {p : QueueObject V → Bool}
    {l : List (QueueObject V)}
    {a : QueueObject V} (ha : a ∈ l) (hp : p a = false) :
    ((l.filter p).map f).sum + f a ≤ (l.map f).sum := by
  induction l with
  | nil => cases ha
  | cons b rest ih =>
    have hrest : ((rest.filter p).map f).sum ≤ (rest.map f).sum :=
      List.Sublist.sum_le_sum ((List.filter_sublist (p := p)).map f) (by simp)
    rcases List.mem_cons.mp ha with rfl | ha
    · simp only [List.filter_cons, hp, List.map_cons, List.sum_cons]
      simp only [Bool.false_eq_true, if_false]
      omega
    · have := ih ha
      cases hb : p b <;> simp only [List.filter_cons, hb, List.map_cons, List.sum_cons, if_true,
        Bool.false_eq_true, if_false] <;> omega

lemma pendingWrites_put {api : List (QueueObject V)} {a w : QueueObject V} (ha : a ∈ api)
    (hid : a.ident = w.ident) :
    pendingWrites t (put api w) + due t (sortedKeys t.index) a
      ≤ pendingWrites t api + due t (sortedKeys t.index) w := by
  have hdrop := sum_filter_add_le (due t (sortedKeys t.index))
    (p := fun o => decide (o.ident ≠ w.ident))
    ha (by simpa using hid)
  unfold pendingWrites put dropObject
  rw [List.map_append, List.sum_append]
  split_ifs
  · simp only [List.map_nil, List.sum_nil]
    omega
  · simp only [List.map_cons, List.map_nil, List.sum_cons, List.sum_nil]
    omega

lemma Fresh.put {api : List (QueueObject V)} {u : Update V} {w : QueueObject V} (h : Fresh t api u)
    (hw : u.object.resourceVersion < w.resourceVersion) : Fresh t (put api w) u := by
  obtain ⟨o, order, hv, hu, hsame⟩ := h
  refine ⟨o, order, hv, hu, fun a ha href hrv => ?_⟩
  rcases mem_put_iff.mp ha with ⟨ha, -⟩ | ⟨rfl, -⟩
  · exact hsame a ha href hrv
  · have hold := (reconcileQueue_object hu).2
    omega

lemma countP_stale_put (api : List (QueueObject V)) {us : List (Update V)} {w : QueueObject V}
    (hw : ∀ u ∈ us, u.object.resourceVersion < w.resourceVersion) :
    us.countP (stale t (put api w)) ≤ us.countP (stale t api) := by
  refine List.countP_mono_left fun u hu hstale => ?_
  rw [stale_eq_true] at hstale ⊢
  exact fun hfresh => hstale (hfresh.put (hw u hu))

/-- The version that the server makes of an object. -/
def stamp (n : ℕ) (o : QueueObject V) : QueueObject V := { o with resourceVersion := n }

lemma answer_cases (s : Server V) (u : Update V) :
    s.answer u = s ∨ ∃ a, current s.api u.object = some a ∧
      (s.answer u).api = put s.api (stamp (s.revision + 1) (u.written a)) ∧
      (s.answer u).revision = s.revision + 1 ∧ (s.answer u).updates = s.updates := by
  unfold Server.answer
  cases hcur : current s.api u.object with
  | none => exact .inl rfl
  | some a => exact .inr ⟨a, rfl, rfl, rfl, rfl⟩

lemma answer_loop (s : Server V) (u : Update V) :
    (s.answer u).engine = s.engine ∧ (s.answer u).pass = s.pass := by
  unfold Server.answer
  cases current s.api u.object <;> exact ⟨rfl, rfl⟩

lemma owed_answer (h : Consistent s) (hd : Distinct t) {i : ℕ} {u : Update V}
    (hu : s.updates[i]? = some u) :
    ({ s with updates := s.updates.eraseIdx i }.answer u).revision +
      owed t ({ s with updates := s.updates.eraseIdx i }.answer u) ≤ s.revision + owed t s := by
  obtain ⟨hi, hget⟩ := List.getElem?_eq_some_iff.mp hu
  have hperm : s.updates.Perm (u :: s.updates.eraseIdx i) := by
    rw [← hget]
    exact (List.getElem_cons_eraseIdx_perm hi).symm
  have hcount := hperm.countP_eq (stale t s.api)
  rw [List.countP_cons] at hcount
  have hpass := (answer_loop { s with updates := s.updates.eraseIdx i } u).2
  have houtdated : outdated ({ s with updates := s.updates.eraseIdx i }.answer u) = outdated s := by
    unfold outdated
    rw [hpass]
  unfold owed
  rw [houtdated]
  rcases answer_cases { s with updates := s.updates.eraseIdx i } u with
    heq | ⟨a, hcur, hapi, hrev, hups⟩
  · rw [heq]
    dsimp only
    omega
  obtain ⟨ha, href, hrv⟩ := current_spec hcur
  dsimp only at ha hapi hrev hups
  have hput := pendingWrites_put (t := t) (w := stamp (s.revision + 1) (u.written a)) ha
    (congrArg Prod.fst (Update.ref_written href))
  have hothers := countP_stale_put s.api (t := t) (w := stamp (s.revision + 1) (u.written a))
    fun v hv => Nat.lt_succ_of_le (h.updates v (List.mem_of_mem_eraseIdx (i := i) hv))
  rw [hrev, hapi, hups]
  have hdue : due t (sortedKeys t.index) (stamp (s.revision + 1) (u.written a))
      = due t (sortedKeys t.index) (u.written a) := rfl
  by_cases hfresh : Fresh t s.api u
  · obtain ⟨o, order, hv, hmade, hsame⟩ := hfresh
    have hobject := reconcileQueue_object hmade
    obtain rfl := hsame a ha (href.trans hobject.1) (hrv.trans hobject.2)
    have hpaid := due_written hmade
    rw [due_congr hd hv (sortedKeys_visits _), due_congr hd hv (sortedKeys_visits _)] at hpaid
    omega
  · have hle := due_written_le t (sortedKeys t.index) href
    rw [if_pos (stale_eq_true.mpr hfresh)] at hcount
    omega

/-- The loop, the answers of the server and the informer go on; the clients, the plugins and the
rebuild loop are still. -/
def Calm (_ : Server V) : Step V → Prop
  | .begin | .list _ | .inspect _ | .answer _ | .lose _ | .deliver _ => True
  | _ => False

/-- The objects are listed, unless the tree of the pass is the live one. -/
def Listed (s : Server V) : Prop := ∀ replaced, s.pass = .begun replaced → replaced = none

lemma looksAt_listed {o : QueueObject V} {t : QueueManager V} (h : s.looksAt = some (o, t)) :
    ∃ replaced rest, s.pass = .listed replaced (o :: rest) ∧
      replaced.or s.engine.tree = some t := by
  obtain ⟨o', ho, hp⟩ := Option.bind_eq_some_iff.mp h
  obtain ⟨t', ht, hpair⟩ := Option.map_eq_some_iff.mp hp
  cases hpair
  unfold Server.passTree at ht
  cases hpass : s.pass with
  | idle | begun => simp [hpass, Pass.left] at ho
  | listed replaced left =>
    obtain ⟨rest, rfl⟩ := List.head?_eq_some_iff.mp (by simpa [hpass, Pass.left] using ho)
    exact ⟨replaced, rest, rfl, by simpa [hpass, Pass.replaced] using ht⟩

lemma owed_inspect (h : Consistent s) (ht : s.engine.tree = some t) {order : List String}
    (he : s.Enabled (.inspect order)) : owed t (s.next (.inspect order)) ≤ owed t s := by
  cases hlooks : s.looksAt with
  | none => simp [Server.next, hlooks]
  | some p =>
    obtain ⟨o, t'⟩ := p
    obtain ⟨replaced, rest, hpass, htree⟩ := looksAt_listed hlooks
    rw [next_inspect hlooks]
    simp only [owed, outdated, List.countP_append, hpass, Pass.rest, Pass.replaced, Pass.left]
    cases replaced with
    | some old =>
      have hone : (reconcileQueue t' order o).toList.countP (stale t s.api) ≤ 1 :=
        List.countP_le_length.trans (by cases reconcileQueue t' order o <;> simp)
      simp only [Option.isSome_some, if_true, List.tail_cons, List.length_cons]
      omega
    | none =>
      obtain rfl : t = t' := Option.some.inj (ht.symm.trans htree)
      have hfresh : (reconcileQueue t order o).toList.countP (stale t s.api) = 0 := by
        rw [List.countP_eq_zero]
        intro u hu
        rw [stale_eq_true, not_not]
        refine ⟨o, order, he t (looksAt_mem hlooks).2, Option.mem_toList.mp hu, ?_⟩
        exact h.copies o (List.mem_append_right _ (looksAt_mem hlooks).1)
      simp [hfresh]

lemma owed_next (h : Consistent s) (hlisted : Listed s) (ht : s.engine.tree = some t)
    (hd : Distinct t) {step : Step V} (he : s.Enabled step) (hcalm : Calm s step) :
    (s.next step).revision + owed t (s.next step) ≤ s.revision + owed t s := by
  cases step with
  | call | assemble | publish | create | edit | delete => cases hcalm
  | deliver id => exact le_rfl
  | begin =>
    simp only [Server.next, ht, owed, outdated, Pass.replaced, Option.isSome_none,
      Bool.false_eq_true, if_false, List.length_nil]
    omega
  | list objects =>
    simp only [Server.next]
    split
    · rename_i replaced hpass
      obtain rfl := hlisted replaced hpass
      simp [owed, outdated, hpass, Pass.replaced]
    · exact le_rfl
  | lose i =>
    have hcount := (List.eraseIdx_sublist s.updates i).countP_le (p := stale t s.api)
    exact Nat.add_le_add_left (Nat.add_le_add_left (Nat.mul_le_mul_left 2
      (Nat.add_le_add_right hcount _)) _) _
  | answer i =>
    simp only [Server.next]
    cases hu : s.updates[i]? with
    | none => exact le_rfl
    | some u => exact owed_answer h hd hu
  | inspect order =>
    have hrevision : (s.next (.inspect order)).revision = s.revision := by
      simp only [Server.next]
      split <;> rfl
    rw [hrevision]
    exact Nat.add_le_add_left (owed_inspect h ht he) _

lemma calm_next (hlisted : Listed s) (ht : s.engine.tree = some t) {step : Step V}
    (hcalm : Calm s step) : Listed (s.next step) ∧ (s.next step).engine.tree = some t := by
  cases step with
  | call | assemble | publish | create | edit | delete => cases hcalm
  | deliver | lose => exact ⟨hlisted, ht⟩
  | begin =>
    simp only [Server.next, ht]
    exact ⟨fun replaced hpass => (Pass.begun.inj hpass).symm, trivial⟩
  | list objects =>
    simp only [Server.next]
    split
    · exact ⟨fun _ hpass => absurd hpass (by simp), ht⟩
    · exact ⟨hlisted, ht⟩
  | answer i =>
    simp only [Server.next]
    cases s.updates[i]? with
    | none => exact ⟨hlisted, ht⟩
    | some u =>
      obtain ⟨hengine, hpass⟩ := answer_loop { s with updates := s.updates.eraseIdx i } u
      exact ⟨fun replaced h => hlisted replaced (hpass ▸ h), by rw [hengine]; exact ht⟩
  | inspect order =>
    cases hlooks : s.looksAt with
    | none => simpa [Server.next, hlooks] using ⟨hlisted, ht⟩
    | some p =>
      obtain ⟨replaced, rest, hpass, -⟩ := looksAt_listed (o := p.1) (t := p.2) hlooks
      rw [next_inspect (o := p.1) (t := p.2) hlooks]
      exact ⟨fun _ h => by simp [hpass, Pass.rest] at h, ht⟩

lemma owed_run {u : Server V} {steps : List (Step V)} (h : Consistent s) (hlisted : Listed s)
    (ht : s.engine.tree = some t) (hd : Distinct t) (hrun : Run (server.restrict Calm) s steps u) :
    u.engine.tree = some t ∧ u.revision + owed t u ≤ s.revision + owed t s := by
  have hall : Consistent u ∧ (Listed u ∧ u.engine.tree = some t) ∧
      u.revision + owed t u ≤ s.revision + owed t s := by
    refine hrun.invariant (I := fun u => Consistent u ∧ (Listed u ∧ u.engine.tree = some t) ∧
      u.revision + owed t u ≤ s.revision + owed t s) ⟨h, ⟨hlisted, ht⟩, le_rfl⟩
        fun v step hv hstep => ?_
    obtain ⟨hcons, ⟨hlist, htree⟩, hle⟩ := hv
    exact ⟨consistent_next hcons hstep.1, calm_next hlist htree hstep.2,
      (owed_next hcons hlist htree hd hstep.1 hstep.2).trans hle⟩
  exact ⟨hall.2.1.2, hall.2.2⟩

lemma owed_le (t : QueueManager V) (s : Server V) :
    owed t s ≤ 2 * (s.api.length + s.updates.length + (outdated s).length) := by
  have hapi := pendingWrites_le t s.api
  have hupdates := List.countP_le_length (p := stale t s.api) (l := s.updates)
  unfold owed
  omega

def wholePass (s : Server V) (order : List String) : List (Step V) :=
  .begin :: .list s.store :: List.replicate s.store.length (.inspect order)

lemma updates_inspections (order : List String) (left : List (QueueObject V)) (s : Server V)
    (ht : s.engine.tree = some t) (hpass : s.pass = .listed none left) :
    ((List.replicate left.length (.inspect order)).foldl Server.next s).updates =
      s.updates ++ left.filterMap (reconcileQueue t order) := by
  induction left generalizing s with
  | nil => simp
  | cons o left ih =>
    have hlooks : s.looksAt = some (o, t) := by
      simp [Server.looksAt, Server.passTree, hpass, Pass.left, Pass.replaced, ht]
    have hrest : (s.next (.inspect order)).pass = .listed none left := by
      rw [next_inspect hlooks]
      simp [hpass, Pass.rest]
    have htree : (s.next (.inspect order)).engine.tree = some t := by
      rw [next_inspect hlooks]
      exact ht
    rw [List.length_cons, List.replicate_succ, List.foldl_cons, ih _ htree hrest,
      next_inspect hlooks]
    cases hmade : reconcileQueue t order o <;> simp [hmade]

lemma updates_wholePass (s : Server V) (ht : s.engine.tree = some t) (order : List String) :
    ((wholePass s order).foldl Server.next s).updates =
      s.updates ++ s.store.filterMap (reconcileQueue t order) := by
  have hbegun : (s.next .begin).next (.list s.store) = { s with pass := .listed none s.store } := by
    simp [Server.next, ht]
  rw [wholePass, List.foldl_cons, List.foldl_cons, hbegun]
  exact updates_inspections order s.store { s with pass := .listed none s.store } ht rfl

/-- What the loop is for: the finalizer is on every object that is not being deleted, and on a
deleted one only while its queue is in use; path and phase are those of the tree. -/
structure Right (t : QueueManager V) (order : List String) (o : QueueObject V) : Prop where
  guarded : o.deleting = false → o.hasFin = true
  drained : o.deleting = true → o.hasFin = true → live t order o.ident = true
  path : o.status.path = wantedPath t order o
  phase : o.status.phase = some (wantedPhase t order o)

lemma right_of_due_eq_zero {order : List String} {o : QueueObject V} (h : due t order o = 0) :
    Right t order o := by
  obtain ⟨hfin, hstatus⟩ := Nat.add_eq_zero_iff.mp h
  rw [Bool.toNat_eq_zero] at hfin hstatus
  have hshown : o.status.path = wantedPath t order o ∧
      o.status.phase = some (wantedPhase t order o) := by
    simpa [statusDue] using hstatus
  refine ⟨fun hdeleting => ?_, fun hdeleting hhas => ?_, hshown.1, hshown.2⟩
  · simpa [finalizerDue, hdeleting] using hfin
  · simpa [finalizerDue, hdeleting, hhas] using hfin

/-- The status loop comes to rest. In whatever order the loop goes on, the server answers, loses or
refuses its updates and the informer follows, there are at most two more writes for an object, two
for an update that was on its way and two for an object that a pass with an older tree had still to
look at; and when the informer has caught up and a whole pass leaves nothing on its way, every
object is right. -/
theorem status_loop_settles {start u : Server V} {steps steps' : List (Step V)} (h0 : Blank start)
    (hrun : Run server start steps s) (hlisted : Listed s) (ht : s.engine.tree = some t)
    (hd : Distinct t) (hrun' : Run (server.restrict Calm) s steps' u) :
    u.revision ≤ s.revision + 2 * (s.api.length + s.updates.length + (outdated s).length) ∧
      ∀ order, Visits order t.index → (∀ a ∈ u.api, a ∈ u.store) →
        ((wholePass u order).foldl Server.next u).updates = [] →
        ∀ a ∈ u.api, ∀ order', Visits order' t.index → Right t order' a := by
  obtain ⟨htree, hle⟩ := owed_run (consistent_run h0 hrun) hlisted ht hd hrun'
  have hbound := owed_le t s
  refine ⟨by omega, fun order hv hsynced hidle a ha order' hv' => ?_⟩
  rw [updates_wholePass u htree, List.append_eq_nil_iff, List.filterMap_eq_nil_iff] at hidle
  have hdue := due_of_reconcileQueue_none (hidle.2 a (hsynced a ha))
  exact right_of_due_eq_zero ((due_congr hd hv' hv a).trans hdue)

def emptyServer : Server ℤ := ⟨newEngine 60, [], [], 0, [], .idle, none, [], [], ∅⟩

def jobsOrder : List String := ["root", "root.team", "root.team.jobs"]

def jobsQueue (version : ℕ) (finalizers : List String) (status : QueueStatus) : QueueObject ℤ :=
  ⟨bareQueue "team" "jobs" 10 [], 1, version, finalizers, false, status⟩

def rebuildTree : List (Step ℤ) := [.assemble, .publish [] []]

def createJobs : List (Step ℤ) :=
  [.create (bareQueue "team" "jobs" 10 []) [], .deliver ("team", "jobs")] ++ rebuildTree ++
    [.begin, .list [jobsQueue 1 [] ⟨"", none, false, false⟩]] ++ rebuildTree

def settleJobs : List (Step ℤ) :=
  [.inspect jobsOrder, .answer 0, .deliver ("team", "jobs"), .begin,
    .list [jobsQueue 2 [drainFinalizer] ⟨"", none, false, false⟩], .inspect jobsOrder, .answer 0,
    .deliver ("team", "jobs")]

lemma createJobs_legal : server.Legal emptyServer createJobs :=
  ⟨rfl, trivial, trivial, by constructor <;> decide +kernel, trivial,
    by unfold server Server.Enabled; decide +kernel, trivial,
    by constructor <;> decide +kernel, trivial⟩

lemma settleJobs_legal :
    (server.restrict Calm).Legal (createJobs.foldl server.next emptyServer) settleJobs :=
  ⟨⟨by unfold server Server.Enabled; decide +kernel, trivial⟩, ⟨trivial, trivial⟩,
    ⟨trivial, trivial⟩, ⟨trivial, trivial⟩,
    ⟨by unfold Machine.restrict server Server.Enabled; decide +kernel, trivial⟩,
    ⟨by unfold Machine.restrict server Server.Enabled; decide +kernel, trivial⟩,
    ⟨trivial, trivial⟩, ⟨trivial, trivial⟩, trivial⟩

theorem new_queue_settles :
    let s := createJobs.foldl server.next emptyServer
    let u := settleJobs.foldl server.next s
    (outdated s).length = 1 ∧
      u.revision ≤ s.revision + 2 * (s.api.length + s.updates.length + (outdated s).length) ∧
      ∃ t, s.engine.tree = some t ∧ ∀ a ∈ u.api, Right t jobsOrder a := by
  intro s u
  have hsome : s.engine.tree.isSome = true := by decide +kernel
  have hdistinct : ∀ t ∈ s.engine.tree, ∀ p ∈ t.index.keys, ∀ q ∈ t.index.keys,
      ident p = ident q → p = q := by decide +kernel
  have hvisits : ∀ t ∈ s.engine.tree, Visits jobsOrder t.index := by decide +kernel
  obtain ⟨t, ht⟩ := Option.isSome_iff_exists.mp hsome
  obtain ⟨hbound, hright⟩ := status_loop_settles ⟨rfl, rfl, rfl⟩ createJobs_legal.run
    (fun _ hpass => nomatch hpass) ht
    (fun p hp q hq => hdistinct t ht p (Finmap.mem_keys.mpr hp) q (Finmap.mem_keys.mpr hq))
    settleJobs_legal.run
  refine ⟨by decide +kernel, hbound, t, ht, fun a ha => ?_⟩
  have hstore : u.store = u.api := by decide +kernel
  exact hright jobsOrder (hvisits t ht) (fun a ha => hstore ▸ ha)
    (List.eq_nil_of_length_eq_zero (by decide +kernel)) a ha jobsOrder (hvisits t ht)

end Bound

section LeafFlag
variable {s : Server V} {id : String × String} {p : String} {st : QueueStatus}

/-- The queue stays at one path of the trees of the passes, as a leaf or not, and nobody deletes
it. -/
def Steady (id : String × String) (p : String) (s : Server V) : Step V → Prop
  | .inspect order => ∀ t ∈ s.passTree, ∃ leaf, findByNamespaceName t order id = some (p, leaf)
  | .delete id' => id' ≠ id
  | _ => True

/-- The object has this status, and no status update for it will be accepted. -/
structure Shelved (id : String × String) (st : QueueStatus) (s : Server V) : Prop where
  object : ∃ b ∈ s.api, b.ident = id ∧ b.status = st ∧ b.deleting = false
  refused : ∀ o, .status o ∈ s.updates → o.ident = id → current s.api o = none

omit [CommRing V] [LinearOrder V] in
lemma current_put_none {api : List (QueueObject V)} {w o : QueueObject V}
    (hold : o.resourceVersion < w.resourceVersion) (h : current api o = none) :
    current (put api w) o = none := by
  by_contra hsome
  have := current_put hold (Option.isSome_iff_ne_none.mpr hsome)
  simp [h] at this

lemma Shelved.write (h : Shelved id st s) (hc : Consistent s) {w : QueueObject V}
    (hw : w.ident = id → w.status = st ∧ w.deleting = false) : Shelved id st (s.write w) := by
  obtain ⟨⟨b, hb, hid, hst, hdel⟩, hrefused⟩ := h
  refine ⟨?_, fun o ho hoid =>
    current_put_none (Nat.lt_succ_of_le (hc.updates _ ho)) (hrefused o ho hoid)⟩
  by_cases hwid : w.ident = id
  · obtain ⟨hwst, hwdel⟩ := hw hwid
    exact ⟨_, mem_put_iff.mpr (.inr ⟨rfl, by simp [hwdel]⟩), hwid, hwst, hwdel⟩
  · refine ⟨b, mem_put_iff.mpr (.inl ⟨hb, fun heq => hwid ?_⟩), hid, hst, hdel⟩
    exact heq.symm.trans hid

lemma Shelved.eraseIdx (h : Shelved id st s) (i : ℕ) :
    Shelved id st { s with updates := s.updates.eraseIdx i } :=
  ⟨h.object, fun o ho => h.refused o (List.mem_of_mem_eraseIdx ho)⟩

lemma Shelved.answer (h : Shelved id st s) (hc : Consistent s) {u : Update V} (hu : u ∈ s.updates)
    {updates : List (Update V)} (hsub : ∀ v ∈ updates, v ∈ s.updates) :
    Shelved id st ({ s with updates := updates }.answer u) := by
  have hless : Shelved id st { s with updates := updates } :=
    ⟨h.object, fun o ho => h.refused o (hsub _ ho)⟩
  unfold Server.answer
  cases hcur : current s.api u.object with
  | none => exact hless
  | some a =>
    obtain ⟨ha, href, -⟩ := current_spec hcur
    have hwritten : (u.written a).ident = id →
        (u.written a).status = st ∧ (u.written a).deleting = false := by
      intro hwid
      obtain ⟨b, hb, hid, hst, hdel⟩ := h.object
      cases u with
      | finalizers o =>
        have haid : a.ident = id := (congrArg Prod.fst href).trans hwid
        obtain rfl := hc.unique a ha b hb (haid.trans hid.symm)
        exact ⟨hst, hdel⟩
      | status o =>
        have hoid : o.ident = id := (congrArg Prod.fst href).symm.trans hwid
        have hnone := h.refused o hu hoid
        rw [Update.object, hnone] at hcur
        cases hcur
    have hw := hless.write (consistent_copies hc ⟨rfl, rfl⟩ (fun _ ho => ho)
      fun v hv => hc.updates v (hsub v hv)) hwritten
    exact ⟨hw.object, hw.refused⟩

lemma shelved_inspect (h : Shelved id st s) (hc : Consistent s) (hpath : st.path = p)
    (hphase : st.phase = some .active) {order : List String}
    (hsteady : Steady id p s (.inspect order)) :
    Shelved id st (s.next (.inspect order)) := by
  obtain ⟨b, hb, hid, hst, hdel⟩ := h.object
  cases hlooks : s.looksAt with
  | none => simpa [Server.next, hlooks] using h
  | some pair =>
    obtain ⟨o, t⟩ := pair
    rw [next_inspect hlooks]
    refine ⟨h.object, fun w hw hwid => ?_⟩
    rcases List.mem_append.mp hw with hw | hw
    · exact h.refused w hw hwid
    have hmade := Option.mem_toList.mp hw
    have hobject := reconcileQueue_object hmade
    by_contra hsome
    obtain ⟨a, ha⟩ := Option.ne_none_iff_exists'.mp hsome
    obtain ⟨hmem, href, hrv⟩ := current_spec ha
    obtain rfl := hc.copies o (List.mem_append_right _ (looksAt_mem hlooks).1) a hmem
      (href.trans hobject.1) (hrv.trans hobject.2)
    have haid : a.ident = id := (congrArg Prod.fst href).trans hwid
    obtain rfl := hc.unique a hmem b hb (haid.trans hid.symm)
    obtain ⟨leaf, hfound⟩ := hsteady t (looksAt_mem hlooks).2
    have hshown : statusDue t order a = false := by
      simp [statusDue, wantedPath, wantedPhase, haid, hfound, hst, hpath, hphase, hdel]
    rw [reconcileQueue_eq, hshown, if_neg Bool.false_ne_true] at hmade
    split_ifs at hmade
    cases hmade

lemma shelved_next (h : Shelved id st s) (hc : Consistent s) (hpath : st.path = p)
    (hphase : st.phase = some .active) {step : Step V} (he : s.Enabled step)
    (hsteady : Steady id p s step) : Shelved id st (s.next step) := by
  obtain ⟨b, hb, hid, hst, hdel⟩ := h.object
  cases step with
  | inspect order => exact shelved_inspect h hc hpath hphase hsteady
  | begin | list | assemble | publish =>
    simp only [Server.next]
    split
    all_goals exact ⟨h.object, h.refused⟩
  | answer i =>
    simp only [Server.next]
    cases hu : s.updates[i]? with
    | none => exact h
    | some u => exact h.answer hc (List.mem_of_getElem? hu) fun v hv => List.mem_of_mem_eraseIdx hv
  | lose i => exact h.eraseIdx i
  | call c => exact ⟨h.object, h.refused⟩
  | create cr finalizers =>
    refine h.write hc fun hwid => ?_
    have hnone : s.get (cr.ns, cr.name) = none := he
    have hmissing : b.ident ≠ (cr.ns, cr.name) := by simpa using List.find?_eq_none.mp hnone b hb
    exact absurd (hid.trans hwid.symm) hmissing
  | edit cr finalizers =>
    simp only [Server.next]
    split
    · exact h
    · rename_i a ha
      obtain ⟨hmem, haid⟩ := mem_api_of_get ha
      refine h.write hc fun hwid => ?_
      obtain rfl := hc.unique a hmem b hb ((haid.trans hwid).trans hid.symm)
      exact ⟨hst, hdel⟩
  | delete id' =>
    simp only [Server.next]
    split
    · exact h
    · rename_i a ha
      obtain ⟨hmem, haid⟩ := mem_api_of_get ha
      refine h.write hc fun hwid => absurd (haid.symm.trans hwid) hsteady
  | deliver id' => exact ⟨h.object, h.refused⟩

/-- The leaf flag is never corrected: once a Queue is shown as active at a path, its status stays as
it is for as long as the queue stays at that path, whether it gets children or loses them. -/
theorem leaf_flag_is_never_corrected {start u : Server V} {steps steps' : List (Step V)}
    {a : QueueObject V} (h0 : Blank start) (hrun : Run server start steps s) (ha : a ∈ s.api)
    (hdel : a.deleting = false)
    (hphase : a.status.phase = some .active) (hnone : ∀ v ∈ s.updates, v.object.ident ≠ a.ident)
    (hrun' : Run (server.restrict (Steady a.ident a.status.path)) s steps' u) :
    ∃ b ∈ u.api, b.ident = a.ident ∧ b.status = a.status := by
  have hc := consistent_run h0 hrun
  have hstart : Shelved a.ident a.status s :=
    ⟨⟨a, ha, rfl, rfl, hdel⟩, fun o ho hid => absurd hid (hnone _ ho)⟩
  have hall : Consistent u ∧ Shelved a.ident a.status u :=
    hrun'.invariant (I := fun u => Consistent u ∧ Shelved a.ident a.status u) ⟨hc, hstart⟩
      fun v step hv hstep =>
        ⟨consistent_next hv.1 hstep.1, shelved_next hv.2 hv.1 rfl hphase hstep.1 hstep.2⟩
  obtain ⟨b, hb, hid, hst, -⟩ := hall.2.object
  exact ⟨b, hb, hid, hst⟩

def shownStatus : QueueStatus := ⟨"root.team.jobs", some .active, true, true⟩

def growJobs : List (Step ℤ) :=
  let etl := { bareQueue "team" "etl" 4 ["etl"] with parent := "jobs" }
  [.create etl [], .deliver ("team", "etl")] ++ rebuildTree ++
    [.begin, .list [jobsQueue 3 [drainFinalizer] shownStatus,
      ⟨etl, 4, 4, [], false, ⟨"", none, false, false⟩⟩],
    .inspect ["root", "root.team", "root.team.jobs", "root.team.jobs.etl"]]

def shownJobs : Server ℤ := (createJobs ++ settleJobs).foldl server.next emptyServer

lemma shownJobs_legal : server.Legal emptyServer (createJobs ++ settleJobs) :=
  ⟨rfl, trivial, trivial, by constructor <;> decide +kernel, trivial,
    by unfold server Server.Enabled; decide +kernel, trivial,
    by constructor <;> decide +kernel, by unfold server Server.Enabled; decide +kernel,
    trivial, trivial, trivial, by unfold server Server.Enabled; decide +kernel,
    by unfold server Server.Enabled; decide +kernel, trivial, trivial, trivial⟩

lemma growJobs_legal :
    (server.restrict (Steady ("team", "jobs") "root.team.jobs")).Legal shownJobs growJobs := by
  refine ⟨⟨Option.isNone_iff_eq_none.mp (by decide +kernel), trivial⟩, ⟨trivial, trivial⟩,
    ⟨trivial, trivial⟩, ⟨by constructor <;> decide +kernel, trivial⟩, ⟨trivial, trivial⟩,
    ⟨by unfold Machine.restrict server Server.Enabled; decide +kernel, trivial⟩,
    ⟨by unfold Machine.restrict server Server.Enabled; decide +kernel, ?_⟩, trivial⟩
  unfold Steady
  decide +kernel

theorem inner_queue_shown_as_leaf :
    (∃ b ∈ (growJobs.foldl server.next shownJobs).api, b.ident = ("team", "jobs") ∧
      b.status = shownStatus) ∧
    ∃ t ∈ (growJobs.foldl server.next shownJobs).engine.tree,
      findByNamespaceName t (sortedKeys t.index) ("team", "jobs")
        = some ("root.team.jobs", false) := by
  have hshown : ∃ a ∈ shownJobs.api, a.deleting = false ∧ a.ident = ("team", "jobs") ∧
      a.status = shownStatus := by decide +kernel
  have hempty : shownJobs.updates = [] := List.eq_nil_of_length_eq_zero (by decide +kernel)
  obtain ⟨a, ha, hdel, hid, hst⟩ := hshown
  have hrun : Run (server.restrict (Steady a.ident a.status.path)) shownJobs growJobs
      (growJobs.foldl server.next shownJobs) := by
    rw [hid, hst]
    exact growJobs_legal.run
  have hnone : ∀ v ∈ shownJobs.updates, v.object.ident ≠ a.ident := by simp [hempty]
  obtain ⟨b, hb, hbid, hbst⟩ := leaf_flag_is_never_corrected ⟨rfl, rfl, rfl⟩
    shownJobs_legal.run ha hdel
    (by rw [hst]; rfl) hnone hrun
  exact ⟨⟨b, hb, hbid.trans hid, hbst.trans hst⟩, by decide +kernel⟩

end LeafFlag

end AdScheduler.StatusWrites
