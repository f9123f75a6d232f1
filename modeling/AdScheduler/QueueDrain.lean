import AdScheduler.DottedPath
import AdScheduler.GangAgreement
import AdScheduler.TreeAssembly

/-! The drain finalizer of a Queue, after `pkg/framework/queuestatus.go`: a pass of the reconcile
loop captures the tree and the listing of the Queues once and writes to the API server, while the
engine's calls and the rebuilds go on. A write is refused when the object has changed since it was
read. -/
namespace AdScheduler.QueueDrain
open KeyedMap Resources QueueTree Manager LedgerTree EngineCore GangAgreement TreeAssembly Runs

/-- It blocks the deletion of a Queue with live allocation. -/
def drainFinalizer : String := "scheduling.arenadata.io/queue-drain"

inductive QueuePhase
  | active
  | draining
  | degraded
  deriving DecidableEq

/-- The status that the reconcile loop writes; an object without one has the empty path and
no phase. -/
structure QueueStatus where
  path : String
  phase : Option QueuePhase
  admittedToTree : Bool
  leaf : Bool
  deriving DecidableEq

structure QueueObject (V : Type*) where
  cr : QueueCR V
  uid : ℕ
  resourceVersion : ℕ
  finalizers : List String
  deleting : Bool
  status : QueueStatus
  deriving DecidableEq

def bareName (p : String) : String := String.ofList ((DottedPath.segments p).getLastD [])

/-- The namespace and the bare name of the queue at a path. -/
def ident (p : String) : String × String := (namespaceOf p, bareName p)

namespace QueueObject
variable {V : Type*}

def ident (o : QueueObject V) : String × String := (o.cr.ns, o.cr.name)

def ref (o : QueueObject V) : (String × String) × ℕ := (o.ident, o.uid)

def hasFin (o : QueueObject V) : Bool := o.finalizers.contains drainFinalizer

end QueueObject

/-- An update of the object as it was read, or of its status only. -/
inductive Update (V : Type*)
  | finalizers (o : QueueObject V)
  | status (o : QueueObject V)

def Update.object {V : Type*} : Update V → QueueObject V
  | .finalizers o | .status o => o

def Update.removes {V : Type*} : Update V → Bool
  | .finalizers o => !o.hasFin
  | .status _ => false

variable {V : Type*} [CommRing V] [LinearOrder V]

/-- Locate a Queue in the tree by namespace and bare name. -/
def findByNamespaceName (t : QueueManager V) (order : List String) (id : String × String) :
    Option (String × Bool) :=
  ((entries order t.index).find? fun entry => decide (ident entry.1 = id)).map
    fun entry => (entry.1, entry.2.isLeaf)

def live (t : QueueManager V) (order : List String) (id : String × String) : Bool :=
  match findByNamespaceName t order id with
  | none => false
  | some (path, _) => !isEmpty (t.used path)

/-- No write if path and phase are shown already. -/
def patchQueueStatus (o : QueueObject V) (path : String) (phase : QueuePhase) (inTree leaf : Bool) :
    Option (Update V) :=
  if o.status.path = path ∧ o.status.phase = some phase then none
  else some (.status { o with status := ⟨path, some phase, inTree, leaf⟩ })

/-- What the loop wants written for one object of the informer's store. -/
def reconcileQueue (t : QueueManager V) (order : List String) (o : QueueObject V) :
    Option (Update V) :=
  let found := findByNamespaceName t order o.ident
  if !o.deleting && !o.hasFin then
    some (.finalizers { o with finalizers := o.finalizers ++ [drainFinalizer] })
  else if o.deleting && o.hasFin && !live t order o.ident then
    some (.finalizers { o with finalizers := o.finalizers.filter (· ≠ drainFinalizer) })
  else
    let phase := if o.deleting then .draining else if found.isNone then .degraded else .active
    patchQueueStatus o (found.elim "" Prod.fst) phase found.isSome (found.elim false Prod.snd)

/-- How far a pass over the Queues has come: its tree is captured, or the objects are listed and
some are still to be looked at. The captured tree is the live one until a rebuild replaces that;
after that no call changes it. -/
inductive Pass (V : Type*) [CommRing V] [LinearOrder V]
  | idle
  | begun (replaced : Option (QueueManager V))
  | listed (replaced : Option (QueueManager V)) (left : List (QueueObject V))

namespace Pass

def replaced : Pass V → Option (QueueManager V)
  | .idle => none
  | .begun replaced | .listed replaced _ => replaced

def left : Pass V → List (QueueObject V)
  | .listed _ left => left
  | .idle | .begun _ => []

def rest : Pass V → Pass V
  | .listed replaced left => .listed replaced left.tail
  | pass => pass

/-- A rebuild replaces the live tree. -/
def keep (old : Option (QueueManager V)) : Pass V → Pass V
  | .idle => .idle
  | .begun replaced => .begun (replaced.or old)
  | .listed replaced left => .listed (replaced.or old) left

end Pass

/-- The engine, the API server, the queue informer's store, the pass of the loop, the tree that a
rebuild has assembled, and the updates on their way. Recorded beside them: the objects that the
trees were assembled from, and the objects whose drain finalizer the loop has removed. -/
structure Server (V : Type*) [CommRing V] [LinearOrder V] where
  engine : Engine V
  quotas : List (ResourceQuota V)
  api : List (QueueObject V)
  revision : ℕ
  store : List (QueueObject V)
  pass : Pass V
  assembled : Option (QueueManager V × List (QueueObject V))
  updates : List (Update V)
  built : List (QueueObject V)
  drained : Finset ((String × String) × ℕ)

def dropObject (objects : List (QueueObject V)) (id : String × String) : List (QueueObject V) :=
  objects.filter fun o => decide (o.ident ≠ id)

/-- The API server stores a version; an object that is being deleted goes when its last
finalizer does. -/
def put (api : List (QueueObject V)) (o : QueueObject V) : List (QueueObject V) :=
  dropObject api o.ident ++ if o.deleting && o.finalizers.isEmpty then [] else [o]

/-- The version that the update was made from is still the current one. -/
def current (api : List (QueueObject V)) (o : QueueObject V) : Option (QueueObject V) :=
  api.find? fun a => decide (a.ref = o.ref ∧ a.resourceVersion = o.resourceVersion)

/-- What the current version becomes. The status and the rest are written separately. -/
def Update.written (u : Update V) (a : QueueObject V) : QueueObject V :=
  match u with
  | .finalizers o => { a with cr := o.cr, finalizers := o.finalizers }
  | .status o => { a with status := o.status }

/-- A pass of the loop captures the tree (`begin`), lists the objects and looks at one after the
other (`inspect`); an update is answered by the API server or lost; a rebuild assembles a tree
from the store and then swaps it in (`publish`); clients create, edit and delete objects; the
informer catches up with one object (`deliver`). -/
inductive Step (V : Type*) [CommRing V] [LinearOrder V]
  | begin
  | list (objects : List (QueueObject V))
  | inspect (order : List String)
  | answer (i : ℕ)
  | lose (i : ℕ)
  | call (c : Call V)
  | assemble
  | publish (bookOrder gangOrder : List String)
  | create (cr : QueueCR V) (finalizers : List String)
  | edit (cr : QueueCR V) (finalizers : List String)
  | delete (id : String × String)
  | deliver (id : String × String)

namespace Server

/-- The API server takes a new version of an object. -/
def write (s : Server V) (o : QueueObject V) : Server V :=
  { s with
    api := put s.api { o with resourceVersion := s.revision + 1 }
    revision := s.revision + 1 }

/-- The current version of the object with this identity. -/
def get (s : Server V) (id : String × String) : Option (QueueObject V) :=
  s.api.find? fun a => decide (a.ident = id)

def passTree (s : Server V) : Option (QueueManager V) := s.pass.replaced.or s.engine.tree

/-- The object that the pass looks at next, with its tree. -/
def looksAt (s : Server V) : Option (QueueObject V × QueueManager V) :=
  s.pass.left.head?.bind fun o => s.passTree.map fun t => (o, t)

def answer (s : Server V) (u : Update V) : Server V :=
  match current s.api u.object with
  | none => s
  | some a =>
    { s.write (u.written a) with
      drained := if u.removes then insert u.object.ref s.drained else s.drained }

def next (s : Server V) : Step V → Server V
  | .begin =>
    match s.engine.tree with
    | none => s
    | some _ => { s with pass := .begun none }
  | .list objects =>
    match s.pass with
    | .begun replaced => { s with pass := .listed replaced objects }
    | _ => s
  | .inspect order =>
    match s.looksAt with
    | none => s
    | some (o, t) =>
      { s with updates := s.updates ++ (reconcileQueue t order o).toList, pass := s.pass.rest }
  | .answer i =>
    match s.updates[i]? with
    | none => s
    | some u => { s with updates := s.updates.eraseIdx i }.answer u
  | .lose i => { s with updates := s.updates.eraseIdx i }
  | .call c => { s with engine := s.engine.call c }
  | .assemble =>
    match assemble (s.store.map QueueObject.cr) s.quotas with
    | .error _ => s
    | .ok mgr => { s with assembled := some (mgr, s.store) }
  | .publish bookOrder gangOrder =>
    match s.assembled with
    | none => s
    | some (mgr, objects) =>
      { s with
        engine := s.engine.rebuild mgr bookOrder gangOrder
        built := objects
        assembled := none
        pass := s.pass.keep s.engine.tree }
  | .create cr finalizers =>
    s.write ⟨cr, s.revision + 1, 0, finalizers, false, ⟨"", none, false, false⟩⟩
  | .edit cr finalizers =>
    match s.get (cr.ns, cr.name) with
    | none => s
    | some a => s.write { a with cr := cr, finalizers := finalizers }
  | .delete id =>
    match s.get id with
    | none => s
    | some a => s.write { a with deleting := true }
  | .deliver id =>
    { s with store := dropObject s.store id ++ s.api.filter fun a => decide (a.ident = id) }

/-- A rebuild is a step of its own, for it reads the store. -/
def ordinary : Call V → Bool
  | .rebuild _ _ _ => false
  | _ => true

def Enabled (s : Server V) : Step V → Prop
  | .list objects => objects.Perm s.store
  | .inspect order => ∀ t ∈ s.passTree, Visits order t.index
  | .call c => Callable s.engine c ∧ ordinary c = true
  | .publish bookOrder gangOrder =>
    Visits bookOrder s.engine.book ∧ Visits gangOrder s.engine.gangBook
  | .create cr _ => s.get (cr.ns, cr.name) = none
  | _ => True

end Server

def server : Machine (Server V) (Step V) := ⟨Server.Enabled, Server.next⟩

def Holds (e : Engine V) (leaf : String) : Prop :=
  (∃ uid rec, e.book.lookup uid = some rec ∧ rec.leaf = leaf) ∨
    ∃ key gb, e.gangBook.lookup key = some gb ∧ gb.leaf = leaf

/-- A booking or a reservation on the leaf is in the first ledger and not in the second. -/
def Dropped (e e' : Engine V) (leaf : String) : Prop :=
  (∃ uid rec, e.book.lookup uid = some rec ∧ rec.leaf = leaf ∧ uid ∉ e'.book) ∨
    ∃ key gb, e.gangBook.lookup key = some gb ∧ gb.leaf = leaf ∧ key ∉ e'.gangBook

/-- A rebuild drops nothing from a leaf whose Queue was let go as drained. -/
def Safe (s : Server V) : Step V → Prop
  | .publish bookOrder gangOrder =>
    ∀ leaf, Dropped s.engine (s.next (.publish bookOrder gangOrder)).engine leaf →
      ∀ o ∈ s.built, o.ident = ident leaf → o.ref ∉ s.drained
  | _ => True

/-- The drain finalizer of the object is gone, or an update that removes it will succeed. -/
def Doomed (s : Server V) (ref : (String × String) × ℕ) : Prop :=
  ref ∈ s.drained ∨
    ∃ u ∈ s.updates, u.removes = true ∧ u.object.ref = ref ∧ (current s.api u.object).isSome = true

/-- Everywhere a version of an object can be: below the trees, in the store and in the listing of
the pass, at the server. -/
def Server.objects (s : Server V) : List (QueueObject V) :=
  s.built ++ (s.assembled.elim [] Prod.snd ++ s.pass.left ++ s.store) ++ s.api

def Closing (s : Server V) (id : String × String) : Prop :=
  ∃ o ∈ s.objects, o.ident = id ∧ Doomed s o.ref

def Books (e : Engine V) : Call V → String → Prop
  | .reserve uid leaf' _, leaf =>
    leaf' = leaf ∧ uid ∉ e.book ∧ ∃ t ∈ e.tree, t.isLeafPath leaf = true
  | .observeBound uid leaf' _, leaf => leaf' = leaf ∧ uid ∉ e.book ∧ ∃ t ∈ e.tree, leaf ∈ t.index
  | .admitGang leaf' key minRes, leaf =>
    leaf' = leaf ∧ key ∉ e.gangBook ∧ (e.admitGang leaf' key minRes).2 = .ok true
  | .admitGangWW leaf' key minRes wwkey now, leaf =>
    leaf' = leaf ∧ key ∉ e.gangBook ∧ (e.admitGangWW leaf' key minRes wwkey now).2 = .ok true
  | _, _ => False

/-- A Queue is let go only while the ledger holds nothing on it, and nothing is put on a
leaf whose Queue is on its way out. -/
def Closed (s : Server V) : Step V → Prop
  | .inspect order => ∀ p ∈ s.looksAt,
      p.1.deleting = true → p.1.hasFin = true → live p.2 order p.1.ident = false →
      (current s.api p.1).isSome = true → ∀ leaf, ident leaf = p.1.ident → ¬ Holds s.engine leaf
  | .call c => ∀ leaf, Books s.engine c leaf → ¬ Closing s (ident leaf)
  | _ => True

section Calls
variable {e e' e'' : Engine V}

/-- Every entry of the second ledger was in the first, on the same leaf. -/
structure LeavesFrom (e e' : Engine V) : Prop where
  book : ∀ uid rec', e'.book.lookup uid = some rec' →
    ∃ rec, e.book.lookup uid = some rec ∧ rec.leaf = rec'.leaf
  gangs : ∀ key gb, e'.gangBook.lookup key = some gb → e.gangBook.lookup key = some gb

lemma LeavesFrom.refl (e : Engine V) : LeavesFrom e e :=
  ⟨fun _ rec h => ⟨rec, h, rfl⟩, fun _ _ h => h⟩

lemma LeavesFrom.trans (h : LeavesFrom e e') (h' : LeavesFrom e' e'') : LeavesFrom e e'' := by
  refine ⟨fun uid rec'' hrec'' => ?_, fun key gb hgb => h.gangs key gb (h'.gangs key gb hgb)⟩
  obtain ⟨rec', hrec', hleaf'⟩ := h'.book uid rec'' hrec''
  obtain ⟨rec, hrec, hleaf⟩ := h.book uid rec' hrec'
  exact ⟨rec, hrec, hleaf.trans hleaf'⟩

lemma LeavesFrom.holds (h : LeavesFrom e e') {leaf : String} (hl : Holds e' leaf) :
    Holds e leaf := by
  rcases hl with ⟨uid, rec', hrec', rfl⟩ | ⟨key, gb, hgb, rfl⟩
  · obtain ⟨rec, hrec, hleaf⟩ := h.book uid rec' hrec'
    exact .inl ⟨uid, rec, hrec, hleaf⟩
  · exact .inr ⟨key, gb, h.gangs key gb hgb, rfl⟩

lemma leavesFrom_eraseBook (uid : String) (tree : Option (QueueManager V)) :
    LeavesFrom e { e with tree := tree, book := e.book.erase uid } :=
  ⟨fun _ rec h => ⟨rec, lookup_of_erase h, rfl⟩, fun _ _ h => h⟩

lemma leavesFrom_eraseGang (key : String) (tree : Option (QueueManager V)) :
    LeavesFrom e { e with tree := tree, gangBook := e.gangBook.erase key } :=
  ⟨fun _ rec h => ⟨rec, h, rfl⟩, fun _ _ h => lookup_of_erase h⟩

lemma leavesFrom_commit {uid : String} {rec : BookRec V} (hrec : e.book.lookup uid = some rec)
    (tree : Option (QueueManager V)) : LeavesFrom e { e with
      tree := tree
      book := e.book.insert uid { rec with state := .committed } } := by
  refine ⟨fun u rec' h => ?_, fun _ _ h => h⟩
  rcases lookup_insert_cases h with ⟨rfl, rfl⟩ | ⟨-, h⟩
  · exact ⟨rec, hrec, rfl⟩
  · exact ⟨rec', h, rfl⟩

lemma leavesFrom_gcBookings (live : Finset String) (order : List String) :
    LeavesFrom e (e.gcBookings live order).1 :=
  gcBookings_invariant (I := LeavesFrom e) (.refl e)
    (fun _ _ _ h => h.trans (leavesFrom_eraseBook _ _)) live order

lemma leavesFrom_gcGangs (live : Finset String) (order : List String) :
    LeavesFrom e (e.gcGangs live order).1 :=
  gcGangs_invariant (I := LeavesFrom e) (.refl e)
    (fun _ _ h => h.trans (leavesFrom_eraseGang _ _)) live order

lemma leavesFrom_rebuild (mgr : QueueManager V) {bookOrder gangOrder : List String}
    (hbo : Visits bookOrder e.book) (hgo : Visits gangOrder e.gangBook) :
    LeavesFrom e (e.rebuild mgr bookOrder gangOrder) := by
  refine ⟨fun uid rec h => ⟨rec, ?_, rfl⟩, fun key gb h => ?_⟩
  · rw [rebuild_book e mgr gangOrder hbo, Option.filter_eq_some_iff] at h
    exact h.1
  · rw [rebuild_gangBook e mgr bookOrder hgo, Option.filter_eq_some_iff] at h
    exact h.1

/-- What a call makes of the ledger: an entry on a leaf, or nothing new. -/
inductive Booked (e e' : Engine V) (leaf : String) : Prop
  | pod {uid : String} {rec : BookRec V} (new : e.book.lookup uid = none)
    (leaf_eq : rec.leaf = leaf)
      (book : e'.book = e.book.insert uid rec) (gangs : e'.gangBook = e.gangBook)
  | gang {key : String} {gb : GangBooking V} (new : e.gangBook.lookup key = none)
      (leaf_eq : gb.leaf = leaf) (book : e'.book = e.book)
      (gangs : e'.gangBook = e.gangBook.insert key gb)

lemma Booked.holds {leaf : String} (h : Booked e e' leaf) : Holds e' leaf := by
  cases h with
  | pod _ hleaf hbook _ =>
    exact .inl ⟨_, _, by rw [hbook, Finmap.lookup_insert], hleaf⟩
  | gang _ hleaf _ hgangs =>
    exact .inr ⟨_, _, by rw [hgangs, Finmap.lookup_insert], hleaf⟩

lemma Booked.of_holds {leaf leaf' : String} (h : Booked e e' leaf) (hl : Holds e' leaf') :
    Holds e leaf' ∨ leaf = leaf' := by
  cases h with
  | pod _ hleaf hbook hgangs =>
    rcases hl with ⟨u, rec', hrec', rfl⟩ | ⟨key, gb, hgb, hkey⟩
    · rw [hbook] at hrec'
      rcases lookup_insert_cases hrec' with ⟨-, rfl⟩ | ⟨-, hrec'⟩
      · exact .inr hleaf.symm
      · exact .inl (.inl ⟨u, rec', hrec', rfl⟩)
    · rw [hgangs] at hgb
      exact .inl (.inr ⟨key, gb, hgb, hkey⟩)
  | gang _ hleaf hbook hgangs =>
    rcases hl with ⟨u, rec', hrec', hrl⟩ | ⟨key, gb, hgb, rfl⟩
    · rw [hbook] at hrec'
      exact .inl (.inl ⟨u, rec', hrec', hrl⟩)
    · rw [hgangs] at hgb
      rcases lookup_insert_cases hgb with ⟨-, rfl⟩ | ⟨-, hgb⟩
      · exact .inr hleaf.symm
      · exact .inl (.inr ⟨key, gb, hgb, rfl⟩)

/-- The two things that a call can do: it books on the one leaf that it names, or it adds
nothing. -/
def Effect (e e' : Engine V) (books : String → Prop) : Prop :=
  (∃ leaf, books leaf ∧ (∀ leaf', books leaf' → leaf' = leaf) ∧ Booked e e' leaf) ∨
    (∀ leaf, ¬ books leaf) ∧ LeavesFrom e e'

lemma Effect.holds_iff {books : String → Prop} (h : Effect e e' books) {leaf : String} :
    (books leaf → Holds e' leaf) ∧ (Holds e' leaf → Holds e leaf ∨ books leaf) := by
  rcases h with ⟨leaf₀, hbooks, hone, hbooked⟩ | ⟨hnone, hleaves⟩
  · refine ⟨fun h => ?_, fun h => ?_⟩
    · rw [hone leaf h]
      exact hbooked.holds
    · rcases hbooked.of_holds h with hold | rfl
      · exact .inl hold
      · exact .inr hbooks
  · exact ⟨fun h => absurd h (hnone leaf), fun h => .inl (hleaves.holds h)⟩

lemma effect_reserve (uid leaf : String) (req : Resource V) :
    Effect e (e.reserve uid leaf req) (Books e (.reserve uid leaf req)) := by
  by_cases hnew : uid ∈ e.book
  · rw [Engine.reserve, if_pos hnew]
    exact .inr ⟨fun _ h => h.2.1 hnew, .refl e⟩
  cases ht : e.tree with
  | none =>
    rw [Engine.reserve, if_neg hnew, ht]
    refine .inr ⟨fun _ h => ?_, .refl e⟩
    obtain ⟨t, ht', -⟩ := h.2.2
    simp [ht] at ht'
  | some t =>
    by_cases hl : t.isLeafPath leaf = true
    · rw [reserve_booked req (Finmap.lookup_eq_none.mpr hnew) ht hl]
      exact .inl ⟨leaf, ⟨rfl, hnew, t, ht, hl⟩, fun _ h => h.1.symm,
        .pod (Finmap.lookup_eq_none.mpr hnew) rfl rfl rfl⟩
    · refine .inr ⟨?_, ?_⟩
      · rintro leaf' ⟨rfl, -, t', ht', hl'⟩
        rw [ht] at ht'
        cases ht'
        exact hl hl'
      · have hsame : (e.reserve uid leaf req).book = e.book ∧
            (e.reserve uid leaf req).gangBook = e.gangBook := by
          rw [Engine.reserve, if_neg hnew, ht]
          rcases Conservation.mutate_cases t leaf (Usage.reserve req) with ⟨hl', _⟩ | ⟨_, err, h⟩
          · exact absurd hl' hl
          · simp [QueueManager.reserve, h]
        exact ⟨fun u rec h => ⟨rec, hsame.1 ▸ h, rfl⟩, fun _ _ h => hsame.2 ▸ h⟩

lemma effect_observeBound (uid leaf : String) (req : Resource V) :
    Effect e (e.observeBound uid leaf req) (Books e (.observeBound uid leaf req)) := by
  unfold Engine.observeBound
  cases ht : e.tree with
  | none =>
    refine .inr ⟨fun _ h => ?_, .refl e⟩
    obtain ⟨t, ht', -⟩ := h.2.2
    simp [ht] at ht'
  | some t =>
    dsimp only
    cases hrec : e.book.lookup uid with
    | none =>
      dsimp only
      have hnew := Finmap.lookup_eq_none.mp hrec
      split_ifs with hl
      · exact .inl ⟨leaf, ⟨rfl, hnew, t, ht, hl⟩, fun _ h => h.1.symm, .pod hrec rfl rfl rfl⟩
      · refine .inr ⟨?_, .refl e⟩
        rintro leaf' ⟨rfl, -, t', ht', hl'⟩
        rw [ht] at ht'
        cases ht'
        exact hl hl'
    | some rec =>
      dsimp only
      refine .inr ⟨fun _ h => h.2.1 (Finmap.mem_of_lookup_eq_some hrec), ?_⟩
      split_ifs
      · exact leavesFrom_commit hrec _
      · exact .refl e

lemma effect_admission {leaf key : String} {minRes : Resource V} {verdict : Except EngineErr Bool}
    (hstep : AdmitStep e e' leaf key minRes) (hbook : e'.book = e.book)
    (hmem : key ∈ e'.gangBook ↔ key ∈ e.gangBook ∨ verdict = .ok true) :
    Effect e e' fun leaf' => leaf = leaf' ∧ key ∉ e.gangBook ∧ verdict = .ok true := by
  have hbooked : e.gangBook.lookup key = none → e'.gangBook = e.gangBook.insert key ⟨leaf, minRes⟩ →
      Effect e e' fun leaf' => leaf = leaf' ∧ key ∉ e.gangBook ∧ verdict = .ok true := by
    intro hnew hgangs
    have hout := Finmap.lookup_eq_none.mp hnew
    have hin : key ∈ e'.gangBook := by
      rw [hgangs]
      exact Finmap.mem_insert.mpr (.inl rfl)
    exact .inl ⟨leaf, ⟨rfl, hout, (hmem.mp hin).resolve_left hout⟩, fun _ h => h.1.symm,
      .gang hnew rfl hbook hgangs⟩
  cases hstep with
  | unchanged _ hgangs =>
    refine .inr ⟨fun _ h => h.2.1 ?_, fun uid rec h => ⟨rec, hbook ▸ h, rfl⟩,
      fun _ _ h => hgangs ▸ h⟩
    rw [← hgangs]
    exact hmem.mpr (.inr h.2.2)
  | booked _ _ hnew _ _ hgangs => exact hbooked hnew hgangs
  | adopted _ _ hnew _ _ hgangs => exact hbooked hnew hgangs

lemma mem_gangBook_admitGang (leaf key : String) (minRes : Resource V) :
    key ∈ (e.admitGang leaf key minRes).1.gangBook ↔
      key ∈ e.gangBook ∨ (e.admitGang leaf key minRes).2 = .ok true := by
  unfold Engine.admitGang
  cases hk : e.gangBook.lookup key with
  | some gb =>
    have hin : key ∈ e.gangBook := Finmap.mem_of_lookup_eq_some hk
    dsimp only
    split_ifs <;> simp [hin]
  | none =>
    cases ht : e.tree with
    | none => simp
    | some t =>
      dsimp only
      split <;> simp

lemma effect_call {c : Call V} (hc : Server.ordinary c = true) :
    Effect e (e.call c) (Books e c) := by
  cases c with
  | reserve uid leaf req => exact effect_reserve uid leaf req
  | unreserve uid =>
    refine .inr ⟨fun _ => id, ?_⟩
    simp only [Engine.call, Engine.unreserve]
    split
    · exact .refl e
    · split_ifs
      · exact .refl e
      · exact leavesFrom_eraseBook _ _
  | commit uid =>
    refine .inr ⟨fun _ => id, ?_⟩
    simp only [Engine.call, Engine.commit]
    split
    · exact .refl e
    · rename_i rec hrec
      split_ifs
      · exact .refl e
      · exact leavesFrom_commit hrec _
  | observeBound uid leaf req => exact effect_observeBound uid leaf req
  | observeDeleted uid =>
    refine .inr ⟨fun _ => id, ?_⟩
    simp only [Engine.call, Engine.observeDeleted]
    split
    · exact .refl e
    · exact leavesFrom_eraseBook _ _
  | gcBookings live order => exact .inr ⟨fun _ => id, leavesFrom_gcBookings live order⟩
  | admitGang leaf key minRes =>
    exact effect_admission (admitGang_step e leaf key minRes) (admitGang_book ..)
      (mem_gangBook_admitGang ..)
  | admitGangWW leaf key minRes wwkey now =>
    have hmem : key ∈ (e.admitGangWW leaf key minRes wwkey now).1.gangBook ↔
        key ∈ e.gangBook ∨ (e.admitGangWW leaf key minRes wwkey now).2 = .ok true := by
      simpa using mem_gangBook_admitGangWW e leaf key minRes wwkey now key
    exact effect_admission (admitGangWW_step e leaf key minRes wwkey now) (admitGangWW_book ..) hmem
  | releaseGang key =>
    refine .inr ⟨fun _ => id, ?_⟩
    simp only [Engine.call, Engine.releaseGang]
    split_ifs
    · exact leavesFrom_eraseGang _ _
    · exact .refl e
  | gcGangs live order => exact .inr ⟨fun _ => id, leavesFrom_gcGangs live order⟩
  | rebuild => cases hc

end Calls

/-- What the server has handed out so far: no uid and no version is newer than its revision. -/
structure Dated (s : Server V) : Prop where
  objects : ∀ o ∈ s.objects, o.uid ≤ s.revision ∧ o.resourceVersion ≤ s.revision
  updates : ∀ u ∈ s.updates, u.object.uid ≤ s.revision ∧ u.object.resourceVersion ≤ s.revision
  drained : ∀ ref ∈ s.drained, ref.2 ≤ s.revision

section Versions
variable {s s' : Server V}

omit [CommRing V] [LinearOrder V] in
lemma current_isSome {api : List (QueueObject V)} {o : QueueObject V} :
    (current api o).isSome = true ↔
      ∃ a ∈ api, a.ref = o.ref ∧ a.resourceVersion = o.resourceVersion := by
  simp [current, List.find?_isSome]

omit [CommRing V] [LinearOrder V] in
lemma current_spec {api : List (QueueObject V)} {o a : QueueObject V} (h : current api o = some a) :
    a ∈ api ∧ a.ref = o.ref ∧ a.resourceVersion = o.resourceVersion := by
  have hmatch : a.ref = o.ref ∧ a.resourceVersion = o.resourceVersion := by
    simpa using List.find?_some h
  exact ⟨List.mem_of_find?_eq_some h, hmatch⟩

omit [CommRing V] [LinearOrder V] in
lemma Update.ref_written {u : Update V} {a : QueueObject V} (h : a.ref = u.object.ref) :
    a.ref = (u.written a).ref := by
  cases u with
  | finalizers o => exact Prod.ext (congrArg (·.1) h) rfl
  | status o => rfl

omit [CommRing V] [LinearOrder V] in
lemma mem_put_iff {api : List (QueueObject V)} {w a : QueueObject V} :
    a ∈ put api w ↔
      (a ∈ api ∧ a.ident ≠ w.ident) ∨ (a = w ∧ (w.deleting && w.finalizers.isEmpty) = false) := by
  unfold put dropObject
  cases hgone : w.deleting && w.finalizers.isEmpty <;> simp

omit [CommRing V] [LinearOrder V] in
lemma current_put {api : List (QueueObject V)} {w o : QueueObject V}
    (hold : o.resourceVersion < w.resourceVersion) (h : (current (put api w) o).isSome = true) :
    (current api o).isSome = true := by
  obtain ⟨a, ha, href, hversion⟩ := current_isSome.mp h
  rcases mem_put_iff.mp ha with ⟨ha, -⟩ | ⟨rfl, -⟩
  · exact current_isSome.mpr ⟨a, ha, href, hversion⟩
  · omega

lemma Dated.doomed (h : Dated s) {ref : (String × String) × ℕ} (hd : Doomed s ref) :
    ref.2 ≤ s.revision := by
  rcases hd with hd | ⟨u, hu, -, rfl, -⟩
  · exact h.drained ref hd
  · exact (h.updates u hu).1

lemma closing_mono (h : Dated s) {id : String × String} (hc : Closing s' id)
    (hobjects : ∀ o ∈ s'.objects, (∃ o₀ ∈ s.objects, o₀.ref = o.ref) ∨ s.revision < o.uid)
    (hupdates : ∀ u ∈ s'.updates, u ∈ s.updates)
    (hcurrent : ∀ o : QueueObject V, o.resourceVersion ≤ s.revision →
      (current s'.api o).isSome = true → (current s.api o).isSome = true)
    (hdrained : ∀ ref ∈ s'.drained, Doomed s ref) : Closing s id := by
  obtain ⟨o, ho, rfl, hdoomed'⟩ := hc
  have hdoomed : Doomed s o.ref := by
    rcases hdoomed' with hd | ⟨u, hu, hremoves, href, hcur⟩
    · exact hdrained _ hd
    · have hu' := hupdates u hu
      exact .inr ⟨u, hu', hremoves, href, hcurrent _ (h.updates u hu').2 hcur⟩
  rcases hobjects o ho with ⟨o₀, ho₀, href⟩ | hnew
  · exact ⟨o₀, ho₀, congrArg Prod.fst href, href ▸ hdoomed⟩
  · have hold : o.uid ≤ s.revision := h.doomed hdoomed
    omega

lemma mem_objects_write {o a : QueueObject V} (h : a ∈ (s.write o).objects) :
    a ∈ s.objects ∨ a = { o with resourceVersion := s.revision + 1 } := by
  simp only [Server.objects, Server.write, List.mem_append] at h ⊢
  rcases h with h | h
  · exact .inl (.inl h)
  · exact (mem_put_iff.mp h).imp (fun hold => .inr hold.1) And.left

lemma dated_write (h : Dated s) {o : QueueObject V} (ho : o.uid ≤ s.revision + 1) :
    Dated (s.write o) := by
  refine ⟨fun a ha => ?_, fun u hu => ?_, fun ref href => ?_⟩
  · show a.uid ≤ s.revision + 1 ∧ a.resourceVersion ≤ s.revision + 1
    rcases mem_objects_write ha with ha | rfl
    · have := h.objects a ha
      omega
    · exact ⟨ho, le_rfl⟩
  · show u.object.uid ≤ s.revision + 1 ∧ u.object.resourceVersion ≤ s.revision + 1
    have := h.updates u hu
    omega
  · show ref.2 ≤ s.revision + 1
    have := h.drained ref href
    omega

lemma closing_write (h : Dated s) {o : QueueObject V}
    (ho : (∃ a ∈ s.api, a.ref = o.ref) ∨ s.revision < o.uid) {id : String × String}
    (hc : Closing (s.write o) id) : Closing s id := by
  refine closing_mono h hc ?_ (fun _ hu => hu) ?_ (fun _ => .inl)
  · intro a ha
    rcases mem_objects_write ha with ha | rfl
    · exact .inl ⟨a, ha, rfl⟩
    · refine ho.imp_left ?_
      rintro ⟨a, ha, href⟩
      exact ⟨a, List.mem_append_right _ ha, href⟩
  · intro o' ho' hcur
    exact current_put (Nat.lt_succ_of_le ho') hcur

end Versions

/-- The versions are in order, and the ledger holds nothing on a Queue on its way out. -/
structure Settled (s : Server V) : Prop where
  dated : Dated s
  empty : ∀ leaf, Holds s.engine leaf → ¬ Closing s (ident leaf)

section Steps
variable {s : Server V}

lemma mem_api_of_get {id : String × String} {a : QueueObject V} (h : s.get id = some a) :
    a ∈ s.api ∧ a.ident = id :=
  ⟨List.mem_of_find?_eq_some h, by simpa using List.find?_some h⟩

lemma reconcileQueue_object {t : QueueManager V} {order : List String} {o : QueueObject V}
    {u : Update V} (h : reconcileQueue t order o = some u) :
    u.object.ref = o.ref ∧ u.object.resourceVersion = o.resourceVersion := by
  have hpatch : ∀ path phase inTree leaf, patchQueueStatus o path phase inTree leaf = some u →
      u.object.ref = o.ref ∧ u.object.resourceVersion = o.resourceVersion := by
    intro path phase inTree leaf hu
    unfold patchQueueStatus at hu
    split_ifs at hu
    cases hu
    exact ⟨rfl, rfl⟩
  unfold reconcileQueue at h
  dsimp only at h
  split at h
  · cases h
    exact ⟨rfl, rfl⟩
  split at h
  · cases h
    exact ⟨rfl, rfl⟩
  · exact hpatch _ _ _ _ h

lemma reconcileQueue_removes {t : QueueManager V} {order : List String} {o : QueueObject V} :
    (∃ u, reconcileQueue t order o = some u ∧ u.removes = true) ↔
      o.deleting = true ∧ o.hasFin = true ∧ live t order o.ident = false := by
  unfold reconcileQueue patchQueueStatus
  cases hd : o.deleting <;> cases hf : o.hasFin <;> cases hl : live t order o.ident
  all_goals simp [Update.removes, QueueObject.hasFin]

lemma settled_write (h : Settled s) {o : QueueObject V}
    (ho : (∃ a ∈ s.api, a.ref = o.ref) ∨ o.uid = s.revision + 1) : Settled (s.write o) := by
  refine ⟨dated_write h.dated ?_, fun leaf hl hc => h.empty leaf hl (closing_write h.dated ?_ hc)⟩
  · rcases ho with ⟨a, ha, href⟩ | hnew
    · have hold := (h.dated.objects a (List.mem_append_right _ ha)).1
      have huid : a.uid = o.uid := congrArg Prod.snd href
      omega
    · omega
  · exact ho.imp_right fun hnew => by omega

/-- Copies of versions that are known already may be made, updates may get lost, and the ledger
may let go. -/
lemma settled_copies (h : Settled s) {s' : Server V}
    (hserver : s'.api = s.api ∧ s'.revision = s.revision ∧ s'.drained = s.drained)
    (hsub : ∀ o ∈ s'.objects, o ∈ s.objects) (hupdates : ∀ u ∈ s'.updates, u ∈ s.updates)
    (hholds : ∀ leaf, Holds s'.engine leaf → Holds s.engine leaf) : Settled s' := by
  obtain ⟨hapi, hrevision, hdrained⟩ := hserver
  refine ⟨⟨fun o ho => ?_, fun u hu => ?_, fun ref href => ?_⟩, fun leaf hl hc => ?_⟩
  · rw [hrevision]
    exact h.dated.objects o (hsub o ho)
  · rw [hrevision]
    exact h.dated.updates u (hupdates u hu)
  · rw [hrevision]
    exact h.dated.drained ref (hdrained ▸ href)
  · refine h.empty leaf (hholds leaf hl)
      (closing_mono h.dated hc (fun o ho => .inl ⟨o, hsub o ho, rfl⟩) hupdates ?_ ?_)
    · exact fun _ _ hcur => hapi ▸ hcur
    · exact fun _ hd => .inl (hdrained ▸ hd)

lemma settled_lose (h : Settled s) (i : ℕ) :
    Settled { s with updates := s.updates.eraseIdx i } :=
  settled_copies h ⟨rfl, rfl, rfl⟩ (fun _ ho => ho) (fun _ hu => List.mem_of_mem_eraseIdx hu)
    fun _ hl => hl

lemma settled_answer (h : Settled s) {i : ℕ} {u : Update V} (hu : s.updates[i]? = some u) :
    Settled ({ s with updates := s.updates.eraseIdx i }.answer u) := by
  have hlost := settled_lose h i
  unfold Server.answer
  dsimp only
  split
  · exact hlost
  rename_i a ha
  have hcur : (current s.api u.object).isSome = true := by rw [ha]; rfl
  obtain ⟨hmem, hsame, -⟩ := current_spec ha
  have href := Update.ref_written hsame
  have hwritten := settled_write hlost (o := u.written a) (.inl ⟨a, hmem, href⟩)
  refine ⟨⟨hwritten.dated.objects, hwritten.dated.updates, ?_⟩, fun leaf hl hc => ?_⟩
  · intro ref hd
    dsimp only at hd
    split_ifs at hd with hremoves
    · rcases Finset.mem_insert.mp hd with rfl | hd
      · have := (h.dated.updates u (List.mem_of_getElem? hu)).1
        exact Nat.le_succ_of_le this
      · exact hwritten.dated.drained ref hd
    · exact hwritten.dated.drained ref hd
  · refine h.empty leaf hl (closing_mono h.dated hc ?_ ?_ ?_ ?_)
    · intro o ho
      have ho' : o ∈ (s.write (u.written a)).objects := ho
      rcases mem_objects_write ho' with ho' | rfl
      · exact .inl ⟨o, ho', rfl⟩
      · exact .inl ⟨a, List.mem_append_right _ hmem, href⟩
    · exact fun _ hu' => List.mem_of_mem_eraseIdx hu'
    · exact fun _ hold hnow => current_put (Nat.lt_succ_of_le hold) hnow
    · intro ref hd
      dsimp only at hd
      split_ifs at hd with hremoves
      · rcases Finset.mem_insert.mp hd with rfl | hd
        · exact .inr ⟨u, List.mem_of_getElem? hu, hremoves, rfl, hcur⟩
        · exact .inl hd
      · exact .inl hd

lemma settled_deliver (h : Settled s) (id : String × String) : Settled (s.next (.deliver id)) := by
  refine settled_copies h ⟨rfl, rfl, rfl⟩ (fun o ho => ?_) (fun _ hu => hu) fun _ hl => hl
  simp only [Server.next, Server.objects, dropObject, List.mem_append, List.mem_filter] at ho ⊢
  tauto

lemma settled_begin (h : Settled s) : Settled (s.next .begin) := by
  simp only [Server.next]
  split
  · exact h
  refine settled_copies h ⟨rfl, rfl, rfl⟩ (fun o ho => ?_) (fun _ hu => hu) fun _ hl => hl
  simp only [Server.objects, Pass.left, List.mem_append] at ho ⊢
  tauto

lemma settled_list (h : Settled s) {objects : List (QueueObject V)} (hlist : objects.Perm s.store) :
    Settled (s.next (.list objects)) := by
  simp only [Server.next]
  split
  · refine settled_copies h ⟨rfl, rfl, rfl⟩ (fun o ho => ?_) (fun _ hu => hu) fun _ hl => hl
    simp only [Server.objects, Pass.left, List.mem_append, hlist.mem_iff] at ho ⊢
    tauto
  · exact h

lemma settled_assemble (h : Settled s) : Settled (s.next .assemble) := by
  simp only [Server.next]
  split
  · exact h
  refine settled_copies h ⟨rfl, rfl, rfl⟩ (fun o ho => ?_) (fun _ hu => hu) fun _ hl => hl
  simp only [Server.objects, Option.elim_some, List.mem_append] at ho ⊢
  tauto

lemma left_keep (pass : Pass V) (old : Option (QueueManager V)) :
    (pass.keep old).left = pass.left := by
  cases pass <;> rfl

lemma settled_publish (h : Settled s) {bookOrder gangOrder : List String}
    (hbo : Visits bookOrder s.engine.book) (hgo : Visits gangOrder s.engine.gangBook) :
    Settled (s.next (.publish bookOrder gangOrder)) := by
  simp only [Server.next]
  split
  · exact h
  rename_i mgr objects hassembled
  refine settled_copies h ⟨rfl, rfl, rfl⟩ (fun o ho => ?_) (fun _ hu => hu)
    fun _ hl => (leavesFrom_rebuild mgr hbo hgo).holds hl
  simp only [Server.objects, left_keep, hassembled, Option.elim_some, Option.elim_none,
    List.mem_append] at ho ⊢
  tauto

lemma closing_setEngine (e : Engine V) (id : String × String) :
    Closing { s with engine := e } id ↔ Closing s id := Iff.rfl

lemma settled_call_iff (h : Settled s) {c : Call V} (hc : Server.ordinary c = true) :
    Settled (s.next (.call c)) ↔ Closed s (.call c) := by
  have heffect : ∀ {leaf}, _ := @(effect_call (e := s.engine) hc).holds_iff
  constructor
  · intro h' leaf hbooks hclosing
    exact h'.empty leaf (heffect.1 hbooks) ((closing_setEngine _ _).mpr hclosing)
  · intro hcond
    refine ⟨⟨h.dated.objects, h.dated.updates, h.dated.drained⟩, fun leaf hl hclosing => ?_⟩
    rw [Server.next, closing_setEngine] at hclosing
    rcases heffect.2 hl with hold | hbooks
    · exact h.empty leaf hold hclosing
    · exact hcond leaf hbooks hclosing

lemma looksAt_mem {p : QueueObject V × QueueManager V} (h : s.looksAt = some p) :
    p.1 ∈ s.pass.left ∧ s.passTree = some p.2 := by
  obtain ⟨o, ho, hp⟩ := Option.bind_eq_some_iff.mp h
  obtain ⟨t, ht, rfl⟩ := Option.map_eq_some_iff.mp hp
  exact ⟨List.mem_of_mem_head? ho, ht⟩

lemma mem_objects_of_left {o : QueueObject V} (h : o ∈ s.pass.left) : o ∈ s.objects := by
  simp [Server.objects, h]

lemma left_rest (pass : Pass V) {o : QueueObject V} (h : o ∈ pass.rest.left) : o ∈ pass.left := by
  cases pass with
  | idle | begun => exact h
  | listed replaced left => exact List.mem_of_mem_tail h

section Inspection
variable {o : QueueObject V} {t : QueueManager V} {order : List String}

lemma next_inspect (h : s.looksAt = some (o, t)) (order : List String) :
    s.next (.inspect order) = { s with
      updates := s.updates ++ (reconcileQueue t order o).toList, pass := s.pass.rest } := by
  simp [Server.next, h]

lemma mem_objects_inspect (h : s.looksAt = some (o, t)) {a : QueueObject V}
    (ha : a ∈ (s.next (.inspect order)).objects) : a ∈ s.objects := by
  rw [next_inspect h] at ha
  simp only [Server.objects, List.mem_append] at ha ⊢
  have hleft := left_rest s.pass (o := a)
  tauto

lemma current_reconcileQueue {u : Update V} (h : reconcileQueue t order o = some u) :
    (current s.api u.object).isSome = true ↔ (current s.api o).isSome = true := by
  obtain ⟨href, hversion⟩ := reconcileQueue_object h
  rw [current_isSome, current_isSome, href, hversion]

lemma closing_of_inspect (h : s.looksAt = some (o, t)) {id : String × String}
    (hc : Closing (s.next (.inspect order)) id) : Closing s id ∨
      (o.deleting = true ∧ o.hasFin = true ∧ live t order o.ident = false) ∧
        (current s.api o).isSome = true ∧ o.ident = id := by
  rw [← reconcileQueue_removes]
  obtain ⟨o', ho', rfl, hdoomed⟩ := hc
  have hold : o' ∈ s.objects := mem_objects_inspect h ho'
  rw [next_inspect h] at hdoomed
  rcases hdoomed with hd | ⟨u, hu, hremoves, href, hcur⟩
  · exact .inl ⟨o', hold, rfl, .inl hd⟩
  · rcases List.mem_append.mp hu with hu | hu
    · exact .inl ⟨o', hold, rfl, .inr ⟨u, hu, hremoves, href, hcur⟩⟩
    · have hmade : reconcileQueue t order o = some u := Option.mem_toList.mp hu
      refine .inr ⟨⟨u, hmade, hremoves⟩, (current_reconcileQueue hmade).mp hcur, ?_⟩
      exact congrArg Prod.fst ((reconcileQueue_object hmade).1.symm.trans href)

/-- The Queue whose finalizer the loop wants removed is on its way out, if the copy that the loop
has looked at is the current version. -/
lemma closing_inspect (h : s.looksAt = some (o, t))
    (hremoved : o.deleting = true ∧ o.hasFin = true ∧ live t order o.ident = false)
    (hcur : (current s.api o).isSome = true) : Closing (s.next (.inspect order)) o.ident := by
  obtain ⟨u, hmade, hremoves⟩ := reconcileQueue_removes.mpr hremoved
  obtain ⟨a, ha, href, -⟩ := current_isSome.mp hcur
  rw [next_inspect h]
  refine ⟨a, List.mem_append_right _ ha, congrArg Prod.fst href, .inr ⟨u, ?_, hremoves, ?_, ?_⟩⟩
  · exact List.mem_append_right _ (Option.mem_toList.mpr hmade)
  · exact (reconcileQueue_object hmade).1.trans href.symm
  · exact (current_reconcileQueue hmade).mpr hcur

lemma dated_inspect (h : Dated s) (hlooks : s.looksAt = some (o, t)) (order : List String) :
    Dated (s.next (.inspect order)) := by
  refine ⟨fun a ha => ?_, fun u hu => ?_, ?_⟩
  · have hold := h.objects a (mem_objects_inspect hlooks ha)
    rwa [next_inspect hlooks]
  · rw [next_inspect hlooks] at hu ⊢
    rcases List.mem_append.mp hu with hu | hu
    · exact h.updates u hu
    · obtain ⟨href, hversion⟩ := reconcileQueue_object (Option.mem_toList.mp hu)
      have huid : u.object.uid = o.uid := congrArg Prod.snd href
      have hold := h.objects o (mem_objects_of_left (looksAt_mem hlooks).1)
      dsimp only
      omega
  · rw [next_inspect hlooks]
    exact h.drained

end Inspection

lemma settled_inspect_iff (h : Settled s) (order : List String) :
    Settled (s.next (.inspect order)) ↔ Closed s (.inspect order) := by
  cases hlooks : s.looksAt with
  | none =>
    have hnext : s.next (.inspect order) = s := by simp [Server.next, hlooks]
    rw [hnext]
    exact iff_of_true h fun p hp => by simp [hlooks] at hp
  | some p =>
    have hengine : (s.next (.inspect order)).engine = s.engine := by rw [next_inspect hlooks]
    constructor
    · intro h' p' hp' hdel hfin hdry hcur leaf hleaf hl
      obtain rfl : p = p' := Option.some.inj (hlooks.symm.trans hp')
      refine h'.empty leaf (hengine ▸ hl) ?_
      rw [hleaf]
      exact closing_inspect hlooks ⟨hdel, hfin, hdry⟩ hcur
    · intro hcond
      refine ⟨dated_inspect h.dated hlooks order, fun leaf hl hc => ?_⟩
      rw [hengine] at hl
      rcases closing_of_inspect hlooks hc with hc | ⟨⟨hdel, hfin, hdry⟩, hcur, hid⟩
      · exact h.empty leaf hl hc
      · exact hcond p hlooks hdel hfin hdry hcur leaf hid.symm hl

lemma settled_next_iff (h : Settled s) {step : Step V} (hstep : s.Enabled step) :
    Settled (s.next step) ↔ Closed s step := by
  cases step with
  | begin => exact iff_of_true (settled_begin h) trivial
  | list objects => exact iff_of_true (settled_list h hstep) trivial
  | inspect order => exact settled_inspect_iff h order
  | answer i =>
    refine iff_of_true ?_ trivial
    simp only [Server.next]
    split
    · exact h
    · rename_i u hu
      exact settled_answer h hu
  | lose i => exact iff_of_true (settled_lose h i) trivial
  | call c => exact settled_call_iff h hstep.2
  | assemble => exact iff_of_true (settled_assemble h) trivial
  | publish bookOrder gangOrder => exact iff_of_true (settled_publish h hstep.1 hstep.2) trivial
  | create cr finalizers => exact iff_of_true (settled_write h (.inr rfl)) trivial
  | edit cr finalizers =>
    refine iff_of_true ?_ trivial
    simp only [Server.next]
    split
    · exact h
    · rename_i a ha
      obtain ⟨hmem, hid⟩ := mem_api_of_get ha
      exact settled_write h (.inl ⟨a, hmem, Prod.ext hid rfl⟩)
  | delete id =>
    refine iff_of_true ?_ trivial
    simp only [Server.next]
    split
    · exact h
    · rename_i a ha
      exact settled_write h (.inl ⟨a, (mem_api_of_get ha).1, rfl⟩)
  | deliver id => exact iff_of_true (settled_deliver h id) trivial

lemma holds_of_dropped {e e' : Engine V} {leaf : String} (h : Dropped e e' leaf) :
    Holds e leaf := by
  rcases h with ⟨uid, rec, hrec, hleaf, -⟩ | ⟨key, gb, hgb, hleaf, -⟩
  · exact .inl ⟨uid, rec, hrec, hleaf⟩
  · exact .inr ⟨key, gb, hgb, hleaf⟩

lemma Settled.safe (h : Settled s) (step : Step V) : Safe s step := by
  cases step with
  | publish bookOrder gangOrder =>
    intro leaf hdropped o ho hid hdrained
    refine h.empty leaf (holds_of_dropped hdropped) ⟨o, ?_, hid, .inl hdrained⟩
    simp [Server.objects, ho]
  | _ => trivial

end Steps

/-- The loop has sent nothing yet and let no Queue go. -/
structure Starts (s : Server V) : Prop where
  versions : ∀ o ∈ s.objects, o.uid ≤ s.revision ∧ o.resourceVersion ≤ s.revision
  updates : s.updates = []
  drained : s.drained = ∅

lemma Starts.settled {s : Server V} (h : Starts s) : Settled s := by
  refine ⟨⟨h.versions, by simp [h.updates], by simp [h.drained]⟩, ?_⟩
  rintro leaf - ⟨o, -, -, hd | ⟨u, hu, -⟩⟩
  · simp [h.drained] at hd
  · simp [h.updates] at hu

/-- In every run of the loop, the clients, the informer, the engine's calls and the rebuilds
that meets the condition at every step, no rebuild drops anything because its Queue was
drained and deleted. From each state of such a run a step that does not meet it leaves
something on a Queue that is on its way out. -/
theorem drained_queues_hold_nothing {start s : Server V} {steps : List (Step V)}
    (hstart : Starts start) (hrun : Run (server.restrict Closed) start steps s) (step : Step V)
    (hstep : s.Enabled step) : Safe s step ∧ (Settled (s.next step) ↔ Closed s step) := by
  have hsettled : Settled s := hrun.invariant (I := Settled) hstart.settled
    fun _ _ h he => (settled_next_iff h he.1).mpr he.2
  exact ⟨hsettled.safe step, settled_next_iff hsettled hstep⟩

def guardedQueue (name : String) (uid : ℕ) : QueueObject ℤ :=
  ⟨bareQueue "team" name 10 [], uid, uid, [drainFinalizer], false, ⟨"", none, false, false⟩⟩

def twoQueues : Server ℤ where
  engine := newEngine 60
  quotas := []
  api := [guardedQueue "jobs" 1, guardedQueue "spare" 2]
  revision := 2
  store := [guardedQueue "jobs" 1, guardedQueue "spare" 2]
  pass := .idle
  assembled := none
  updates := []
  built := []
  drained := ∅

lemma twoQueues_starts : Starts twoQueues := ⟨by decide +kernel, rfl, rfl⟩

def deletedJobs : QueueObject ℤ :=
  { guardedQueue "jobs" 1 with resourceVersion := 3, deleting := true }

def pathOrder : List String := ["root", "root.team", "root.team.jobs", "root.team.spare"]

def reserveOn (leaf : String) : Step ℤ := .call (.reserve "pod" leaf (Finmap.singleton "cpu" 2))

def deleteJobs : List (Step ℤ) :=
  [.assemble, .publish [] [], .delete ("team", "jobs"), .deliver ("team", "jobs"), .begin,
    .list [deletedJobs, guardedQueue "spare" 2]]

def drainRun (leaf : String) : List (Step ℤ) :=
  deleteJobs ++ [.inspect pathOrder, reserveOn leaf, .answer 0,
    .deliver ("team", "jobs"), .assemble]

def overtakenRun (leaf : String) : List (Step ℤ) :=
  deleteJobs ++ [.assemble, .publish [] [], reserveOn leaf, .inspect pathOrder, .answer 0,
    .deliver ("team", "jobs"), .assemble]

lemma swap_not_safe {s : Server ℤ}
    (hrec : (s.engine.book.lookup "pod").map BookRec.leaf = some "root.team.jobs")
    (hgone : "pod" ∉ (s.next (.publish ["pod"] [])).engine.book)
    (hany : s.built.any (fun o =>
      decide (o.ident = ident "root.team.jobs" ∧ o.ref ∈ s.drained)) = true) :
    ¬ Safe s (.publish ["pod"] []) := by
  intro hsafe
  obtain ⟨rec, hlook, hleaf⟩ := Option.map_eq_some_iff.mp hrec
  obtain ⟨o, ho, hdrained⟩ := List.any_eq_true.mp hany
  obtain ⟨hid, href⟩ := of_decide_eq_true hdrained
  exact hsafe "root.team.jobs" (.inl ⟨"pod", rec, hlook, hleaf, hgone⟩) o ho hid href

/-- The pod is reserved on the queue that was found empty: the rebuild drops its booking. -/
theorem booking_lost_in_drain :
    (∃ s, Run server twoQueues (drainRun "root.team.jobs") s ∧ s.Enabled (.publish ["pod"] []) ∧
      ¬ Safe s (.publish ["pod"] [])) ∧
    ∃ s, Run server twoQueues (overtakenRun "root.team.jobs") s ∧ s.Enabled (.publish ["pod"] []) ∧
      ¬ Safe s (.publish ["pod"] []) := by
  have hdrain : server.Legal twoQueues (drainRun "root.team.jobs") :=
    ⟨trivial, by constructor <;> decide +kernel, trivial, trivial, trivial,
      by unfold server Server.Enabled; decide +kernel,
      by unfold server Server.Enabled; decide +kernel, ⟨trivial, rfl⟩, trivial, trivial, trivial,
      trivial⟩
  have hovertaken : server.Legal twoQueues (overtakenRun "root.team.jobs") :=
    ⟨trivial, by constructor <;> decide +kernel, trivial, trivial, trivial,
      by unfold server Server.Enabled; decide +kernel,
      trivial, by constructor <;> decide +kernel, ⟨trivial, rfl⟩,
      by unfold server Server.Enabled; decide +kernel, trivial, trivial, trivial, trivial⟩
  refine ⟨⟨_, hdrain.run, by constructor <;> decide +kernel, swap_not_safe ?_ ?_ ?_⟩,
    ⟨_, hovertaken.run, by constructor <;> decide +kernel, swap_not_safe ?_ ?_ ?_⟩⟩ <;>
      decide +kernel

instance (s : Server V) (id : String × String) : Decidable (Closing s id) := by
  unfold Closing Doomed; infer_instance

theorem booking_beside_drain_kept :
    ∃ s, Run (server.restrict Closed) twoQueues (drainRun "root.team.spare") s ∧
      s.drained = {(("team", "jobs"), 1)} ∧ "pod" ∈ s.engine.book ∧
      Safe s (.publish ["pod"] []) := by
  have hlegal : (server.restrict Closed).Legal twoQueues (drainRun "root.team.spare") := by
    refine ⟨⟨trivial, trivial⟩, ⟨by constructor <;> decide +kernel, trivial⟩, ⟨trivial, trivial⟩,
      ⟨trivial, trivial⟩, ⟨trivial, trivial⟩,
        ⟨by unfold server Server.Enabled; decide +kernel, trivial⟩,
      ⟨by unfold server Server.Enabled; decide +kernel, ?_⟩, ⟨⟨trivial, rfl⟩, ?_⟩,
      ⟨trivial, trivial⟩, ⟨trivial, trivial⟩, ⟨trivial, trivial⟩, trivial⟩
    · intro p _ _ _ _ _ leaf _ hl
      rcases hl with ⟨uid, rec, hrec, -⟩ | ⟨key, gb, hgb, -⟩
      · cases hrec
      · cases hgb
    · rintro leaf ⟨rfl, -⟩
      decide +kernel
  refine ⟨_, hlegal.run, by decide +kernel, by decide +kernel, ?_⟩
  exact (drained_queues_hold_nothing twoQueues_starts hlegal.run (.publish ["pod"] [])
    (by constructor <;> decide +kernel)).1

end AdScheduler.QueueDrain
