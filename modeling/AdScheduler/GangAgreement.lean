import AdScheduler.LedgerTree

/-! Agreement of the gang ledger with the gangs held in the live tree. A rebuild
replays the gangs through the tree's admission and ignores the outcome, so the two
agree after it exactly when every carried gang fits in the new tree. -/
namespace AdScheduler.GangAgreement
open KeyedMap Resources QueueTree TreeShape Manager Conservation EngineCore LedgerTree Runs

section Ledger
variable {V : Type*} [CommRing V] [LinearOrder V]

def holdOf (gb : GangBooking V) : GangHold V := ⟨gb.leaf, gb.minRes⟩

/-- Ledger and tree name the same gangs, on the same leaves with the same resources.
Without a tree the ledger is empty. -/
def GangsAgree (e : Engine V) : Prop :=
  ∀ g, (e.tree.bind fun t => t.gangs.lookup g) = (e.gangBook.lookup g).map holdOf

/-- Every recorded gang passed the argument checks of the admission. -/
def GangsValid (e : Engine V) : Prop :=
  ∀ g gb, e.gangBook.lookup g = some gb → g ≠ "" ∧ strictlyGtZero gb.minRes = true

lemma gangsAgree_of_tree {e : Engine V} {t : QueueManager V} (ht : e.tree = some t) :
    GangsAgree e ↔ ∀ g, t.gangs.lookup g = (e.gangBook.lookup g).map holdOf := by
  rw [GangsAgree, ht]
  rfl

def skeleton (t : QueueManager V) : Index V × Map String (GangHold V) := (t.index, t.gangs)

/-- A step that touches neither the gang ledger nor the queues and gangs of the tree. -/
structure SameGangs (e e' : Engine V) : Prop where
  gangBook : e'.gangBook = e.gangBook
  tree : e'.tree.map skeleton = e.tree.map skeleton

lemma SameGangs.refl (e : Engine V) : SameGangs e e := ⟨rfl, rfl⟩

lemma SameGangs.trans {e e' e'' : Engine V} (h : SameGangs e e') (h' : SameGangs e' e'') :
    SameGangs e e'' :=
  ⟨h'.gangBook.trans h.gangBook, h'.tree.trans h.tree⟩

lemma SameGangs.agree {e e' : Engine V} (hs : SameGangs e e') (h : GangsAgree e) :
    GangsAgree e' := by
  have hbind : ∀ (x : Engine V) g, (x.tree.bind fun t => t.gangs.lookup g) =
      (x.tree.map skeleton).bind fun sk => sk.2.lookup g := by
    intro x g
    cases x.tree <;> rfl
  intro g
  rw [hbind, hs.tree, ← hbind, hs.gangBook]
  exact h g

lemma mutate_skeleton (t : QueueManager V) (p : String) (fn : Usage V → Usage V) :
    skeleton (t.mutate p fn).1 = skeleton t := by
  rw [skeleton, mutate_index, mutate_gangs]
  rfl

lemma releaseBookLocked_skeleton (t : QueueManager V) (rec : BookRec V) :
    skeleton (releaseBookLocked t rec) = skeleton t := by
  unfold releaseBookLocked
  cases rec.state
  · exact mutate_skeleton _ _ _
  · exact mutate_skeleton _ _ _

lemma map_skeleton (tree : Option (QueueManager V)) {f : QueueManager V → QueueManager V}
    (hf : ∀ t, skeleton (f t) = skeleton t) :
    (tree.map f).map skeleton = tree.map skeleton := by
  cases tree with
  | none => rfl
  | some t => exact congrArg some (hf t)

lemma sameGangs_reserve (e : Engine V) (uid leaf : String) (req : Resource V) :
    SameGangs e (e.reserve uid leaf req) := by
  unfold Engine.reserve
  split_ifs
  · exact .refl e
  cases ht : e.tree with
  | none => exact .refl e
  | some t =>
    have hg := mutate_skeleton t leaf (Usage.reserve req)
    dsimp only
    rw [QueueManager.reserve]
    generalize t.mutate leaf (Usage.reserve req) = result at hg ⊢
    obtain ⟨t', _ | _⟩ := result
    · exact ⟨rfl, by rw [ht]; exact congrArg some hg⟩
    · exact ⟨rfl, by rw [ht]; exact congrArg some hg⟩

lemma sameGangs_unreserve (e : Engine V) (uid : String) : SameGangs e (e.unreserve uid) := by
  unfold Engine.unreserve
  repeat' split
  · exact .refl e
  · exact .refl e
  · exact ⟨rfl, map_skeleton _ fun t => mutate_skeleton _ _ _⟩

lemma sameGangs_commit (e : Engine V) (uid : String) : SameGangs e (e.commit uid) := by
  unfold Engine.commit
  repeat' split
  · exact .refl e
  · exact .refl e
  · exact ⟨rfl, map_skeleton _ fun t => mutate_skeleton _ _ _⟩

lemma sameGangs_observeBound (e : Engine V) (uid leaf : String) (req : Resource V) :
    SameGangs e (e.observeBound uid leaf req) := by
  unfold Engine.observeBound
  cases ht : e.tree with
  | none => exact .refl e
  | some t =>
    dsimp only
    repeat' split
    · exact ⟨rfl, by rw [ht]; exact congrArg some (mutate_skeleton _ _ _)⟩
    · exact .refl e
    · exact ⟨rfl, by rw [ht]; exact congrArg some (mutate_skeleton _ _ _)⟩
    · exact .refl e

lemma sameGangs_observeDeleted (e : Engine V) (uid : String) :
    SameGangs e (e.observeDeleted uid) := by
  unfold Engine.observeDeleted
  split
  · exact .refl e
  · exact ⟨rfl, map_skeleton _ fun t => releaseBookLocked_skeleton t _⟩

lemma sameGangs_gcBookings (e : Engine V) (live : Finset String) (order : List String) :
    SameGangs e (e.gcBookings live order).1 := by
  refine gcBookings_invariant (I := SameGangs e) (.refl e) (fun e' uid rec h => ?_) live order
  exact h.trans ⟨rfl, map_skeleton _ fun t => releaseBookLocked_skeleton t _⟩

lemma gangsAgree_admitStep {e e' : Engine V} {leaf key : String} {minRes : Resource V}
    (h : GangsAgree e) (hstep : AdmitStep e e' leaf key minRes) : GangsAgree e' := by
  rcases hstep with ⟨tree, gangBook⟩ | ⟨t, tree, _, _, tree', gangBook'⟩ |
      ⟨t, tree, new, held, _, _⟩
  · exact SameGangs.agree ⟨gangBook, by rw [tree]⟩ h
  · rw [gangsAgree_of_tree tree] at h
    rw [gangsAgree_of_tree tree']
    intro g
    rw [gangBook', admitted, lookup_insert_ite, lookup_insert_ite]
    split_ifs
    · rfl
    · exact h g
  · -- a gang of the tree is in the ledger, so it is never adopted
    have hnone := (gangsAgree_of_tree tree).mp h key
    rw [new] at hnone
    exact absurd held (Finmap.lookup_eq_none.mp hnone)

lemma gangsAgree_releaseGang {e : Engine V} (h : GangsAgree e) (key : String) :
    GangsAgree { e with
      tree := e.tree.map fun t => t.releaseGang key
      gangBook := e.gangBook.erase key } := by
  intro g
  have hg := h g
  cases ht : e.tree with
  | none =>
    rw [ht] at hg
    simp only [Option.map_none, Option.bind_none, lookup_erase_ite] at hg ⊢
    split_ifs
    · rfl
    · exact hg
  | some t =>
    rw [ht] at hg
    simp only [Option.map_some, Option.bind_some, releaseGang_gangs, lookup_erase_ite] at hg ⊢
    split_ifs
    · rfl
    · exact hg

lemma seedGang_cases (acc : QueueManager V × Map String (GangBooking V))
    (entry : String × GangBooking V) :
    (entry.2.leaf ∈ acc.1.index ∧ Admits acc.1 entry.2.leaf entry.1 entry.2.minRes ∧
      seedGang acc entry = (admitted acc.1 entry.2.leaf entry.1 entry.2.minRes, acc.2)) ∨
    (entry.2.leaf ∈ acc.1.index ∧ ¬ Admits acc.1 entry.2.leaf entry.1 entry.2.minRes ∧
      seedGang acc entry = acc) ∨
    (entry.2.leaf ∉ acc.1.index ∧ seedGang acc entry = (acc.1, acc.2.erase entry.1)) := by
  unfold seedGang
  split_ifs with hin
  · rcases admitGang_cases acc.1 entry.2.leaf entry.1 entry.2.minRes with ⟨ha, he⟩ | ⟨ha, he, _⟩
    · exact .inl ⟨hin, ha, by rw [he]⟩
    · exact .inr (.inl ⟨hin, ha, by rw [he]⟩)
  · exact .inr (.inr ⟨hin, rfl⟩)

lemma seedGang_index (acc : QueueManager V × Map String (GangBooking V))
    (entry : String × GangBooking V) : (seedGang acc entry).1.index = acc.1.index := by
  rcases seedGang_cases acc entry with ⟨_, _, he⟩ | ⟨_, _, he⟩ | ⟨_, he⟩
  · rw [he]
    rfl
  · rw [he]
  · rw [he]

lemma seedGang_gangs (acc : QueueManager V × Map String (GangBooking V))
    (entry : String × GangBooking V) (g : String) (x : GangHold V) :
    ((seedGang acc entry).1.gangs.lookup g = some x →
      acc.1.gangs.lookup g = some x ∨
        entry.2.leaf ∈ acc.1.index ∧ g = entry.1 ∧ x = holdOf entry.2) ∧
    (acc.1.gangs.lookup g = some x → (seedGang acc entry).1.gangs.lookup g = some x) := by
  rcases seedGang_cases acc entry with ⟨hin, ha, he⟩ | ⟨_, _, he⟩ | ⟨_, he⟩
  · rw [he, admitted, lookup_insert_ite]
    split_ifs with hg
    · refine ⟨fun hx => .inr ⟨hin, hg, (Option.some.inj hx).symm⟩, fun hx => ?_⟩
      rw [hg] at hx
      exact absurd (Finmap.mem_of_lookup_eq_some hx) ha.fresh
    · exact ⟨.inl, id⟩
  · rw [he]
    exact ⟨.inl, id⟩
  · rw [he]
    exact ⟨.inl, id⟩

lemma seedGangs_spec (l : List (String × GangBooking V))
    (acc : QueueManager V × Map String (GangBooking V)) :
    (l.foldl seedGang acc).1.index = acc.1.index ∧
    (∀ g x, acc.1.gangs.lookup g = some x → (l.foldl seedGang acc).1.gangs.lookup g = some x) ∧
    (∀ g x, (l.foldl seedGang acc).1.gangs.lookup g = some x → acc.1.gangs.lookup g = some x ∨
      ∃ gb, (g, gb) ∈ l ∧ gb.leaf ∈ acc.1.index ∧ x = holdOf gb) ∧
    (l.foldl seedGang acc).2 = sift (fun _ gb => decide (gb.leaf ∈ acc.1.index)) l acc.2 := by
  induction l generalizing acc with
  | nil => exact ⟨rfl, fun _ _ => id, fun _ _ => .inl, rfl⟩
  | cons entry l ih =>
    have hix := seedGang_index acc entry
    obtain ⟨hix', hkeep, hfrom, hbook⟩ := ih (seedGang acc entry)
    rw [hix] at hix' hbook
    simp only [hix] at hfrom
    refine ⟨hix', fun g x hx => ?_, fun g x hx => ?_, ?_⟩
    · exact hkeep g x ((seedGang_gangs acc entry g x).2 hx)
    · rcases hfrom g x hx with hold | ⟨gb, hgb, hin, he⟩
      · rcases (seedGang_gangs acc entry g x).1 hold with hold | ⟨hin, rfl, he⟩
        · exact .inl hold
        · exact .inr ⟨entry.2, List.mem_cons_self, hin, he⟩
      · exact .inr ⟨gb, List.mem_cons_of_mem _ hgb, hin, he⟩
    · rw [List.foldl_cons, hbook]
      simp only [sift, List.foldl_cons, decide_eq_true_eq]
      congr 1
      rcases seedGang_cases acc entry with ⟨hin, _, he⟩ | ⟨hin, _, he⟩ | ⟨hin, he⟩
      · rw [he, if_pos hin]
      · rw [he, if_pos hin]
      · rw [he, if_neg hin]

lemma rebuild_gangBook (e : Engine V) (newTree : QueueManager V) (bookOrder : List String)
    {gangOrder : List String} (hgo : Visits gangOrder e.gangBook) (g : String) :
    (e.rebuild newTree bookOrder gangOrder).gangBook.lookup g =
      (e.gangBook.lookup g).filter fun gb => decide (gb.leaf ∈ newTree.index) := by
  have hspec := seedGangs_spec (entries gangOrder e.gangBook)
    (((entries bookOrder e.book).foldl seedBooking (newTree, e.book)).1, e.gangBook)
  have hix := (seedBookings_spec (entries bookOrder e.book) (newTree, e.book)).1
  have hbook := hspec.2.2.2
  simp only [hix] at hbook
  exact (congrArg (Finmap.lookup g) hbook).trans (lookup_sift hgo _ g)

/-- Every gang of the tree is in the ledger; the converse is what a rebuild can break. -/
def GangsRecorded (e : Engine V) : Prop :=
  ∀ t, e.tree = some t → ∀ g, g ∈ t.gangs → g ∈ e.gangBook

lemma gangsRecorded_same {e e' : Engine V} (h : GangsRecorded e) (hs : SameGangs e e') :
    GangsRecorded e' := by
  intro t' ht' g hg
  have hskel := hs.tree
  rw [ht'] at hskel
  obtain ⟨t, ht, he⟩ := Option.map_eq_some_iff.mp hskel.symm
  have hgangs : t.gangs = t'.gangs := congrArg Prod.snd he
  rw [hs.gangBook]
  exact h t ht g (hgangs ▸ hg)

lemma gangsRecorded_admitStep {e e' : Engine V} {leaf key : String} {minRes : Resource V}
    (h : GangsRecorded e) (hstep : AdmitStep e e' leaf key minRes) : GangsRecorded e' := by
  intro t' ht' g hg
  rcases hstep with ⟨tree, gangBook⟩ | ⟨t, tree, _, _, tree', gangBook'⟩ |
      ⟨t, tree, _, _, tree', gangBook'⟩
  · rw [gangBook]
    exact h t' (tree ▸ ht') g hg
  · rw [tree'] at ht'
    cases ht'
    rw [gangBook', Finmap.mem_insert]
    exact (Finmap.mem_insert.mp hg).imp id (h t tree g)
  · rw [tree'] at ht'
    cases ht'
    rw [gangBook', Finmap.mem_insert]
    exact .inr (h _ tree g hg)

lemma gangsRecorded_released {e : Engine V} (h : GangsRecorded e) (key : String) :
    GangsRecorded { e with
      tree := e.tree.map fun t => t.releaseGang key
      gangBook := e.gangBook.erase key } := by
  intro t' ht' g hg
  obtain ⟨t, ht, rfl⟩ := Option.map_eq_some_iff.mp ht'
  rw [releaseGang_gangs, Finmap.mem_erase] at hg
  exact Finmap.mem_erase.mpr ⟨hg.1, h t ht g hg.2⟩

lemma gangsRecorded_rebuild (e : Engine V) {newTree : QueueManager V} (hfresh : Fresh newTree)
    (bookOrder : List String) {gangOrder : List String} (hgo : Visits gangOrder e.gangBook) :
    GangsRecorded (e.rebuild newTree bookOrder gangOrder) := by
  rintro t ⟨⟩ g hg
  obtain ⟨x, hx⟩ := Finmap.mem_iff.mp hg
  obtain ⟨hix, hgs, -, -⟩ := seedBookings_spec (entries bookOrder e.book) (newTree, e.book)
  rcases (seedGangs_spec _ _).2.2.1 g x hx with hold | ⟨gb, hgb, hin, _⟩
  · rw [hgs, hfresh.gangs] at hold
    cases hold
  · rw [hix] at hin
    have hkept : (e.rebuild newTree bookOrder gangOrder).gangBook.lookup g = some gb := by
      rw [rebuild_gangBook e newTree bookOrder hgo, lookup_of_mem_entries hgb]
      exact if_pos (decide_eq_true hin)
    exact Finmap.mem_of_lookup_eq_some hkept

/-- The rule for a property of the gangs in ledger and tree: what survives the booking calls,
an admission, a release and the rebuild at hand survives every call. -/
lemma gangs_call {I : Engine V → Prop} {e : Engine V} {c : Call V} (h : I e)
    (hsame : ∀ {e e'}, I e → SameGangs e e' → I e')
    (hadmission : ∀ {e e' leaf key minRes}, I e → AdmitStep e e' leaf key minRes → I e')
    (hreleased : ∀ {e}, I e → ∀ key, I { e with
      tree := e.tree.map fun t => t.releaseGang key
      gangBook := e.gangBook.erase key })
    (hrebuild : ∀ newTree bookOrder gangOrder, c = .rebuild newTree bookOrder gangOrder →
      I (e.rebuild newTree bookOrder gangOrder)) : I (e.call c) := by
  cases c with
  | reserve uid leaf req => exact hsame h (sameGangs_reserve e uid leaf req)
  | unreserve uid => exact hsame h (sameGangs_unreserve e uid)
  | commit uid => exact hsame h (sameGangs_commit e uid)
  | observeBound uid leaf req => exact hsame h (sameGangs_observeBound e uid leaf req)
  | observeDeleted uid => exact hsame h (sameGangs_observeDeleted e uid)
  | gcBookings live order => exact hsame h (sameGangs_gcBookings e live order)
  | admitGang leaf key minRes => exact hadmission h (admitGang_step e leaf key minRes)
  | admitGangWW leaf key minRes wwkey now =>
    exact hadmission h (admitGangWW_step e leaf key minRes wwkey now)
  | releaseGang key =>
    rw [Engine.call, Engine.releaseGang]
    split_ifs
    · exact hreleased h key
    · exact h
  | gcGangs live order => exact gcGangs_invariant h (fun _ key he => hreleased he key) live order
  | rebuild newTree bookOrder gangOrder => exact hrebuild newTree bookOrder gangOrder rfl

lemma gangsRecorded_call {e : Engine V} (h : GangsRecorded e) (c : Call V) (hc : Callable e c) :
    GangsRecorded (e.call c) := by
  refine gangs_call h gangsRecorded_same gangsRecorded_admitStep gangsRecorded_released ?_
  rintro newTree bookOrder gangOrder rfl
  obtain ⟨⟨spec, hspec⟩, _, hgo⟩ := hc
  exact gangsRecorded_rebuild e (newManager_fresh hspec) bookOrder hgo

lemma gangsRecorded_run {timeout : ℤ} {calls : List (Call V)} {e : Engine V}
    (h : Run machine (newEngine timeout) calls e) : GangsRecorded e :=
  h.invariant (fun t ht => by cases ht) fun _ c hi hc => gangsRecorded_call hi c hc

lemma gangsValid_admitStep {e e' : Engine V} {leaf key : String} {minRes : Resource V}
    (hr : GangsRecorded e) (h : GangsValid e) (hstep : AdmitStep e e' leaf key minRes) :
    GangsValid e' := by
  rcases hstep with ⟨_, gangBook⟩ | ⟨t, _, _, admits, _, gangBook'⟩ | ⟨t, tree, new, held, _, _⟩
  · rw [GangsValid, gangBook]
    exact h
  · intro g gb hgb
    rw [gangBook'] at hgb
    rcases lookup_insert_cases hgb with ⟨rfl, rfl⟩ | ⟨-, hgb⟩
    · exact ⟨admits.id_ne, admits.positive⟩
    · exact h g gb hgb
  · exact absurd (hr t tree key held) (Finmap.lookup_eq_none.mp new)

lemma gangsValid_released {e : Engine V} (h : GangsValid e) (key : String)
    (tree : Option (QueueManager V)) :
    GangsValid { e with tree := tree, gangBook := e.gangBook.erase key } := by
  intro g gb hgb
  exact h g gb (lookup_of_erase hgb)

lemma gangsValid_rebuild {e : Engine V} (h : GangsValid e) (newTree : QueueManager V)
    (bookOrder : List String) {gangOrder : List String} (hgo : Visits gangOrder e.gangBook) :
    GangsValid (e.rebuild newTree bookOrder gangOrder) := by
  intro g gb hgb
  rw [rebuild_gangBook e newTree bookOrder hgo, Option.filter_eq_some_iff] at hgb
  exact h g gb hgb.1

lemma gangsValid_run {timeout : ℤ} {calls : List (Call V)} {e : Engine V}
    (h : Run machine (newEngine timeout) calls e) : GangsValid e := by
  have hinv : GangsRecorded e ∧ GangsValid e := by
    refine h.invariant (I := fun e => GangsRecorded e ∧ GangsValid e) ⟨?_, ?_⟩ fun x c hx hc => ?_
    · intro t ht
      cases ht
    · intro g gb hgb
      cases hgb
    refine gangs_call (I := fun e => GangsRecorded e ∧ GangsValid e) hx ?_ ?_ ?_ ?_
    · intro e e' he hs
      refine ⟨gangsRecorded_same he.1 hs, ?_⟩
      rw [GangsValid, hs.gangBook]
      exact he.2
    · exact fun he hstep =>
        ⟨gangsRecorded_admitStep he.1 hstep, gangsValid_admitStep he.1 he.2 hstep⟩
    · exact fun he key => ⟨gangsRecorded_released he.1 key, gangsValid_released he.2 key _⟩
    · rintro newTree bookOrder gangOrder rfl
      have hcall : Callable x (.rebuild newTree bookOrder gangOrder) := hc
      exact ⟨gangsRecorded_call hx.1 _ hcall, gangsValid_rebuild hx.2 newTree bookOrder hcall.2.2⟩
  exact hinv.2

end Ledger

section Rebuild

/-- Every gang that the ledger carries into a new tree fits there: its queue is still a
leaf, the gang alone is within every maximum on the way to the root, and wherever the
gang names a bounded dimension, all pods and all gangs carried along stay within the
maximum together. Gangs whose queue is gone are not carried. -/
def Carries (e : Engine ℤ) (newTree : QueueManager ℤ) : Prop :=
  ∀ g gb, e.gangBook.lookup g = some gb → gb.leaf ∈ newTree.index →
    newTree.isLeafPath gb.leaf = true ∧ newTree.fitsMax gb.leaf gb.minRes = true ∧
    ∀ n ∈ pathUp newTree.index gb.leaf, ∀ d ∈ gb.minRes.keys, d ∈ n.max.keys →
      podDemand newTree.index e.book n.path d +
        total e.gangBook (fun _ b =>
          if Charges newTree.index b.leaf n.path then get b.minRes d else 0) ≤ get n.max d

instance (e : Engine ℤ) (newTree : QueueManager ℤ) : Decidable (Carries e newTree) :=
  decidable_of_iff (∀ g ∈ e.gangBook.keys, ∀ gb ∈ e.gangBook.lookup g,
    gb.leaf ∈ newTree.index →
      newTree.isLeafPath gb.leaf = true ∧ newTree.fitsMax gb.leaf gb.minRes = true ∧
      ∀ n ∈ pathUp newTree.index gb.leaf, ∀ d ∈ gb.minRes.keys, d ∈ n.max.keys →
        podDemand newTree.index e.book n.path d +
          total e.gangBook (fun _ b =>
            if Charges newTree.index b.leaf n.path then get b.minRes d else 0) ≤ get n.max d)
    ⟨fun h g gb hgb => h g (Finmap.mem_keys.mpr (Finmap.mem_of_lookup_eq_some hgb)) gb hgb,
      fun h g _ gb hgb => h g gb hgb⟩

def gangShare (ix : Index ℤ) (n d : String) (gb : GangBooking ℤ) : ℤ :=
  if Charges ix gb.leaf n then get gb.minRes d else 0

lemma gangShare_nonneg {gb : GangBooking ℤ} (h : strictlyGtZero gb.minRes = true) (ix : Index ℤ)
    (n d : String) : 0 ≤ gangShare ix n d gb := by
  rw [gangShare]
  split_ifs
  · exact get_nonneg_of_strictlyGtZero h d
  · exact le_rfl

lemma admits_of_room {t : QueueManager ℤ} {g : String} {gb : GangBooking ℤ}
    {l : List (String × GangBooking ℤ)} (hid : g ≠ "") (hpos : strictlyGtZero gb.minRes = true)
    (hfresh : g ∉ t.gangs) (hleaf : t.isLeafPath gb.leaf = true)
    (hmax : t.fitsMax gb.leaf gb.minRes = true)
    (hl : ∀ kv ∈ l, strictlyGtZero kv.2.minRes = true)
    (hroom : ∀ n ∈ pathUp t.index gb.leaf, ∀ d ∈ gb.minRes.keys, d ∈ n.max.keys →
      get (t.used n.path) d + (gangShare t.index n.path d gb +
        (l.map fun kv => gangShare t.index n.path d kv.2).sum) ≤ get n.max d) :
    Admits t gb.leaf g gb.minRes := by
  refine ⟨hid, hpos, hfresh, hleaf, hmax, ?_⟩
  rw [QueueManager.fits, List.all_eq_true]
  intro n hn
  rw [decide_eq_true_eq]
  intro d hd hbound
  have hsum := hroom n hn d hd hbound
  have hrest : 0 ≤ (l.map fun kv => gangShare t.index n.path d kv.2).sum := by
    apply List.sum_nonneg
    intro v hv
    obtain ⟨kv, hkv, rfl⟩ := List.mem_map.mp hv
    exact gangShare_nonneg (hl kv hkv) _ _ _
  have hself : gangShare t.index n.path d gb = get gb.minRes d :=
    if_pos ⟨hleaf, List.mem_map_of_mem hn⟩
  omega

lemma seedGang_round {newTree : QueueManager ℤ} {acc : QueueManager ℤ × Map String (GangBooking ℤ)}
    {entry : String × GangBooking ℤ} {l : List (String × GangBooking ℤ)}
    (hix : acc.1.index = newTree.index) (hfresh : entry.1 ∉ acc.1.gangs)
    (hvalid : ∀ kv ∈ entry :: l, kv.1 ≠ "" ∧ strictlyGtZero kv.2.minRes = true)
    (hleaf : entry.2.leaf ∈ newTree.index → newTree.isLeafPath entry.2.leaf = true ∧
      newTree.fitsMax entry.2.leaf entry.2.minRes = true)
    (hroom : entry.2.leaf ∈ newTree.index → ∀ n ∈ pathUp newTree.index entry.2.leaf,
      ∀ d ∈ entry.2.minRes.keys, d ∈ n.max.keys → get (acc.1.used n.path) d +
        ((entry :: l).map fun kv => gangShare newTree.index n.path d kv.2).sum ≤ get n.max d) :
    (entry.2.leaf ∈ newTree.index → entry.1 ∈ (seedGang acc entry).1.gangs) ∧
    ∀ n d, get ((seedGang acc entry).1.used n) d =
      get (acc.1.used n) d + gangShare newTree.index n d entry.2 := by
  rw [← hix] at hleaf hroom ⊢
  rcases seedGang_cases acc entry with ⟨_, ha, he⟩ | ⟨hin, hna, _⟩ | ⟨hin, he⟩
  · rw [he]
    exact ⟨fun _ => Finmap.mem_insert.mpr (.inl rfl), admitted_used ha.leaf_ok⟩
  · obtain ⟨hl, hm⟩ := hleaf hin
    rw [← isLeafPath_congr hix] at hl
    rw [← fitsMax_congr hix] at hm
    have hself := hvalid entry List.mem_cons_self
    exact absurd (admits_of_room hself.1 hself.2 hfresh hl hm
      (fun kv hkv => (hvalid kv (List.mem_cons_of_mem _ hkv)).2) (hroom hin)) hna
  · rw [he]
    refine ⟨fun h => absurd h hin, fun n d => ?_⟩
    rw [gangShare, if_neg (not_charges_of_unknown hin n), add_zero]

lemma seedGangs_admit_all {newTree : QueueManager ℤ} (l : List (String × GangBooking ℤ))
    {acc : QueueManager ℤ × Map String (GangBooking ℤ)} (hix : acc.1.index = newTree.index)
    (hnodup : (l.map Prod.fst).Nodup) (hfresh : ∀ kv ∈ l, kv.1 ∉ acc.1.gangs)
    (hvalid : ∀ kv ∈ l, kv.1 ≠ "" ∧ strictlyGtZero kv.2.minRes = true)
    (hleaf : ∀ kv ∈ l, kv.2.leaf ∈ newTree.index →
      newTree.isLeafPath kv.2.leaf = true ∧ newTree.fitsMax kv.2.leaf kv.2.minRes = true)
    (hroom : ∀ kv ∈ l, kv.2.leaf ∈ newTree.index → ∀ n ∈ pathUp newTree.index kv.2.leaf,
      ∀ d ∈ kv.2.minRes.keys, d ∈ n.max.keys → get (acc.1.used n.path) d +
        (l.map fun kv => gangShare newTree.index n.path d kv.2).sum ≤ get n.max d) :
    ∀ kv ∈ l, kv.2.leaf ∈ newTree.index → kv.1 ∈ (l.foldl seedGang acc).1.gangs := by
  induction l generalizing acc with
  | nil => exact fun kv hkv => absurd hkv List.not_mem_nil
  | cons entry l ih =>
    rw [List.map_cons, List.nodup_cons] at hnodup
    have hmem : ∀ kv ∈ l, kv ∈ entry :: l := fun kv => List.mem_cons_of_mem entry
    obtain ⟨hhead, hused⟩ := seedGang_round hix (hfresh entry List.mem_cons_self) hvalid
      (hleaf entry List.mem_cons_self) (hroom entry List.mem_cons_self)
    have hfresh' : ∀ kv ∈ l, kv.1 ∉ (seedGang acc entry).1.gangs := by
      intro kv hkv hin
      obtain ⟨x, hx⟩ := Finmap.mem_iff.mp hin
      rcases (seedGang_gangs acc entry kv.1 x).1 hx with hold | ⟨_, he, _⟩
      · exact hfresh kv (hmem kv hkv) (Finmap.mem_of_lookup_eq_some hold)
      · exact hnodup.1 (he ▸ List.mem_map_of_mem hkv)
    have htail := ih ((seedGang_index acc entry).trans hix) hnodup.2 hfresh'
      (fun kv hkv => hvalid kv (hmem kv hkv)) (fun kv hkv => hleaf kv (hmem kv hkv))
      (fun kv hkv hin n hn d hd hb => by
        have hr := hroom kv (hmem kv hkv) hin n hn d hd hb
        rw [List.map_cons, List.sum_cons] at hr
        rw [hused]
        omega)
    intro kv hkv hin
    rcases List.mem_cons.mp hkv with rfl | hkv
    · obtain ⟨x, hx⟩ := Finmap.mem_iff.mp (hhead hin)
      exact Finmap.mem_of_lookup_eq_some ((seedGangs_spec l _).2.1 _ x hx)
    · exact htail kv hkv hin

/-- What the gangs of a tree tell about it: each was admitted within the maxima, and no
queue was over its maximum in a dimension of the gang when the last one came in. -/
def Accommodated (t : QueueManager ℤ) : Prop :=
  ∀ g x, t.gangs.lookup g = some x →
    t.isLeafPath x.leaf = true ∧ t.fitsMax x.leaf x.held = true ∧
    ∀ n ∈ pathUp t.index x.leaf, ∀ d ∈ x.held.keys, d ∈ n.max.keys →
      get (t.used n.path) d ≤ get n.max d

lemma used_add_le_of_fits {t : QueueManager ℤ} {leaf p : String} {n : Queue ℤ} {r : Resource ℤ}
    (h : t.fits leaf r = true) (hp : t.index.lookup p = some n) (hup : p ∈ t.up leaf) {d : String}
    (hd : d ∈ r.keys) (hb : d ∈ n.max.keys) : get (t.used p) d + get r d ≤ get n.max d := by
  obtain ⟨n', hn', he⟩ := List.mem_map.mp hup
  have hsame := lookup_of_mem_pathUp t.wf.toShape hn'
  rw [he, hp] at hsame
  cases hsame
  have hall := List.all_eq_true.mp h n hn'
  rw [decide_eq_true_eq, he] at hall
  have := hall d hd hb
  omega

lemma accommodated_admitted {t : QueueManager ℤ} {leaf g : String} {r : Resource ℤ}
    (h : Accommodated t) (ha : Admits t leaf g r) : Accommodated (admitted t leaf g r) := by
  intro g' x hx
  rcases lookup_insert_cases hx with ⟨-, rfl⟩ | ⟨-, hx⟩
  · refine ⟨ha.leaf_ok, ha.within, fun n hn d hd hb => ?_⟩
    have hup : n.path ∈ t.up leaf := List.mem_map_of_mem hn
    rw [admitted_used ha.leaf_ok, if_pos ⟨ha.leaf_ok, hup⟩]
    exact used_add_le_of_fits ha.fits (lookup_of_mem_pathUp t.wf.toShape hn) hup hd hb
  · obtain ⟨hl, hm, hroom⟩ := h g' x hx
    refine ⟨hl, hm, fun n hn d hd hb => ?_⟩
    have hle := hroom n hn d hd hb
    rw [admitted_used ha.leaf_ok]
    split_ifs with hc
    · by_cases hd' : d ∈ r.keys
      · exact used_add_le_of_fits ha.fits (lookup_of_mem_pathUp t.wf.toShape hn) hc.2 hd' hb
      · rw [get_of_notMem hd', add_zero]
        exact hle
    · rw [add_zero]
      exact hle

lemma accommodated_seedGangs (l : List (String × GangBooking ℤ))
    {acc : QueueManager ℤ × Map String (GangBooking ℤ)} (h : Accommodated acc.1) :
    Accommodated (l.foldl seedGang acc).1 := by
  refine List.foldlRecOn (motive := fun acc : QueueManager ℤ × _ => Accommodated acc.1) _ _ h ?_
  intro acc hacc entry _
  rcases seedGang_cases acc entry with ⟨_, ha, he⟩ | ⟨_, _, he⟩ | ⟨_, he⟩
  · rw [he]
    exact accommodated_admitted hacc ha
  · rw [he]
    exact hacc
  · rw [he]
    exact hacc

structure Rebuilt (e : Engine ℤ) (newTree t : QueueManager ℤ) : Prop where
  index : t.index = newTree.index
  sources : ∀ g x, t.gangs.lookup g = some x →
    ∃ gb, e.gangBook.lookup g = some gb ∧ gb.leaf ∈ newTree.index ∧ x = holdOf gb
  used : ∀ n d, get (t.used n) d = podDemand newTree.index e.book n d + holdDemand t n d
  accommodated : Accommodated t
  complete : Carries e newTree → ∀ g gb, e.gangBook.lookup g = some gb →
    gb.leaf ∈ newTree.index → g ∈ t.gangs

lemma rebuild_tree {e : Engine ℤ} (hvalid : GangsValid e) {newTree : QueueManager ℤ}
    (hfresh : Fresh newTree) {bookOrder gangOrder : List String} (hbo : Visits bookOrder e.book)
    (hgo : Visits gangOrder e.gangBook) :
    ∃ t, (e.rebuild newTree bookOrder gangOrder).tree = some t ∧ Rebuilt e newTree t := by
  refine ⟨_, rfl, ?_⟩
  obtain ⟨hix, hgs, -, -⟩ := seedBookings_spec (entries bookOrder e.book) (newTree, e.book)
  have hag := agrees_seedBookings hfresh hbo
  have hdemand := podDemand_seedBookings newTree hbo
  generalize (entries bookOrder e.book).foldl seedBooking (newTree, e.book) = pods at *
  rw [hfresh.gangs] at hgs
  obtain ⟨hix', -, hfrom, -⟩ := seedGangs_spec (entries gangOrder e.gangBook) (pods.1, e.gangBook)
  simp only [hix] at hix' hfrom
  have hag' : Agrees ((entries gangOrder e.gangBook).foldl seedGang (pods.1, e.gangBook)).1
      pods.2 :=
    agrees_seedGangs _ hag
  refine ⟨hix', fun g x hx => ?_, fun n d => ?_, ?_, fun hcarry g gb hgb hin => ?_⟩
  · rcases hfrom g x hx with hold | ⟨gb, hgb, hin, he⟩
    · rw [hgs] at hold
      cases hold
    · exact ⟨gb, lookup_of_mem_entries hgb, hin, he⟩
  · rw [hag'.used, hix', hdemand]
  · apply accommodated_seedGangs
    intro g x hx
    rw [hgs] at hx
    cases hx
  · have hused : ∀ n d, get (pods.1.used n) d = podDemand newTree.index e.book n d := by
      intro n d
      rw [hag.used, hix, hdemand, holdDemand, hgs, total_empty, add_zero]
    have hentry : ∀ kv ∈ entries gangOrder e.gangBook, e.gangBook.lookup kv.1 = some kv.2 :=
      fun _ => lookup_of_mem_entries
    refine seedGangs_admit_all (entries gangOrder e.gangBook) hix (entries_nodup hgo.1)
      (fun kv _ => ?_) (fun kv hkv => hvalid kv.1 kv.2 (hentry kv hkv))
      (fun kv hkv hk => ?_) (fun kv hkv hk n hn d hd hb => ?_) (g, gb)
      ((mem_entries_iff hgo).mpr hgb) hin
    · rw [hgs]
      exact Finmap.notMem_empty
    · have hc := hcarry kv.1 kv.2 (hentry kv hkv) hk
      exact ⟨hc.1, hc.2.1⟩
    · have hc := (hcarry kv.1 kv.2 (hentry kv hkv) hk).2.2 n hn d hd hb
      have hsum := sum_entries hgo fun _ b => gangShare newTree.index n.path d b
      rw [hused, hsum]
      exact hc

lemma holdDemand_of_agree {t : QueueManager ℤ} {pruned ledger : Map String (GangBooking ℤ)}
    (hagree : ∀ g, t.gangs.lookup g = (pruned.lookup g).map holdOf)
    (hprune : ∀ g, pruned.lookup g =
      (ledger.lookup g).filter fun gb => decide (gb.leaf ∈ t.index)) (n d : String) :
    holdDemand t n d = total ledger fun _ gb => gangShare t.index n d gb := by
  rw [holdDemand, total_map hagree]
  refine total_filter hprune fun g gb _ hout => ?_
  have hgone : gb.leaf ∉ t.index := by simpa using hout
  exact if_neg (not_charges_of_unknown hgone n)

lemma rebuild_agrees_iff {e : Engine ℤ} (hvalid : GangsValid e) {newTree : QueueManager ℤ}
    (hfresh : Fresh newTree) {bookOrder gangOrder : List String} (hbo : Visits bookOrder e.book)
    (hgo : Visits gangOrder e.gangBook) :
    GangsAgree (e.rebuild newTree bookOrder gangOrder) ↔ Carries e newTree := by
  obtain ⟨t, ht, hr⟩ := rebuild_tree hvalid hfresh hbo hgo
  have hledger := rebuild_gangBook e newTree bookOrder hgo
  rw [gangsAgree_of_tree ht]
  constructor
  · intro hagree g gb hgb hin
    have hheld : t.gangs.lookup g = some (holdOf gb) := by
      rw [hagree, hledger, hgb]
      simp [Option.filter, hin]
    obtain ⟨hl, hm, hroom⟩ := hr.accommodated g (holdOf gb) hheld
    rw [isLeafPath_congr hr.index] at hl
    rw [fitsMax_congr hr.index] at hm
    refine ⟨hl, hm, fun n hn d hd hb => ?_⟩
    have hle := hroom n (hr.index ▸ hn) d hd hb
    rw [hr.used, holdDemand_of_agree hagree (by rw [hr.index]; exact hledger), hr.index] at hle
    exact hle
  · intro hcarry g
    rw [hledger]
    cases hx : t.gangs.lookup g with
    | some x =>
      obtain ⟨gb, hgb, hin, rfl⟩ := hr.sources g x hx
      rw [hgb]
      simp [Option.filter, hin]
    | none =>
      cases hgb : e.gangBook.lookup g with
      | none => rfl
      | some gb =>
        have hout : gb.leaf ∉ newTree.index := fun hin =>
          Finmap.lookup_eq_none.mp hx (hr.complete hcarry g gb hgb hin)
        simp [Option.filter, hout]

/-- The condition on a rebuild; other calls are free. -/
def FeasibleRebuild (e : Engine ℤ) : Call ℤ → Prop
  | .rebuild newTree _ _ => Carries e newTree
  | _ => True

structure GangInv (e : Engine ℤ) : Prop where
  agree : GangsAgree e
  valid : GangsValid e

lemma gangInv_same {e e' : Engine ℤ} (h : GangInv e) (hs : SameGangs e e') : GangInv e' := by
  refine ⟨hs.agree h.agree, ?_⟩
  rw [GangsValid, hs.gangBook]
  exact h.valid

lemma GangsAgree.recorded {e : Engine ℤ} (h : GangsAgree e) : GangsRecorded e := by
  intro t ht g hg
  obtain ⟨x, hx⟩ := Finmap.mem_iff.mp hg
  have hagree := (gangsAgree_of_tree ht).mp h g
  rw [hx] at hagree
  obtain ⟨gb, hgb, -⟩ := Option.map_eq_some_iff.mp hagree.symm
  exact Finmap.mem_of_lookup_eq_some hgb

lemma gangInv_call {e : Engine ℤ} (h : GangInv e) (c : Call ℤ) (hc : Callable e c)
    (hf : FeasibleRebuild e c) : GangInv (e.call c) := by
  refine gangs_call h gangInv_same ?_ ?_ ?_
  · exact fun he hstep => ⟨gangsAgree_admitStep he.agree hstep,
      gangsValid_admitStep he.agree.recorded he.valid hstep⟩
  · exact fun he key => ⟨gangsAgree_releaseGang he.agree key, gangsValid_released he.valid key _⟩
  · rintro newTree bookOrder gangOrder rfl
    obtain ⟨⟨spec, hspec⟩, hbo, hgo⟩ := hc
    exact ⟨(rebuild_agrees_iff h.valid (newManager_fresh hspec) hbo hgo).mpr hf,
      gangsValid_rebuild h.valid newTree bookOrder hgo⟩

lemma gangInv_run {timeout : ℤ} {calls : List (Call ℤ)} {e : Engine ℤ}
    (h : Run (machine.restrict FeasibleRebuild) (newEngine timeout) calls e) : GangInv e := by
  refine h.invariant ⟨fun g => rfl, fun g gb hgb => ?_⟩ fun x c hi hc => gangInv_call hi c hc.1 hc.2
  cases hgb

/-- A rebuild that lowers a maximum below an admitted gang: the ledger still says
admitted, and the new tree reserves nothing. -/
theorem lowered_maximum_loses_gang :
    let calls : List (Call ℤ) :=
      [.rebuild (treeOf (twoLeaves 10 4) (by decide)) [] [],
        .admitGang "root.a" "ns/g" (Finmap.singleton "cpu" 3),
        .rebuild (treeOf (twoLeaves 10 2) (by decide)) [] ["ns/g"]]
    let e := calls.foldl Engine.call (newEngine 60)
    Run machine (newEngine 60) calls e ∧ e.isGangAdmitted "ns/g" = true ∧
      (e.tree.bind fun t => t.gangs.lookup "ns/g").isNone = true ∧ ¬ GangsAgree e := by
  intro calls e
  have hadmitted : e.isGangAdmitted "ns/g" = true := by decide +kernel
  have hnone : (e.tree.bind fun t => t.gangs.lookup "ns/g").isNone = true := by decide +kernel
  refine ⟨?_, hadmitted, hnone, fun hagree => ?_⟩
  · apply Machine.Legal.run
    exact ⟨⟨⟨_, newManager_treeOf _ _⟩, visits_empty, visits_empty⟩, trivial,
      ⟨⟨_, newManager_treeOf _ _⟩, by decide +kernel, by decide +kernel⟩, trivial⟩
  · rw [hagree "ns/g", Option.isNone_map, Option.isNone_iff_eq_none, Finmap.lookup_eq_none] at hnone
    exact hnone (by simpa [Engine.isGangAdmitted] using hadmitted)

/-- As long as every rebuild finds room for the gangs it carries over, the gang ledger
and the live tree agree in every state; and a rebuild that does not breaks it. -/
theorem gang_ledger_eq_tree {timeout : ℤ} {calls : List (Call ℤ)} {e : Engine ℤ}
    (h : Run (machine.restrict FeasibleRebuild) (newEngine timeout) calls e) :
    GangsAgree e ∧ (∀ g, e.isGangAdmitted g = true ↔
      ∃ t x, e.tree = some t ∧ t.gangs.lookup g = some x) ∧
    ∀ newTree bookOrder gangOrder, Callable e (.rebuild newTree bookOrder gangOrder) →
      (GangsAgree (e.rebuild newTree bookOrder gangOrder) ↔ Carries e newTree) := by
  have hinv := gangInv_run h
  refine ⟨hinv.agree, fun g => ?_, fun newTree bookOrder gangOrder hc => ?_⟩
  · have hg := hinv.agree g
    rw [Engine.isGangAdmitted, decide_eq_true_eq, Finmap.mem_iff]
    constructor
    · rintro ⟨gb, hgb⟩
      rw [hgb] at hg
      obtain ⟨t, ht, hx⟩ := Option.bind_eq_some_iff.mp hg
      exact ⟨t, _, ht, hx⟩
    · rintro ⟨t, x, ht, hx⟩
      rw [ht, Option.bind_some, hx] at hg
      obtain ⟨gb, hgb, _⟩ := Option.map_eq_some_iff.mp hg.symm
      exact ⟨gb, hgb⟩
  · obtain ⟨⟨spec, hspec⟩, hbo, hgo⟩ := hc
    exact rebuild_agrees_iff hinv.valid (newManager_fresh hspec) hbo hgo

theorem smaller_maximum_keeps_gang :
    let calls : List (Call ℤ) :=
      [.rebuild (treeOf (twoLeaves 10 4) (by decide)) [] [],
        .observeBound "uid" "root.a" (Finmap.singleton "cpu" 1),
        .admitGang "root.a" "ns/g" (Finmap.singleton "cpu" 2),
        .rebuild (treeOf (twoLeaves 10 3) (by decide)) ["uid"] ["ns/g"]]
    let e := calls.foldl Engine.call (newEngine 60)
    e.isGangAdmitted "ns/g" = true ∧ GangsAgree e := by
  intro calls e
  have hrun : Run (machine.restrict FeasibleRebuild) (newEngine 60) calls e := by
    apply Machine.Legal.run
    refine ⟨⟨⟨⟨_, newManager_treeOf _ _⟩, visits_empty, visits_empty⟩, ?_⟩, ⟨trivial, trivial⟩,
      ⟨trivial, trivial⟩, ⟨⟨⟨_, newManager_treeOf _ _⟩, ?_, ?_⟩, ?_⟩, trivial⟩
    · change Carries _ _
      decide +kernel
    · decide +kernel
    · decide +kernel
    · change Carries _ _
      decide +kernel
  exact ⟨by decide +kernel, (gang_ledger_eq_tree hrun).1⟩

end Rebuild

end AdScheduler.GangAgreement
