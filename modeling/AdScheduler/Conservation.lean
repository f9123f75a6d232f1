import AdScheduler.Manager

/-! Roll-up conservation of the queue tree: what each mutator does to the usage of
every queue, and that inner queues always carry the sum of their children. -/
namespace AdScheduler.Conservation
open KeyedMap Resources QueueTree TreeShape Manager

variable {V : Type*} [CommRing V] [LinearOrder V]

/-- Usage booked at `p` counts at `n`: `p` is a leaf and `n` lies on its way to the
root. -/
def Charges (ix : Index V) (p n : String) : Prop :=
  (ix.lookup p).elim false Queue.isLeaf = true ∧ n ∈ (pathUp ix p).map Queue.path

instance (ix : Index V) (p n : String) : Decidable (Charges ix p n) := by
  unfold Charges; infer_instance

/-- An update of the usage vectors adds fixed amounts in every dimension. -/
def Moves (fn : Usage V → Usage V) (δ : String → V × V × V) : Prop :=
  ∀ u d, (fn u).read d = u.read d + δ d

lemma moves_reserve (r : Resource V) : Moves (Usage.reserve r) fun d => (0, get r d, 0) := by
  intro u d; simp [Usage.reserve, Usage.read]

lemma moves_unreserve (r : Resource V) : Moves (Usage.unreserve r) fun d => (0, -get r d, 0) := by
  intro u d; simp [Usage.unreserve, Usage.read, sub_eq_add_neg]

lemma moves_commit (r : Resource V) : Moves (Usage.commit r) fun d => (get r d, -get r d, 0) := by
  intro u d; simp [Usage.commit, Usage.read, sub_eq_add_neg]

lemma moves_allocate (r : Resource V) : Moves (Usage.allocate r) fun d => (get r d, 0, 0) := by
  intro u d; simp [Usage.allocate, Usage.read]

lemma moves_release (r : Resource V) : Moves (Usage.release r) fun d => (-get r d, 0, 0) := by
  intro u d; simp [Usage.release, Usage.read, sub_eq_add_neg]

lemma moves_addPending (r : Resource V) : Moves (Usage.addPending r) fun d => (0, 0, get r d) := by
  intro u d; simp [Usage.addPending, Usage.read]

lemma moves_subPending (r : Resource V) : Moves (Usage.subPending r) fun d => (0, 0, -get r d) := by
  intro u d; simp [Usage.subPending, Usage.read, sub_eq_add_neg]

lemma up_nodup (m : QueueManager V) (p : String) : (m.up p).Nodup :=
  RollUp.up_nodup (hierarchy m.wf) p

lemma walkUp_usage (m : QueueManager V) (p n : String) (fn : Usage V → Usage V) :
    (m.walkUp p fn).usage n = if n ∈ m.up p then fn (m.usage n) else m.usage n :=
  RollUp.along_apply (up_nodup m p) fn m.usage n

lemma walkUp_read {fn : Usage V → Usage V} {δ : String → V × V × V} (h : Moves fn δ)
    (m : QueueManager V) (p d : String) :
    (fun n => ((m.walkUp p fn).usage n).read d) =
      RollUp.post (hierarchy m.wf) p (δ d) fun n => (m.usage n).read d := by
  funext n
  have hup : (hierarchy m.wf).up p = m.up p := rfl
  rw [RollUp.post, hup, walkUp_usage]
  split_ifs
  · exact h _ _
  · exact (add_zero _).symm

lemma mutate_cases (m : QueueManager V) (p : String) (fn : Usage V → Usage V) :
    (m.isLeafPath p = true ∧ m.mutate p fn = (m.walkUp p fn, .ok ())) ∨
      (m.isLeafPath p = false ∧ ∃ e, m.mutate p fn = (m, .error e)) := by
  unfold QueueManager.mutate QueueManager.isLeafPath
  cases hq : m.index.lookup p with
  | none => exact .inr ⟨rfl, _, rfl⟩
  | some q =>
    cases hl : q.isLeaf with
    | true => exact .inl ⟨hl, by simp [hl]⟩
    | false => exact .inr ⟨hl, .notLeaf p, by simp [hl]⟩

@[simp] lemma mutate_index (m : QueueManager V) (p : String) (fn : Usage V → Usage V) :
    (m.mutate p fn).1.index = m.index := by
  rcases mutate_cases m p fn with ⟨_, h⟩ | ⟨_, e, h⟩
  · rw [h]
    rfl
  · rw [h]

@[simp] lemma mutate_gangs (m : QueueManager V) (p : String) (fn : Usage V → Usage V) :
    (m.mutate p fn).1.gangs = m.gangs := by
  rcases mutate_cases m p fn with ⟨_, h⟩ | ⟨_, e, h⟩
  · rw [h]
    rfl
  · rw [h]

lemma mutate_read {fn : Usage V → Usage V} {δ : String → V × V × V} (h : Moves fn δ)
    (m : QueueManager V) (p n d : String) :
    ((m.mutate p fn).1.usage n).read d =
      (m.usage n).read d + if Charges m.index p n then δ d else 0 := by
  rcases mutate_cases m p fn with ⟨hl, he⟩ | ⟨hl, e, he⟩
  · rw [he]
    have hw := congrFun (walkUp_read h m p d) n
    rw [RollUp.post] at hw
    rw [hw]
    have hiff : n ∈ (hierarchy m.wf).up p ↔ Charges m.index p n :=
      ⟨fun hn => ⟨hl, hn⟩, fun hc => hc.2⟩
    simp only [hiff]
  · have hc : ¬ Charges m.index p n := by
      intro hc
      have := hc.1
      rw [QueueManager.isLeafPath] at hl
      rw [hl] at this
      cases this
    rw [he, if_neg hc, add_zero]

/-- Everything a new gang admission requires. -/
structure Admits (m : QueueManager V) (leaf gangID : String) (r : Resource V) : Prop where
  id_ne : gangID ≠ ""
  positive : strictlyGtZero r = true
  fresh : gangID ∉ m.gangs
  leaf_ok : m.isLeafPath leaf = true
  within : m.fitsMax leaf r = true
  fits : m.fits leaf r = true

def admitted (m : QueueManager V) (leaf gangID : String) (r : Resource V) : QueueManager V :=
  { m.walkUp leaf (Usage.reserve r) with gangs := m.gangs.insert gangID ⟨leaf, r⟩ }

lemma admitGang_cases (m : QueueManager V) (leaf gangID : String) (r : Resource V) :
    (Admits m leaf gangID r ∧ m.admitGang leaf gangID r = (admitted m leaf gangID r, .ok true)) ∨
      (¬ Admits m leaf gangID r ∧ (m.admitGang leaf gangID r).1 = m ∧
        ((m.admitGang leaf gangID r).2 = .ok true → gangID ∈ m.gangs)) := by
  unfold QueueManager.admitGang
  by_cases h1 : gangID = ""
  · rw [if_pos h1]
    exact .inr ⟨fun h => h.id_ne h1, rfl, by simp⟩
  rw [if_neg h1]
  by_cases h2 : strictlyGtZero r = false
  · rw [if_pos h2]
    exact .inr ⟨fun h => by simp [h.positive] at h2, rfl, by simp⟩
  rw [if_neg h2]
  by_cases h3 : gangID ∈ m.gangs
  · rw [if_pos h3]
    exact .inr ⟨fun h => h.fresh h3, rfl, fun _ => h3⟩
  rw [if_neg h3]
  cases hq : m.index.lookup leaf with
  | none =>
    refine .inr ⟨fun h => ?_, rfl, by simp⟩
    have hl := h.leaf_ok
    simp [QueueManager.isLeafPath, hq] at hl
  | some q =>
    have hleaf : m.isLeafPath leaf = q.isLeaf := by simp [QueueManager.isLeafPath, hq]
    dsimp only
    by_cases h4 : q.isLeaf = false
    · rw [if_pos h4]
      refine .inr ⟨fun h => ?_, rfl, by simp⟩
      rw [hleaf.symm.trans h.leaf_ok] at h4
      cases h4
    rw [if_neg h4]
    by_cases h5 : m.fitsMax leaf r = false
    · rw [if_pos h5]
      exact .inr ⟨fun h => by simp [h.within] at h5, rfl, by simp⟩
    rw [if_neg h5]
    by_cases h6 : m.fits leaf r = false
    · rw [if_pos h6]
      exact .inr ⟨fun h => by simp [h.fits] at h6, rfl, by simp⟩
    rw [if_neg h6]
    exact .inl ⟨⟨h1, by simpa using h2, h3, by rw [hleaf]; simpa using h4, by simpa using h5,
      by simpa using h6⟩, rfl⟩

@[simp] lemma admitGang_index (m : QueueManager V) (leaf gangID : String) (r : Resource V) :
    (m.admitGang leaf gangID r).1.index = m.index := by
  rcases admitGang_cases m leaf gangID r with ⟨_, h⟩ | ⟨_, h, _⟩
  · rw [h]
    rfl
  · rw [h]

lemma admitted_read {m : QueueManager V} {leaf gangID : String} {r : Resource V}
    (hl : m.isLeafPath leaf = true) (n d : String) :
    ((admitted m leaf gangID r).usage n).read d =
      (m.usage n).read d + if Charges m.index leaf n then (0, get r d, 0) else 0 := by
  have hw := congrFun (walkUp_read (moves_reserve r) m leaf d) n
  have hiff : n ∈ (hierarchy m.wf).up leaf ↔ Charges m.index leaf n :=
    ⟨fun hn => ⟨hl, hn⟩, fun hc => hc.2⟩
  simp only [RollUp.post, hiff] at hw
  exact hw

/-- What counts against a maximum, as a component of the three vectors. -/
def usedHom (V : Type*) [CommRing V] : V × V × V →+ V :=
  AddMonoidHom.fst V (V × V) + (AddMonoidHom.fst V V).comp (AddMonoidHom.snd V (V × V))

lemma get_used (m : QueueManager V) (n d : String) :
    get (m.used n) d = usedHom V ((m.usage n).read d) := by
  rw [QueueManager.used, get_add]
  rfl

lemma mutate_used {fn : Usage V → Usage V} {δ : String → V × V × V} (h : Moves fn δ)
    (m : QueueManager V) (p n d : String) :
    get ((m.mutate p fn).1.used n) d =
      get (m.used n) d + if Charges m.index p n then usedHom V (δ d) else 0 := by
  rw [get_used, get_used, mutate_read h, map_add, apply_ite (usedHom V), map_zero]

lemma reserve_used (t : QueueManager V) (leaf n d : String) (r : Resource V) :
    get ((t.reserve leaf r).1.used n) d =
      get (t.used n) d + if Charges t.index leaf n then get r d else 0 := by
  have h := mutate_used (moves_reserve r) t leaf n d
  simpa [usedHom, QueueManager.reserve] using h

lemma admitted_used {m : QueueManager V} {leaf gangID : String} {r : Resource V}
    (hl : m.isLeafPath leaf = true) (n d : String) :
    get ((admitted m leaf gangID r).used n) d =
      get (m.used n) d + if Charges m.index leaf n then get r d else 0 := by
  rw [get_used, get_used, admitted_read hl, map_add]
  congr 1
  split_ifs
  · exact zero_add _
  · exact map_zero _

lemma fitsMax_congr {m m' : QueueManager V} (h : m'.index = m.index) (p : String) (r : Resource V) :
    m'.fitsMax p r = m.fitsMax p r := by
  rw [QueueManager.fitsMax, QueueManager.fitsMax, h]

@[simp] lemma releaseGang_index (m : QueueManager V) (gangID : String) :
    (m.releaseGang gangID).index = m.index := by
  unfold QueueManager.releaseGang
  split
  · rfl
  · dsimp only
    split_ifs <;> rfl

lemma releaseGang_gangs (m : QueueManager V) (gangID : String) :
    (m.releaseGang gangID).gangs = m.gangs.erase gangID := by
  unfold QueueManager.releaseGang
  split
  · rename_i h
    apply Finmap.ext_lookup
    intro k
    rw [lookup_erase_ite]
    split_ifs with hk
    · rw [hk, h]
    · rfl
  · rfl

lemma releaseGang_read {m : QueueManager V} {gangID : String} {h : GangHold V}
    (hh : m.gangs.lookup gangID = some h) (d : String) :
    (fun n => ((m.releaseGang gangID).usage n).read d) =
      RollUp.post (hierarchy m.wf) h.leaf (0, -get h.held d, 0) fun n => (m.usage n).read d := by
  have hrel : ∀ n, (m.releaseGang gangID).usage n =
      (if h.leaf ∈ m.index ∧ isEmpty h.held = false then
        m.walkUp h.leaf (Usage.unreserve h.held) else m).usage n := by
    intro n
    unfold QueueManager.releaseGang
    rw [hh]
  simp only [hrel]
  split_ifs with hc
  · exact walkUp_read (moves_unreserve h.held) m h.leaf d
  · funext n
    rw [RollUp.post]
    have hzero : (if n ∈ (hierarchy m.wf).up h.leaf then
        ((0, -get h.held d, 0) : V × V × V) else 0) = 0 := by
      by_cases hm : h.leaf ∈ m.index
      · have he : isEmpty h.held = true := by
          by_contra hne
          exact hc ⟨hm, by simpa using hne⟩
        rw [(isEmpty_iff _).mp he d, neg_zero]
        exact ite_self _
      · have hup : (hierarchy m.wf).up h.leaf = [] := by
          change (pathUp m.index h.leaf).map Queue.path = []
          rw [pathUp_unknown (Finmap.lookup_eq_none.mpr hm), List.map_nil]
        rw [hup, if_neg List.not_mem_nil]
    rw [hzero, add_zero]

inductive Op (V : Type*)
  | reserve (path : String) (r : Resource V)
  | unreserve (path : String) (r : Resource V)
  | commit (path : String) (r : Resource V)
  | allocate (path : String) (r : Resource V)
  | release (path : String) (r : Resource V)
  | addPending (path : String) (r : Resource V)
  | subPending (path : String) (r : Resource V)
  | admitGang (leaf gangID : String) (minResources : Resource V)
  | releaseGang (gangID : String)

def errorOf {α : Type*} : Except QueueErr α → Option QueueErr
  | .error e => some e
  | .ok _ => none

/-- The tree after a call and the error it returned. -/
def exec (m : QueueManager V) : Op V → QueueManager V × Option QueueErr
  | .reserve p r => ((m.reserve p r).1, errorOf (m.reserve p r).2)
  | .unreserve p r => ((m.unreserve p r).1, errorOf (m.unreserve p r).2)
  | .commit p r => ((m.commit p r).1, errorOf (m.commit p r).2)
  | .allocate p r => ((m.allocate p r).1, errorOf (m.allocate p r).2)
  | .release p r => ((m.release p r).1, errorOf (m.release p r).2)
  | .addPending p r => ((m.addPending p r).1, errorOf (m.addPending p r).2)
  | .subPending p r => ((m.subPending p r).1, errorOf (m.subPending p r).2)
  | .admitGang leaf g r => ((m.admitGang leaf g r).1, errorOf (m.admitGang leaf g r).2)
  | .releaseGang g => (m.releaseGang g, none)

/-- The leaf a call books at; a release books where the gang is held. -/
def target (m : QueueManager V) : Op V → Option String
  | .reserve p _ | .unreserve p _ | .commit p _ | .allocate p _ | .release p _
  | .addPending p _ | .subPending p _ => some p
  | .admitGang leaf _ _ => some leaf
  | .releaseGang g => (m.gangs.lookup g).map GangHold.leaf

def run (m : QueueManager V) (ops : List (Op V)) : QueueManager V :=
  ops.foldl (fun m op => (exec m op).1) m

@[simp] lemma exec_index (m : QueueManager V) (op : Op V) : (exec m op).1.index = m.index := by
  cases op with
  | admitGang leaf g r => exact admitGang_index m leaf g r
  | releaseGang g => exact releaseGang_index m g
  | _ => exact mutate_index m _ _

@[simp] lemma run_index (m : QueueManager V) (ops : List (Op V)) : (run m ops).index = m.index := by
  induction ops generalizing m with
  | nil => rfl
  | cons op ops ih => exact (ih (exec m op).1).trans (exec_index m op)

def GangsOnLeaves (m : QueueManager V) : Prop :=
  ∀ g h, m.gangs.lookup g = some h → m.isLeafPath h.leaf = true

/-- What one call can do: nothing at all, or a posting at its target leaf, which never
comes with an error. -/
inductive Effect (m : QueueManager V) (op : Op V) : Prop
  | unchanged (same : (exec m op).1 = m)
  | posted (l : String) (δ : String → V × V × V) (leaf : m.isLeafPath l = true)
      (at_target : target m op = some l) (noError : (exec m op).2 = none)
      (index : (exec m op).1.index = m.index) (gangs : GangsOnLeaves (exec m op).1)
      (read : ∀ d, (fun n => ((exec m op).1.usage n).read d) =
        RollUp.post (hierarchy m.wf) l (δ d) fun n => (m.usage n).read d)
      (frame : ∀ n, n ∉ m.up l → (exec m op).1.usage n = m.usage n)

lemma isLeafPath_iff (m : QueueManager V) (p : String) :
    m.isLeafPath p = true ↔ ∃ q, m.index.lookup p = some q ∧ q.isLeaf = true := by
  rw [QueueManager.isLeafPath]
  cases m.index.lookup p <;> simp

lemma mem_index_of_isLeafPath {m : QueueManager V} {p : String} (h : m.isLeafPath p = true) :
    p ∈ m.index := by
  obtain ⟨q, hq, _⟩ := (isLeafPath_iff m p).mp h
  exact Finmap.mem_of_lookup_eq_some hq

lemma isLeafPath_congr {m m' : QueueManager V} (h : m'.index = m.index) (p : String) :
    m'.isLeafPath p = m.isLeafPath p := by
  rw [QueueManager.isLeafPath, QueueManager.isLeafPath, h]

lemma childPaths_of_isLeafPath {m : QueueManager V} {p : String} (h : m.isLeafPath p = true) :
    childPaths m.index p = ∅ := by
  obtain ⟨q, hq, hl⟩ := (isLeafPath_iff m p).mp h
  exact (childPaths_eq_empty_iff hq).mpr hl

lemma charges_leaf_iff (m : QueueManager V) {p : String} (hp : m.isLeafPath p = true) (l : String) :
    Charges m.index l p ↔ l = p := by
  constructor
  · intro h
    exact (RollUp.eq_of_leaf (hierarchy m.wf) h.2 (childPaths_of_isLeafPath hp)).symm
  · rintro rfl
    obtain ⟨q, hq, _⟩ := (isLeafPath_iff m l).mp hp
    exact ⟨hp, List.mem_map.mpr ⟨q, mem_pathUp_self hq, m.wf.path_eq hq⟩⟩

lemma gangsOnLeaves_congr {m m' : QueueManager V} (hi : m'.index = m.index)
    (hg : m'.gangs = m.gangs) (h : GangsOnLeaves m) : GangsOnLeaves m' := by
  intro g x hx
  rw [hg] at hx
  rw [isLeafPath_congr hi]
  exact h g x hx

lemma gangsOnLeaves_admitted {m : QueueManager V} {leaf g : String} {r : Resource V}
    (hm : GangsOnLeaves m) (ha : Admits m leaf g r) : GangsOnLeaves (admitted m leaf g r) := by
  intro g' x hx
  rcases lookup_insert_cases hx with ⟨-, rfl⟩ | ⟨-, hx⟩
  · exact ha.leaf_ok
  · exact hm g' x hx

lemma gangsOnLeaves_releaseGang {m : QueueManager V} (hm : GangsOnLeaves m) (g : String) :
    GangsOnLeaves (m.releaseGang g) := by
  intro g' x hx
  rw [releaseGang_gangs] at hx
  exact (isLeafPath_congr (releaseGang_index m g) x.leaf).trans (hm g' x (lookup_of_erase hx))

lemma effect_mutate {m : QueueManager V} {op : Op V} {p : String} {fn : Usage V → Usage V}
    {δ : String → V × V × V} (hm : GangsOnLeaves m) (hmoves : Moves fn δ)
    (hexec : exec m op = ((m.mutate p fn).1, errorOf (m.mutate p fn).2))
    (htarget : target m op = some p) : Effect m op := by
  rcases mutate_cases m p fn with ⟨hl, he⟩ | ⟨hl, e, he⟩
  · have h1 : (exec m op).1 = m.walkUp p fn := by rw [hexec, he]
    refine .posted p δ hl htarget (by rw [hexec, he]; rfl) (by rw [h1]; rfl) ?_ ?_ ?_
    · rw [h1]
      exact gangsOnLeaves_congr rfl rfl hm
    · rw [h1]
      exact walkUp_read hmoves m p
    · intro n hn
      rw [h1, walkUp_usage, if_neg hn]
  · exact .unchanged (by rw [hexec, he])

lemma effect_admitGang {m : QueueManager V} (hm : GangsOnLeaves m) (leaf g : String)
    (r : Resource V) : Effect m (.admitGang leaf g r) := by
  rcases admitGang_cases m leaf g r with ⟨ha, he⟩ | ⟨_, he, _⟩
  · have h1 : (exec m (.admitGang leaf g r)).1 = admitted m leaf g r := congrArg Prod.fst he
    refine .posted leaf (fun d => (0, get r d, 0)) ha.leaf_ok rfl ?_ (by rw [h1]; rfl) ?_ ?_ ?_
    · rw [exec, he]
      rfl
    · rw [h1]
      exact gangsOnLeaves_admitted hm ha
    · rw [h1]
      exact walkUp_read (moves_reserve r) m leaf
    · intro n hn
      rw [h1]
      exact (walkUp_usage m leaf n _).trans (if_neg hn)
  · exact .unchanged he

lemma effect_releaseGang {m : QueueManager V} (hm : GangsOnLeaves m) (g : String) :
    Effect m (.releaseGang g) := by
  cases hg : m.gangs.lookup g with
  | none =>
    refine .unchanged ?_
    simp only [exec, QueueManager.releaseGang, hg]
  | some h =>
    refine .posted h.leaf (fun d => (0, -get h.held d, 0)) (hm g h hg) (by simp [target, hg]) rfl
      (releaseGang_index m g) (gangsOnLeaves_releaseGang hm g) (releaseGang_read hg) ?_
    intro n hn
    simp only [exec, QueueManager.releaseGang, hg]
    split_ifs
    · exact (walkUp_usage m h.leaf n _).trans (if_neg hn)
    · rfl

lemma exec_effect {m : QueueManager V} (hm : GangsOnLeaves m) (op : Op V) : Effect m op := by
  cases op with
  | reserve p r => exact effect_mutate hm (moves_reserve r) rfl rfl
  | unreserve p r => exact effect_mutate hm (moves_unreserve r) rfl rfl
  | commit p r => exact effect_mutate hm (moves_commit r) rfl rfl
  | allocate p r => exact effect_mutate hm (moves_allocate r) rfl rfl
  | release p r => exact effect_mutate hm (moves_release r) rfl rfl
  | addPending p r => exact effect_mutate hm (moves_addPending r) rfl rfl
  | subPending p r => exact effect_mutate hm (moves_subPending r) rfl rfl
  | admitGang leaf g r => exact effect_admitGang hm leaf g r
  | releaseGang g => exact effect_releaseGang hm g

/-- Every inner queue carries the sum of its children, and gangs sit on leaves. -/
structure Conserving (m : QueueManager V) : Prop where
  rolled : ∀ d, RollUp.Conserved (hierarchy m.wf) fun n => (m.usage n).read d
  gangs : GangsOnLeaves m

lemma fresh_conserving {m : QueueManager V} (h : Fresh m) : Conserving m := by
  refine ⟨fun d n _ => ?_, fun g x hx => ?_⟩
  · simp [h.usage, Usage.read]
  · simp [h.gangs] at hx

lemma conserving_step {m : QueueManager V} (hm : Conserving m) (op : Op V) :
    Conserving (exec m op).1 := by
  rcases exec_effect hm.gangs op with same | ⟨l, δ, leaf, _, _, index, gangs, read, _⟩
  · rw [same]
    exact hm
  · refine ⟨fun d n hn => ?_, gangs⟩
    have hch : (hierarchy (exec m op).1.wf).children n = (hierarchy m.wf).children n := by
      change childPaths (exec m op).1.index n = childPaths m.index n
      rw [index]
    have hpost := RollUp.post_conserved (hierarchy m.wf) (childPaths_of_isLeafPath leaf) (δ d)
      (hm.rolled d)
    rw [← read d] at hpost
    rw [hch] at hn ⊢
    exact hpost n hn

lemma conserving_run {m : QueueManager V} (hm : Conserving m) (ops : List (Op V)) :
    Conserving (run m ops) := by
  induction ops generalizing m with
  | nil => exact hm
  | cons op ops ih => exact ih (conserving_step hm op)

/-- After any calls on a tree from `newManager`, failing ones included, every inner
queue's vectors are the sums over its children; a call that fails changes nothing, and
a call that succeeds changes only queues on its leaf's way to the root. -/
theorem inner_queues_sum_children {spec : Spec V} {m₀ : QueueManager V}
    (h : newManager spec = .ok m₀) (ops : List (Op V)) :
    (∀ p q, (run m₀ ops).index.lookup p = some q → q.isLeaf = false → ∀ d,
      ((run m₀ ops).usage p).read d =
        total q.children fun _ cp => ((run m₀ ops).usage cp).read d) ∧
    ∀ op, (∀ e, (exec (run m₀ ops) op).2 = some e → (exec (run m₀ ops) op).1 = run m₀ ops) ∧
      ∀ n, (∀ l, target (run m₀ ops) op = some l → n ∉ (run m₀ ops).up l) →
        (exec (run m₀ ops) op).1.usage n = (run m₀ ops).usage n := by
  have hc := conserving_run (fresh_conserving (newManager_fresh h)) ops
  generalize run m₀ ops = m at hc ⊢
  refine ⟨fun p q hq hinner d => ?_, fun op => ⟨fun e he => ?_, fun n hn => ?_⟩⟩
  · have hne : (childPaths m.index p).Nonempty := by
      rw [Finset.nonempty_iff_ne_empty, Ne, childPaths_eq_empty_iff hq, hinner]
      exact Bool.false_ne_true
    exact (hc.rolled d p hne).trans (sum_childPaths m.wf hq _)
  · rcases exec_effect hc.gangs op with same | ⟨l, δ, _, _, noError, _, _, _, _⟩
    · exact same
    · rw [noError] at he
      cases he
  · rcases exec_effect hc.gangs op with same | ⟨l, δ, _, at_target, _, _, _, _, frame⟩
    · rw [same]
    · exact frame n (hn l at_target)

theorem small_tree_root_sums_children :
    let m₀ := treeOf (twoLeaves 10 4) (by decide)
    let m := run m₀ [.allocate "root.a" (Finmap.singleton "cpu" 3),
      .admitGang "root.b" "g" (Finmap.singleton "cpu" 2),
      .reserve "root" (Finmap.singleton "cpu" 1)]
    (m.usage "root").read "cpu" = (3, 2, 0) ∧
    ∀ q, m.index.lookup "root" = some q → q.isLeaf = false →
      (m.usage "root").read "cpu" = total q.children fun _ cp => (m.usage cp).read "cpu" := by
  refine ⟨by decide +kernel, fun q hq hinner => ?_⟩
  exact (inner_queues_sum_children (newManager_treeOf (twoLeaves 10 4) (by decide)) _).1
    "root" q hq hinner "cpu"

end AdScheduler.Conservation
