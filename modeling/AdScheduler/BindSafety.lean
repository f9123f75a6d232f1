import AdScheduler.GangAgreement

/-! No bind over the cap. Scheduling and binding cycles of many pods interleave with
gang admissions on one tree. The headroom check and the booking are separate steps,
so a queue may be over its maximum in between; what stays within the maximum is the
sum of the pods that passed the last check and of the gangs. -/
namespace AdScheduler.BindSafety
open KeyedMap Resources QueueTree TreeShape Manager Conservation EngineCore LedgerTree
open GangAgreement WoundWait Runs

/-- How far a pod has come in its cycle, with the leaf and request of its filter state. -/
inductive Phase
  | idle
  | filtered (leaf : String) (req : Resource ℤ)
  | reserved (leaf : String) (req : Resource ℤ)
  | cleared (leaf : String) (req : Resource ℤ)
  | bound (leaf : String) (req : Resource ℤ)

structure Cycles where
  engine : Engine ℤ
  phase : String → Phase

/-- The steps of the cycles. `preBind` is a passed check; after a failed one the pod is
unreserved. The leaf and request of `observeBound` come from the informer. -/
inductive Action
  | preFilter (uid leaf : String) (req : Resource ℤ)
  | reserve (uid : String)
  | preBind (uid : String)
  | unreserve (uid : String)
  | postBind (uid : String)
  | observeBound (uid leaf : String) (req : Resource ℤ)
  | delete (uid : String)
  | admitGang (leaf key : String) (minRes : Resource ℤ)
  | admitGangWW (leaf key : String) (minRes : Resource ℤ) (wwkey : WoundWaitKey) (now : ℤ)
  | releaseGang (key : String)

/-- What `PreFilter` has checked when it lets a pod pass. -/
structure PassesFilter (e : Engine ℤ) (leaf : String) (req : Resource ℤ) : Prop where
  nonneg : ∀ d, 0 ≤ get req d
  fits : ∃ t, e.tree = some t ∧ t.isLeafPath leaf = true ∧ t.canFit leaf req = .ok true

def Enabled (s : Cycles) : Action → Prop
  | .preFilter uid leaf req => PassesFilter s.engine leaf req ∧
      (s.phase uid = .idle ∨ ∃ l r, s.phase uid = .filtered l r)
  | .reserve uid => ∃ l r, s.phase uid = .filtered l r
  | .preBind uid => ∃ l r t, s.phase uid = .reserved l r ∧ s.engine.tree = some t ∧
      t.withinMax l = .ok true
  | .unreserve uid => ∃ l r, s.phase uid = .reserved l r ∨ s.phase uid = .cleared l r
  | .postBind uid => ∃ l r, s.phase uid = .cleared l r ∨ s.phase uid = .bound l r
  | .observeBound uid _ _ => ∃ l r, s.phase uid = .cleared l r ∨ s.phase uid = .bound l r
  | .delete uid => ∃ l r, s.phase uid = .bound l r
  | .admitGang _ _ _ => True
  | .admitGangWW _ _ _ _ _ => True
  | .releaseGang _ => True

def Phase.after (ph : Phase) : Action → Phase
  | .preFilter _ leaf req => .filtered leaf req
  | .reserve _ => match ph with
    | .filtered l r => .reserved l r
    | ph => ph
  | .preBind _ => match ph with
    | .reserved l r => .cleared l r
    | ph => ph
  | .postBind _ | .observeBound _ _ _ => match ph with
    | .cleared l r => .bound l r
    | ph => ph
  | .unreserve _ | .delete _ => .idle
  | .admitGang _ _ _ | .admitGangWW _ _ _ _ _ | .releaseGang _ => ph

def Action.effect (s : Cycles) : Action → Engine ℤ
  | .preFilter _ _ _ | .preBind _ => s.engine
  | .reserve uid => match s.phase uid with
    | .filtered l r => s.engine.reserve uid l r
    | _ => s.engine
  | .unreserve uid => s.engine.unreserve uid
  | .postBind uid => s.engine.commit uid
  | .observeBound uid leaf req => s.engine.observeBound uid leaf req
  | .delete uid => s.engine.observeDeleted uid
  | .admitGang leaf key minRes => (s.engine.admitGang leaf key minRes).1
  | .admitGangWW leaf key minRes wwkey now => (s.engine.admitGangWW leaf key minRes wwkey now).1
  | .releaseGang key => s.engine.releaseGang key

def Action.pod : Action → Option String
  | .preFilter uid _ _ | .reserve uid | .preBind uid | .unreserve uid | .postBind uid
  | .observeBound uid _ _ | .delete uid => some uid
  | .admitGang _ _ _ | .admitGangWW _ _ _ _ _ | .releaseGang _ => none

def step (s : Cycles) (a : Action) : Cycles where
  engine := a.effect s
  phase uid := if a.pod = some uid then (s.phase uid).after a else s.phase uid

def cycles : Machine Cycles Action := ⟨Enabled, step⟩

def start (timeout : ℤ) (t : QueueManager ℤ) : Cycles := ⟨engineOn timeout t, fun _ => .idle⟩

def Phase.isCleared : Phase → Bool
  | .cleared _ _ => true
  | _ => false

/-- A booking counts if its pod has passed `PreBind` or is committed. -/
def passedWeight (s : Cycles) (ix : Index ℤ) (n d uid : String) (rec : BookRec ℤ) : ℤ :=
  if (rec.state = .committed ∨ (s.phase uid).isCleared = true) ∧ Charges ix rec.leaf n then
    get rec.req d else 0

/-- The booked requests under a queue of the pods that have passed `PreBind` or are
committed. -/
def passedDemand (s : Cycles) (ix : Index ℤ) (n d : String) : ℤ :=
  total s.engine.book (passedWeight s ix n d)

def Phase.booking : Phase → Option (BookRec ℤ)
  | .reserved l r | .cleared l r => some ⟨.reserved, l, r⟩
  | .bound l r => some ⟨.committed, l, r⟩
  | .idle | .filtered _ _ => none

/-- The leaf and request of a pod that has been filtered. -/
def Phase.request : Phase → Option (String × Resource ℤ)
  | .filtered l r | .reserved l r | .cleared l r | .bound l r => some (l, r)
  | .idle => none

def Phase.share (ix : Index ℤ) (n d : String) : Phase → ℤ
  | .cleared l r | .bound l r => if Charges ix l n then get r d else 0
  | .idle | .filtered _ _ | .reserved _ _ => 0

structure Inv (t₀ : QueueManager ℤ) (s : Cycles) : Prop where
  balanced : Balanced s.engine
  tree : ∃ t, s.engine.tree = some t ∧ t.index = t₀.index
  booking : ∀ uid, s.engine.book.lookup uid = (s.phase uid).booking
  valid : ∀ uid l r, (s.phase uid).request = some (l, r) →
    t₀.isLeafPath l = true ∧ ∀ d, 0 ≤ get r d
  holds : ∀ t, s.engine.tree = some t → ∀ g x, t.gangs.lookup g = some x → ∀ d, 0 ≤ get x.held d
  capped : ∀ t, s.engine.tree = some t → ∀ p n, t.index.lookup p = some n → ∀ d ∈ n.max.keys,
    passedDemand s t.index p d + holdDemand t p d ≤ get n.max d

lemma share_eq_weight {s : Cycles} {uid : String}
    (h : s.engine.book.lookup uid = (s.phase uid).booking) (ix : Index ℤ) (n d : String) :
    (s.engine.book.lookup uid).elim 0 (passedWeight s ix n d uid) =
      (s.phase uid).share ix n d := by
  rw [h]
  cases hp : s.phase uid <;>
    simp [Phase.booking, Phase.share, passedWeight, Phase.isCleared, hp]

lemma passedDemand_step {s s' : Cycles} {uid : String}
    (h : s.engine.book.lookup uid = (s.phase uid).booking)
    (h' : s'.engine.book.lookup uid = (s'.phase uid).booking)
    (hbook : ∀ j, j ≠ uid → s'.engine.book.lookup j = s.engine.book.lookup j)
    (hphase : ∀ j, j ≠ uid → s'.phase j = s.phase j) (ix : Index ℤ) (n d : String) :
    (s.phase uid).share ix n d + passedDemand s' ix n d =
      (s'.phase uid).share ix n d + passedDemand s ix n d := by
  rw [← share_eq_weight h, ← share_eq_weight h']
  refine total_update uid hbook fun j rec hj => ?_
  rw [passedWeight, passedWeight, hphase j hj]

lemma request_of_booking {ph : Phase} {rec : BookRec ℤ} (h : ph.booking = some rec) :
    ph.request = some (rec.leaf, rec.req) := by
  cases ph <;> simp_all [Phase.booking, Phase.request] <;> (subst h; simp)

lemma Inv.req_nonneg {t₀ : QueueManager ℤ} {s : Cycles} (h : Inv t₀ s) {uid : String}
    {rec : BookRec ℤ} (hrec : s.engine.book.lookup uid = some rec) (d : String) :
    0 ≤ get rec.req d := by
  rw [h.booking] at hrec
  exact (h.valid uid _ _ (request_of_booking hrec)).2 d

lemma passedDemand_le {s : Cycles}
    (h : ∀ uid rec, s.engine.book.lookup uid = some rec → ∀ d, 0 ≤ get rec.req d)
    (ix : Index ℤ) (n d : String) : passedDemand s ix n d ≤ podDemand ix s.engine.book n d := by
  refine total_le_total _ fun uid rec hrec => ?_
  have hnn := h uid rec hrec d
  rw [passedWeight]
  split_ifs with h1 h2
  · exact le_rfl
  · exact absurd h1.2 h2
  · exact hnn
  · exact le_rfl

lemma Inv.share_nonneg {t₀ : QueueManager ℤ} {s : Cycles} (h : Inv t₀ s) (uid : String)
    (ix : Index ℤ) (n d : String) : 0 ≤ (s.phase uid).share ix n d := by
  have hreq := h.valid uid
  cases hp : s.phase uid with
  | cleared l r | bound l r =>
    rw [hp] at hreq
    rw [Phase.share]
    split_ifs
    · exact (hreq l r rfl).2 d
    · exact le_rfl
  | _ => exact le_rfl

lemma effect_book_off {s : Cycles} {a : Action} {uid : String} (ha : a.pod = some uid) {j : String}
    (hj : j ≠ uid) : (a.effect s).book.lookup j = s.engine.book.lookup j := by
  cases a with
  | preFilter u l r | preBind u => rfl
  | reserve u =>
    cases ha
    rw [Action.effect]
    split
    · unfold Engine.reserve
      repeat' split
      all_goals first | rfl | exact Finmap.lookup_insert_of_ne _ hj
    · rfl
  | unreserve u =>
    cases ha
    rw [Action.effect, Engine.unreserve]
    repeat' split
    all_goals first | rfl | exact Finmap.lookup_erase_ne hj
  | postBind u =>
    cases ha
    rw [Action.effect, Engine.commit]
    repeat' split
    all_goals first | rfl | exact Finmap.lookup_insert_of_ne _ hj
  | observeBound u l r =>
    cases ha
    rw [Action.effect, Engine.observeBound]
    repeat' split
    all_goals first | rfl | exact Finmap.lookup_insert_of_ne _ hj
  | delete u =>
    cases ha
    rw [Action.effect, Engine.observeDeleted]
    split
    · rfl
    · exact Finmap.lookup_erase_ne hj
  | admitGang _ _ _ | admitGangWW _ _ _ _ _ | releaseGang _ => cases ha

lemma effect_book_at {t₀ : QueueManager ℤ} {s : Cycles} {a : Action} {uid : String} (h : Inv t₀ s)
    (he : Enabled s a) (ha : a.pod = some uid) :
    (a.effect s).book.lookup uid = ((s.phase uid).after a).booking := by
  have hb := h.booking uid
  obtain ⟨t, ht, hix⟩ := h.tree
  cases a with
  | preFilter u l r =>
    cases ha
    rcases he.2 with hp | ⟨l', r', hp⟩
    · rw [hp] at hb
      exact hb
    · rw [hp] at hb
      exact hb
  | reserve u =>
    cases ha
    obtain ⟨l, r, hp⟩ := he
    have hvalid := h.valid uid l r (by rw [hp]; rfl)
    rw [hp] at hb ⊢
    rw [Action.effect, hp]
    rw [← isLeafPath_congr hix] at hvalid
    dsimp only
    rw [reserve_booked r hb ht hvalid.1]
    exact Finmap.lookup_insert _
  | preBind u =>
    cases ha
    obtain ⟨l, r, _, hp, _⟩ := he
    rw [hp] at hb ⊢
    exact hb
  | unreserve u =>
    cases ha
    obtain ⟨l, r, hp⟩ := he
    have hrec : s.engine.book.lookup uid = some ⟨.reserved, l, r⟩ := by
      rcases hp with hp | hp <;> (rw [hp] at hb; exact hb)
    rw [Action.effect, Engine.unreserve, hrec]
    exact Finmap.lookup_erase uid _
  | postBind u =>
    cases ha
    obtain ⟨l, r, hp | hp⟩ := he
    · rw [hp] at hb ⊢
      rw [Action.effect, Engine.commit, hb]
      exact Finmap.lookup_insert _
    · rw [hp] at hb ⊢
      rw [Action.effect, Engine.commit, hb]
      exact hb
  | observeBound u l' r' =>
    cases ha
    obtain ⟨l, r, hp | hp⟩ := he
    · rw [hp] at hb ⊢
      rw [Action.effect, Engine.observeBound, ht, hb]
      exact Finmap.lookup_insert _
    · rw [hp] at hb ⊢
      rw [Action.effect, Engine.observeBound, ht, hb]
      exact hb
  | delete u =>
    cases ha
    obtain ⟨l, r, hp⟩ := he
    rw [hp] at hb ⊢
    rw [Action.effect, Engine.observeDeleted, hb]
    exact Finmap.lookup_erase uid _
  | admitGang _ _ _ | admitGangWW _ _ _ _ _ | releaseGang _ => cases ha

lemma effect_sameGangs {s : Cycles} {a : Action} {uid : String} (ha : a.pod = some uid) :
    SameGangs s.engine (a.effect s) := by
  cases a with
  | preFilter u l r | preBind u => exact .refl _
  | reserve u =>
    rw [Action.effect]
    split
    · exact sameGangs_reserve _ _ _ _
    · exact .refl _
  | unreserve u => exact sameGangs_unreserve _ _
  | postBind u => exact sameGangs_commit _ _
  | observeBound u l r => exact sameGangs_observeBound _ _ _ _
  | delete u => exact sameGangs_observeDeleted _ _
  | admitGang _ _ _ | admitGangWW _ _ _ _ _ | releaseGang _ => cases ha

lemma effect_balanced {s : Cycles} (h : Balanced s.engine) (a : Action) :
    Balanced (a.effect s) := by
  cases a with
  | preFilter u l r | preBind u => exact h
  | reserve u =>
    rw [Action.effect]
    split
    · exact balanced_reserve h _ _ _
    · exact h
  | unreserve u => exact balanced_unreserve h u
  | postBind u => exact balanced_commit h u
  | observeBound u l r => exact balanced_observeBound h u l r
  | delete u => exact balanced_observeDeleted h u
  | admitGang l k r => exact balanced_admitStep h (admitGang_book _ _ _ _) (admitGang_step _ _ _ _)
  | admitGangWW l k r w now =>
    exact balanced_admitStep h (admitGangWW_book _ _ _ _ _ _) (admitGangWW_step _ _ _ _ _ _)
  | releaseGang k => exact balanced_releaseGang h k

lemma share_after_le {t₀ : QueueManager ℤ} {s : Cycles} {a : Action} {uid : String} (h : Inv t₀ s)
    (he : Enabled s a) (ha : a.pod = some uid) (hb : a ≠ .preBind uid) (ix : Index ℤ)
    (n d : String) : ((s.phase uid).after a).share ix n d ≤ (s.phase uid).share ix n d := by
  have hnn := h.share_nonneg uid ix n d
  cases a with
  | preFilter u l r | unreserve u | delete u => exact hnn
  | reserve u =>
    cases ha
    obtain ⟨l, r, hp⟩ := he
    rw [hp]
    exact le_rfl
  | preBind u =>
    cases ha
    exact absurd rfl hb
  | postBind u | observeBound u _ _ =>
    cases ha
    obtain ⟨l, r, hp | hp⟩ := he <;> (rw [hp]; exact le_rfl)
  | admitGang _ _ _ | admitGangWW _ _ _ _ _ | releaseGang _ => cases ha

lemma valid_after {t₀ : QueueManager ℤ} {s : Cycles} {a : Action} {uid : String} (h : Inv t₀ s)
    (he : Enabled s a) (ha : a.pod = some uid) {l : String} {r : Resource ℤ}
    (hr : ((s.phase uid).after a).request = some (l, r)) :
    t₀.isLeafPath l = true ∧ ∀ d, 0 ≤ get r d := by
  have hold := h.valid uid
  cases a with
  | preFilter u l' r' =>
    cases hr
    obtain ⟨t, ht, hleaf, _⟩ := he.1.fits
    obtain ⟨t', ht', hix⟩ := h.tree
    rw [ht] at ht'
    cases ht'
    exact ⟨isLeafPath_congr hix l ▸ hleaf, he.1.nonneg⟩
  | reserve u =>
    cases ha
    obtain ⟨_, _, hp⟩ := he
    rw [hp] at hold hr
    exact hold l r hr
  | preBind u =>
    cases ha
    obtain ⟨_, _, _, hp, _⟩ := he
    rw [hp] at hold hr
    exact hold l r hr
  | postBind u | observeBound u _ _ =>
    cases ha
    obtain ⟨_, _, hp | hp⟩ := he <;> (rw [hp] at hold hr; exact hold l r hr)
  | unreserve u | delete u => cases hr
  | admitGang _ _ _ | admitGangWW _ _ _ _ _ | releaseGang _ => cases ha

lemma used_le_of_withinMax {t : QueueManager ℤ} {leaf p : String} {n : Queue ℤ}
    (h : t.withinMax leaf = .ok true) (hp : t.index.lookup p = some n) (hup : p ∈ t.up leaf)
    {d : String} (hd : d ∈ n.max.keys) : get (t.used p) d ≤ get n.max d := by
  rw [QueueManager.withinMax] at h
  split at h
  · cases h
  · obtain ⟨n', hn', he⟩ := List.mem_map.mp hup
    have hsame := lookup_of_mem_pathUp t.wf.toShape hn'
    rw [he, hp] at hsame
    cases hsame
    have hall := List.all_eq_true.mp (Except.ok.inj h) n hn'
    rw [decide_eq_true_eq, he] at hall
    exact not_lt.mp (hall d hd)

lemma holdDemand_congr {t t' : QueueManager ℤ} (h : skeleton t' = skeleton t) (n d : String) :
    holdDemand t' n d = holdDemand t n d := by
  obtain ⟨hi, hg⟩ := Prod.ext_iff.mp h
  change t'.index = t.index at hi
  change t'.gangs = t.gangs at hg
  rw [holdDemand, holdDemand, hi, hg]

lemma phase_step_of_ne {s : Cycles} {a : Action} {uid j : String} (ha : a.pod = some uid)
    (hj : j ≠ uid) : (step s a).phase j = s.phase j :=
  if_neg fun hp => hj (Option.some.inj (hp.symm.trans ha))

lemma phase_step_self {s : Cycles} {a : Action} {uid : String} (ha : a.pod = some uid) :
    (step s a).phase uid = (s.phase uid).after a := if_pos ha

lemma booking_step {t₀ : QueueManager ℤ} {s : Cycles} {a : Action} {uid : String} (h : Inv t₀ s)
    (he : Enabled s a) (ha : a.pod = some uid) (j : String) :
    (step s a).engine.book.lookup j = ((step s a).phase j).booking := by
  by_cases hj : j = uid
  · rw [hj, phase_step_self ha]
    exact effect_book_at h he ha
  · rw [phase_step_of_ne ha hj]
    exact (effect_book_off ha hj).trans (h.booking j)

lemma valid_step {t₀ : QueueManager ℤ} {s : Cycles} {a : Action} {uid : String} (h : Inv t₀ s)
    (he : Enabled s a) (ha : a.pod = some uid) (j l : String) (r : Resource ℤ)
    (hr : ((step s a).phase j).request = some (l, r)) :
    t₀.isLeafPath l = true ∧ ∀ d, 0 ≤ get r d := by
  by_cases hj : j = uid
  · rw [hj, phase_step_self ha] at hr
    exact valid_after h he ha hr
  · rw [phase_step_of_ne ha hj] at hr
    exact h.valid j l r hr

/-- A pod that passes does not push the passed pods over a maximum: `PreBind` has checked the
whole used vector, and every other step lowers its share. -/
lemma capped_step {t₀ t : QueueManager ℤ} {s : Cycles} {a : Action} {uid : String} (h : Inv t₀ s)
    (he : Enabled s a) (ha : a.pod = some uid) (ht : s.engine.tree = some t) {p : String}
    {n : Queue ℤ} (hp : t.index.lookup p = some n) {d : String} (hd : d ∈ n.max.keys) :
    passedDemand (step s a) t.index p d + holdDemand t p d ≤ get n.max d := by
  have hcap := h.capped t ht p n hp d hd
  have htrade : (s.phase uid).share t.index p d + passedDemand (step s a) t.index p d =
      ((s.phase uid).after a).share t.index p d + passedDemand s t.index p d := by
    rw [← phase_step_self ha]
    exact passedDemand_step (h.booking uid) (booking_step h he ha uid)
      (fun j hj => effect_book_off ha hj) (fun j hj => phase_step_of_ne ha hj) t.index p d
  by_cases hb : a = .preBind uid
  · subst hb
    obtain ⟨l, r, x, hphase, hx, hwithin⟩ := he
    cases ht.symm.trans hx
    by_cases hc : p ∈ t.up l
    · -- the queue was just checked, with everything booked below it
      have hused := used_le_of_withinMax hwithin hp hc hd
      rw [(h.balanced t ht).used] at hused
      have hle : passedDemand (step s (.preBind uid)) t.index p d ≤
          podDemand t.index s.engine.book p d :=
        passedDemand_le (s := step s (.preBind uid)) (fun _ _ hrec => h.req_nonneg hrec) _ _ _
      omega
    · have hzero : ((s.phase uid).after (.preBind uid)).share t.index p d = 0 := by
        rw [hphase]
        exact if_neg fun hch => hc hch.2
      have hnn := h.share_nonneg uid t.index p d
      omega
  · have hle := share_after_le h he ha hb t.index p d
    omega

lemma inv_pod {t₀ : QueueManager ℤ} {s : Cycles} {a : Action} {uid : String} (h : Inv t₀ s)
    (he : Enabled s a) (ha : a.pod = some uid) : Inv t₀ (step s a) := by
  obtain ⟨t, ht, hix⟩ := h.tree
  have htree : ∃ t', (a.effect s).tree = some t' ∧ skeleton t' = skeleton t := by
    have hs := (effect_sameGangs (s := s) ha).tree
    rw [ht] at hs
    exact Option.map_eq_some_iff.mp hs
  obtain ⟨t', ht', hskel⟩ := htree
  have hix' : t'.index = t.index := congrArg Prod.fst hskel
  have hgs' : t'.gangs = t.gangs := congrArg Prod.snd hskel
  refine ⟨effect_balanced h.balanced a, ⟨t', ht', hix'.trans hix⟩, booking_step h he ha,
    valid_step h he ha, ?_, ?_⟩
  · intro t'' ht'' g x hx
    rw [show (step s a).engine.tree = some t' from ht'] at ht''
    cases ht''
    rw [hgs'] at hx
    exact h.holds t ht g x hx
  · intro t'' ht'' p n hp d hd
    rw [show (step s a).engine.tree = some t' from ht'] at ht''
    cases ht''
    rw [hix'] at hp
    rw [holdDemand_congr hskel, hix']
    exact capped_step h he ha ht hp hd

lemma passedDemand_congr {s s' : Cycles} (hbook : s'.engine.book = s.engine.book)
    (hphase : s'.phase = s.phase) (ix : Index ℤ) (n d : String) :
    passedDemand s' ix n d = passedDemand s ix n d := by
  rw [passedDemand, passedDemand, hbook]
  unfold passedWeight
  rw [hphase]

lemma inv_gangs {t₀ : QueueManager ℤ} {s s' : Cycles} {t' : QueueManager ℤ} (h : Inv t₀ s)
    (hbook : s'.engine.book = s.engine.book) (hphase : s'.phase = s.phase)
    (hbal : Balanced s'.engine) (ht' : s'.engine.tree = some t') (hix : t'.index = t₀.index)
    (hholds : ∀ g x, t'.gangs.lookup g = some x → ∀ d, 0 ≤ get x.held d)
    (hcap : ∀ p n, t'.index.lookup p = some n → ∀ d ∈ n.max.keys,
      passedDemand s t'.index p d + holdDemand t' p d ≤ get n.max d) : Inv t₀ s' := by
  refine ⟨hbal, ⟨t', ht', hix⟩, ?_, ?_, ?_, ?_⟩
  · rw [hbook, hphase]
    exact h.booking
  · rw [hphase]
    exact h.valid
  · intro t'' ht''
    cases ht'.symm.trans ht''
    exact hholds
  · intro t'' ht''
    cases ht'.symm.trans ht''
    simp only [passedDemand_congr hbook hphase]
    exact hcap

lemma inv_admitStep {t₀ : QueueManager ℤ} {s s' : Cycles} {leaf key : String} {minRes : Resource ℤ}
    (h : Inv t₀ s) (hbook : s'.engine.book = s.engine.book) (hphase : s'.phase = s.phase)
    (hbal : Balanced s'.engine) (hstep : AdmitStep s.engine s'.engine leaf key minRes) :
    Inv t₀ s' := by
  obtain ⟨t, ht, hix⟩ := h.tree
  rcases hstep with ⟨tree, _⟩ | ⟨x, tree, _, admits, tree', _⟩ | ⟨x, tree, _, _, tree', _⟩
  · exact inv_gangs h hbook hphase hbal (tree.trans ht) hix (h.holds t ht) (h.capped t ht)
  · cases ht.symm.trans tree
    refine inv_gangs h hbook hphase hbal tree' hix (fun g x hx d => ?_) fun p n hp d hd => ?_
    · rcases lookup_insert_cases hx with ⟨-, rfl⟩ | ⟨-, hx⟩
      · exact get_nonneg_of_strictlyGtZero admits.positive d
      · exact h.holds t ht g x hx d
    · have hcap := h.capped t ht p n hp d hd
      have hnew : holdDemand (admitted t leaf key minRes) p d =
          (if Charges t.index leaf p then get minRes d else 0) + holdDemand t p d :=
        total_insert (Finmap.lookup_eq_none.mpr admits.fresh) _ _
      have hle := passedDemand_le (fun _ _ hrec => h.req_nonneg hrec) t.index p d
      have hused := (h.balanced t ht).used p d
      change passedDemand s t.index p d + _ ≤ _
      rw [hnew]
      split_ifs with hc
      · by_cases hk : d ∈ minRes.keys
        · have hfits := used_add_le_of_fits admits.fits hp hc.2 hk hd
          omega
        · rw [get_of_notMem hk]
          omega
      · omega
  · cases ht.symm.trans tree
    exact inv_gangs h hbook hphase hbal tree' hix (h.holds t ht) (h.capped t ht)

lemma inv_releaseGang {t₀ : QueueManager ℤ} {s : Cycles} (h : Inv t₀ s) (key : String) :
    Inv t₀ (step s (.releaseGang key)) := by
  obtain ⟨t, ht, hix⟩ := h.tree
  have hbal := effect_balanced h.balanced (.releaseGang key)
  have hbook : (step s (.releaseGang key)).engine.book = s.engine.book := releaseGang_book _ key
  by_cases hk : key ∈ s.engine.gangBook
  · have ht' : (step s (.releaseGang key)).engine.tree = some (t.releaseGang key) := by
      change (s.engine.releaseGang key).tree = _
      rw [Engine.releaseGang, if_pos hk, ht]
      rfl
    have hidx := releaseGang_index t key
    refine inv_gangs h hbook rfl hbal ht' (hidx.trans hix) (fun g x hx d => ?_)
      fun p n hp d hd => ?_
    · rw [releaseGang_gangs] at hx
      exact h.holds t ht g x (lookup_of_erase hx) d
    · rw [hidx] at hp ⊢
      have hcap := h.capped t ht p n hp d hd
      have hle : holdDemand (t.releaseGang key) p d ≤ holdDemand t p d := by
        rw [holdDemand, releaseGang_gangs, releaseGang_index]
        refine total_erase_le key fun g x hx => ?_
        split_ifs
        · exact h.holds t ht g x hx d
        · exact le_rfl
      omega
  · have ht' : (step s (.releaseGang key)).engine.tree = some t := by
      change (s.engine.releaseGang key).tree = _
      rw [Engine.releaseGang, if_neg hk, ht]
    exact inv_gangs h hbook rfl hbal ht' hix (h.holds t ht) (h.capped t ht)

lemma inv_step {t₀ : QueueManager ℤ} {s : Cycles} {a : Action} (h : Inv t₀ s) (he : Enabled s a) :
    Inv t₀ (step s a) := by
  cases a with
  | preFilter uid l r | reserve uid | preBind uid | unreserve uid | postBind uid
  | observeBound uid l r | delete uid => exact inv_pod h he rfl
  | admitGang l k r =>
    exact inv_admitStep h (admitGang_book _ _ _ _) rfl
      (effect_balanced h.balanced (.admitGang l k r))
      (admitGang_step _ _ _ _)
  | admitGangWW l k r w now =>
    exact inv_admitStep h (admitGangWW_book _ _ _ _ _ _) rfl
      (effect_balanced h.balanced (.admitGangWW l k r w now)) (admitGangWW_step _ _ _ _ _ _)
  | releaseGang k => exact inv_releaseGang h k

lemma inv_start {t₀ : QueueManager ℤ} (h : Fresh t₀) (timeout : ℤ) : Inv t₀ (start timeout t₀) := by
  refine ⟨balanced_engineOn h timeout, ⟨t₀, rfl, rfl⟩, fun uid => rfl, fun uid l r hr => ?_, ?_, ?_⟩
  · cases hr
  · rintro t ⟨⟩ g x hx
    rw [h.gangs] at hx
    cases hx
  · rintro t ⟨⟩ p n hp d _
    have hhold : holdDemand t₀ p d = 0 := by rw [holdDemand, h.gangs, total_empty]
    have hpass : passedDemand (start timeout t₀) t₀.index p d = 0 := total_empty _
    rw [hhold, hpass]
    exact t₀.wf.max_nonneg hp d

/-- At every moment of every interleaving, the pods under a queue that have passed
`PreBind` or are committed, and the gangs held under it, stay within its maximum. The
segments of different pods from `PreFilter` to `Reserve` may overlap. -/
theorem passed_pods_within_max {spec : Spec ℤ} {t₀ : QueueManager ℤ}
    (hspec : newManager spec = .ok t₀) {timeout : ℤ} {actions : List Action} {s : Cycles}
    (h : Run cycles (start timeout t₀) actions s) {t : QueueManager ℤ}
    (ht : s.engine.tree = some t) {p : String} {n : Queue ℤ} (hp : t.index.lookup p = some n)
    {d : String} (hd : d ∈ n.max.keys) :
    passedDemand s t.index p d + holdDemand t p d ≤ get n.max d :=
  (h.invariant (inv_start (newManager_fresh hspec) timeout) fun _ _ hi he => inv_step hi he).capped
    t ht p n hp d hd

theorem gang_between_filter_and_reserve :
    let t₀ := treeOf (twoLeaves 10 4) (by decide)
    let actions : List Action :=
      [.preFilter "uid" "root.a" (Finmap.singleton "cpu" 2),
        .admitGang "root.a" "ns/g" (Finmap.singleton "cpu" 2),
        .reserve "uid", .preBind "uid", .postBind "uid"]
    let s := actions.foldl step (start 60 t₀)
    ∃ t n, s.engine.tree = some t ∧ t.index.lookup "root.a" = some n ∧ "cpu" ∈ n.max.keys ∧
      passedDemand s t.index "root.a" "cpu" = 2 ∧ holdDemand t "root.a" "cpu" = 2 ∧
      passedDemand s t.index "root.a" "cpu" + holdDemand t "root.a" "cpu" ≤ get n.max "cpu" := by
  intro t₀ actions s
  have hrun : Run cycles (start 60 t₀) actions s := by
    apply Machine.Legal.run
    refine ⟨⟨⟨get_nonneg_of_strictlyGtZero (by decide), t₀, rfl, by decide +kernel, ?_⟩, .inl rfl⟩,
      trivial, ⟨_, _, rfl⟩, ⟨_, _, _, rfl, rfl, ?_⟩, ⟨_, _, .inl rfl⟩, trivial⟩
    · decide +kernel
    · decide +kernel
  have hfacts : (s.engine.tree.elim false fun t => (t.index.lookup "root.a").elim false fun n =>
      decide ("cpu" ∈ n.max.keys ∧ passedDemand s t.index "root.a" "cpu" = 2 ∧
        holdDemand t "root.a" "cpu" = 2)) = true := by decide +kernel
  cases ht : s.engine.tree with
  | none => simp [ht] at hfacts
  | some t =>
    cases hn : t.index.lookup "root.a" with
    | none => simp [ht, hn] at hfacts
    | some n =>
      simp only [ht, hn, Option.elim_some, decide_eq_true_eq] at hfacts
      obtain ⟨hd, hpass, hhold⟩ := hfacts
      exact ⟨t, n, rfl, hn, hd, hpass, hhold, passed_pods_within_max
        (newManager_treeOf (twoLeaves 10 4) (by decide)) hrun ht hn hd⟩

end AdScheduler.BindSafety
