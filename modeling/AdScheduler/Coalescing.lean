import AdScheduler.Runs

/-! A worker that computes something from a source that changes under it. A change leaves
notices behind; a notice that counts raises a flag when it is delivered, and the worker
lowers the flag before it reads. One reading may serve many notices. -/
namespace AdScheduler.Coalescing
open Runs

inductive Phase (X : Type*)
  | idle
  | armed
  | holding (x : X)

/-- The source, the notices on their way, and the worker with what it last used. -/
structure Watch (S X N : Type*) where
  source : S
  notices : List N
  flag : Bool
  phase : Phase X
  used : Option X

/-- A flag is also raised for other reasons (`poke`), and lowered once more while the worker
is about to read (`lower`). -/
inductive Step (S N : Type*)
  | change (source : S) (notices : List N)
  | deliver
  | poke
  | arm
  | lower
  | read
  | finish

section Watch
variable {S X N : Type*} (view : S → X) (counts : N → Bool)

def Watch.next (w : Watch S X N) : Step S N → Watch S X N
  | .change source notices => { w with source := source, notices := w.notices ++ notices }
  | .deliver => { w with flag := w.flag || w.notices.head?.any counts, notices := w.notices.tail }
  | .poke => { w with flag := true }
  | .arm => { w with flag := false, phase := .armed }
  | .lower => { w with flag := false }
  | .read => { w with phase := .holding (view w.source) }
  | .finish =>
    match w.phase with
    | .holding x => { w with phase := .idle, used := some x }
    | _ => w

/-- A change that the worker would see leaves a notice that counts. -/
def Watch.Enabled (w : Watch S X N) : Step S N → Prop
  | .change source notices => view source ≠ view w.source → ∃ n ∈ notices, counts n = true
  | .arm => w.phase = .idle
  | .lower | .read => w.phase = .armed
  | _ => True

def watch : Machine (Watch S X N) (Step S N) := ⟨Watch.Enabled view counts, Watch.next view counts⟩

/-- The worker has used the source as it is, or is going to read it, or will be told to. -/
inductive Told (w : Watch S X N) : Prop
  | noticed {n : N} (mem : n ∈ w.notices) (counts : counts n = true)
  | raised (flag : w.flag = true)
  | armed (phase : w.phase = .armed)
  | holding (phase : w.phase = .holding (view w.source))
  | current (phase : w.phase = .idle) (used : w.used = some (view w.source))

variable {view counts} {w w' : Watch S X N}

lemma Told.change (h : Told view counts w) {source : S} {notices : List N}
    (he : view source ≠ view w.source → ∃ n ∈ notices, counts n = true) :
    Told view counts { w with source := source, notices := w.notices ++ notices } := by
  by_cases hview : view source = view w.source
  · cases h with
    | noticed mem hc => exact .noticed (List.mem_append_left _ mem) hc
    | raised flag => exact .raised flag
    | armed phase => exact .armed phase
    | holding phase => exact .holding (by simp [hview, phase])
    | current phase used => exact .current phase (by simp [hview, used])
  · obtain ⟨n, hn, hc⟩ := he hview
    exact .noticed (List.mem_append_right _ hn) hc

lemma Told.deliver (h : Told view counts w) :
    Told view counts
      { w with flag := w.flag || w.notices.head?.any counts, notices := w.notices.tail } := by
  cases h with
  | noticed mem hc =>
    cases hn : w.notices with
    | nil => simp [hn] at mem
    | cons first rest =>
      rw [hn, List.mem_cons] at mem
      rcases mem with rfl | mem
      · exact .raised (by simp [hc])
      · exact .noticed mem hc
  | raised flag => exact .raised (by simp [flag])
  | armed phase => exact .armed phase
  | holding phase => exact .holding phase
  | current phase used => exact .current phase used

lemma Told.finish (h : Told view counts w) : Told view counts (w.next view counts .finish) := by
  unfold Watch.next
  cases hp : w.phase with
  | idle => exact h
  | armed => exact h
  | holding x =>
    cases h with
    | noticed mem hc => exact .noticed mem hc
    | raised flag => exact .raised flag
    | armed phase => simp [hp] at phase
    | current phase => simp [hp] at phase
    | holding phase =>
      rw [hp, Phase.holding.injEq] at phase
      exact .current rfl (by simp [phase])

lemma told_step {a : Step S N} (h : Told view counts w) (he : (watch view counts).enabled w a) :
    Told view counts ((watch view counts).next w a) := by
  cases a with
  | change source notices => exact h.change he
  | deliver => exact h.deliver
  | poke => exact .raised rfl
  | arm => exact .armed rfl
  | lower => exact .armed he
  | read => exact .holding rfl
  | finish => exact h.finish

/-- Once nothing is on its way and the flag is down, an idle worker has used the source as
it is. -/
theorem used_eq_view (h0 : Told view counts w) (h : (watch view counts).Reaches w w')
    (hidle : w'.phase = .idle) (hflag : w'.flag = false)
    (hnone : ∀ n ∈ w'.notices, counts n = false) : w'.used = some (view w'.source) := by
  obtain ⟨as, has⟩ := h
  have htold : Told view counts w' := has.invariant h0 fun _ _ => told_step
  cases htold with
  | noticed mem hc => simp [hnone _ mem] at hc
  | raised flag => simp [hflag] at flag
  | armed phase => simp [hidle] at phase
  | holding phase => simp [hidle] at phase
  | current _ used => exact used

end Watch

end AdScheduler.Coalescing
