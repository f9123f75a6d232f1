import AdScheduler.Cel
import AdScheduler.TreeAssembly

/-! The admission policy for queues against the check of the engine, after
`pkg/admission/rules.go` and `deploy/admission.yaml`. The policy reads the object as it is
stored, where a field can be absent; the engine reads it decoded, where an absent field has
the zero value of its type. -/
namespace AdScheduler.QueuePolicy
open KeyedMap Resources Requests TreeAssembly Cel

structure StoredSpec (V : Type*) where
  parent : Option String
  capacityMode : Option String
  guaranteed : Option (ResourceList V)
  max : Option (ResourceList V)
  preemption : Option (Option String)
  maxApplications : Option ℤ
  submitACL : Option String
  adminACL : Option String
  serviceAccounts : Option (List String)
  default : Option Bool
  limits : Option (List (QueueLimit V))

structure StoredQueue (V : Type*) where
  ns : String
  name : String
  spec : Option (StoredSpec V)

variable {V : Type*}

def emptySpec : StoredSpec V :=
  ⟨none, none, none, none, none, none, none, none, none, none, none⟩

def decodeSpec (ns name : String) (s : StoredSpec V) : QueueCR V where
  ns := ns
  name := name
  parent := s.parent.getD ""
  capacityMode := s.capacityMode.getD ""
  guaranteed := s.guaranteed.getD ∅
  max := s.max.getD ∅
  preemptionPolicy := s.preemption.map fun policy => policy.getD ""
  maxApplications := s.maxApplications.getD 0
  submitACL := s.submitACL.getD ""
  adminACL := s.adminACL.getD ""
  serviceAccounts := s.serviceAccounts.getD []
  default := s.default.getD false
  limits := s.limits.getD []

def decode (q : StoredQueue V) : QueueCR V := decodeSpec q.ns q.name (q.spec.getD emptySpec)

section Policy

def specFields (s : StoredSpec V) : List (String × Value) :=
  (s.parent.map fun p => ("parent", .string p)).toList ++
    (s.capacityMode.map fun c => ("capacityMode", .string c)).toList ++
    (s.serviceAccounts.map fun l => ("serviceAccounts", .list (l.map .string))).toList

def objectOf (q : StoredQueue V) : Value :=
  .object (("metadata", .object [("name", .string q.name)]) ::
    (q.spec.map fun s => ("spec", .object (specFields s))).toList)

def env (q : StoredQueue V) : Env := [("object", objectOf q)]

def spec : Selection := ⟨"object", ["spec"]⟩

def specField (f : String) : Selection := ⟨"object", ["spec", f]⟩

/-- `object.spec.parent != object.metadata.name`, if there is a parent. -/
def selfParent : Expr :=
  .ifPresent spec "parent"
    (.ne (.select (specField "parent")) (.select ⟨"object", ["metadata", "name"]⟩))

/-- `!object.spec.parent.contains('.')`, if there is a parent. -/
def dottedParent : Expr :=
  .ifPresent spec "parent" (.not (.contains (.select (specField "parent")) (.literal ".")))

/-- `object.spec.capacityMode == 'absolute'`, if there is a mode. -/
def absoluteCapacity : Expr :=
  .ifPresent spec "capacityMode" (.eq (.select (specField "capacityMode")) (.literal "absolute"))

/-- `object.spec.serviceAccounts.all(sa, sa != 'default')`, if there is a list. -/
def noDefaultSA : Expr :=
  .ifPresent spec "serviceAccounts"
    (.all (specField "serviceAccounts") "sa" (.ne (.select ⟨"sa", []⟩) (.literal "default")))

/-- The validations of the policy, in the order of the rules. -/
def validations : List Expr := [selfParent, dottedParent, absoluteCapacity, noDefaultSA]

/-- The policy denies what a validation finds false and what it fails to evaluate. -/
def policyAccepts (q : StoredQueue V) : Bool :=
  validations.all fun e => decide (e.eval (env q) = some true)

end Policy

section Evaluation
variable {q : StoredQueue V} {s : StoredSpec V}

lemma lookup_parent (s : StoredSpec V) :
    (specFields s).lookup "parent" = s.parent.map .string := by
  unfold specFields
  cases s.parent <;> cases s.capacityMode <;> cases s.serviceAccounts <;> rfl

lemma lookup_capacityMode (s : StoredSpec V) :
    (specFields s).lookup "capacityMode" = s.capacityMode.map .string := by
  unfold specFields
  cases s.parent <;> cases s.capacityMode <;> cases s.serviceAccounts <;> rfl

lemma lookup_serviceAccounts (s : StoredSpec V) :
    (specFields s).lookup "serviceAccounts" =
      s.serviceAccounts.map fun l => .list (l.map .string) := by
  unfold specFields
  cases s.parent <;> cases s.capacityMode <;> cases s.serviceAccounts <;> rfl

lemma eval_spec (h : q.spec = some s) : spec.eval (env q) = some (.object (specFields s)) := by
  simp [spec, env, Selection.eval, objectOf, h, Value.field, List.lookup]

lemma eval_specField (h : q.spec = some s) (f : String) :
    (specField f).eval (env q) = (specFields s).lookup f := by
  simp [specField, env, Selection.eval, objectOf, h, Value.field, List.lookup]

lemma eval_name (q : StoredQueue V) :
    Selection.eval (env q) ⟨"object", ["metadata", "name"]⟩ = some (.string q.name) := by
  simp [env, Selection.eval, objectOf, Value.field, List.lookup]

lemma eval_selfParent (h : q.spec = some s) :
    selfParent.eval (env q) = some (s.parent.all fun p => decide (p ≠ q.name)) := by
  cases hp : s.parent with
  | none => exact eval_ifPresent_absent (eval_spec h) (by simp [lookup_parent, hp])
  | some p =>
    rw [selfParent, eval_ifPresent_present (eval_spec h) (by rw [lookup_parent, hp]; rfl)]
    simp [Expr.eval, Operand.eval, eval_specField h, lookup_parent, hp, eval_name, Value.asString]

lemma eval_dottedParent (h : q.spec = some s) :
    dottedParent.eval (env q) = some (s.parent.all fun p => decide ('.' ∉ p.toList)) := by
  cases hp : s.parent with
  | none => exact eval_ifPresent_absent (eval_spec h) (by simp [lookup_parent, hp])
  | some p =>
    have hdot : ".".toList = ['.'] := rfl
    rw [dottedParent, eval_ifPresent_present (eval_spec h) (by rw [lookup_parent, hp]; rfl)]
    simp [Expr.eval, Operand.eval, eval_specField h, lookup_parent, hp, Value.asString, hdot,
      List.singleton_infix_iff]

lemma eval_absoluteCapacity (h : q.spec = some s) :
    absoluteCapacity.eval (env q) = some (s.capacityMode.all fun c => decide (c = "absolute")) := by
  cases hc : s.capacityMode with
  | none => exact eval_ifPresent_absent (eval_spec h) (by simp [lookup_capacityMode, hc])
  | some c =>
    rw [absoluteCapacity,
      eval_ifPresent_present (eval_spec h) (by rw [lookup_capacityMode, hc]; rfl)]
    simp [Expr.eval, Operand.eval, eval_specField h, lookup_capacityMode, hc, Value.asString]

lemma eval_noDefaultSA (h : q.spec = some s) :
    noDefaultSA.eval (env q) =
      some (s.serviceAccounts.all fun l => l.all fun sa => decide (sa ≠ "default")) := by
  cases hl : s.serviceAccounts with
  | none => exact eval_ifPresent_absent (eval_spec h) (by simp [lookup_serviceAccounts, hl])
  | some l =>
    rw [noDefaultSA,
      eval_ifPresent_present (eval_spec h) (by rw [lookup_serviceAccounts, hl]; rfl)]
    simp only [Expr.eval, eval_specField h, lookup_serviceAccounts, hl, Option.map_some,
      Option.bind_some, Value.asList, Option.bind_eq_bind, List.foldr_map, Option.all_some]
    exact foldr_both_eq (fun sa => decide (sa ≠ "default")) l

end Evaluation

lemma validateQueue_ok_iff (cr : QueueCR V) :
    validateQueue cr = .ok () ↔ (cr.parent = "" ∨ cr.parent ≠ cr.name) ∧ '.' ∉ cr.parent.toList ∧
      (cr.capacityMode = "" ∨ cr.capacityMode = "absolute") ∧ "default" ∉ cr.serviceAccounts := by
  have hfind : validateQueue cr = .ok () ↔
      queueRules.find? (fun r => !r.valid cr) = none := by
    unfold validateQueue
    split <;> simp_all
  rw [hfind, List.find?_eq_none]
  simp [queueRules]

lemma policyAccepts_without_spec {q : StoredQueue V} (h : q.spec = none) :
    policyAccepts q = false := by
  have hspec : spec.eval (env q) = none := by
    simp [spec, env, Selection.eval, objectOf, h, Value.field, List.lookup]
  have hfirst : selfParent.eval (env q) = none := by
    refine eval_ifPresent_failed hspec ?_
    simp [Expr.eval, Operand.eval, specField, env, Selection.eval, objectOf, h, Value.field,
      List.lookup]
  simp [policyAccepts, validations, hfirst]

lemma policyAccepts_iff {q : StoredQueue V} {s : StoredSpec V} (h : q.spec = some s) :
    policyAccepts q = true ↔ (∀ p, s.parent = some p → p ≠ q.name ∧ '.' ∉ p.toList) ∧
      (∀ c, s.capacityMode = some c → c = "absolute") ∧
      ∀ l, s.serviceAccounts = some l → "default" ∉ l := by
  simp only [policyAccepts, validations, List.all_cons, List.all_nil, eval_selfParent h,
    eval_dottedParent h, eval_absoluteCapacity h, eval_noDefaultSA h]
  cases s.parent <;> cases s.capacityMode <;> cases s.serviceAccounts <;>
    simp [and_assoc, List.forall_mem_ne']

/-- A value that both the policy and the engine object to. -/
def Faulty (name : String) (s : StoredSpec V) : Prop :=
  (∃ p, s.parent = some p ∧ (p ≠ "" ∧ p = name ∨ '.' ∈ p.toList)) ∨
    (∃ c, s.capacityMode = some c ∧ c ≠ "" ∧ c ≠ "absolute") ∨
    ∃ l, s.serviceAccounts = some l ∧ "default" ∈ l

/-- There is a spec, and an empty capacity mode, or an empty parent of a queue without a
name, comes with a fault. -/
def Unambiguous (q : StoredQueue V) : Prop :=
  ∃ s, q.spec = some s ∧
    (s.capacityMode = some "" ∨ (s.parent = some "" ∧ q.name = "") → Faulty q.name s)

lemma validateQueue_decode_iff {q : StoredQueue V} {s : StoredSpec V} (h : q.spec = some s) :
    validateQueue (decode q) = .ok () ↔ ¬ Faulty q.name s := by
  have hparent : (s.parent.getD "" = "" ∨ s.parent.getD "" ≠ q.name) ∧
      '.' ∉ (s.parent.getD "").toList ↔
      ¬ ∃ p, s.parent = some p ∧ (p ≠ "" ∧ p = q.name ∨ '.' ∈ p.toList) := by
    cases s.parent with
    | none => simp
    | some p => simp [or_iff_not_imp_left]
  have hmode : s.capacityMode.getD "" = "" ∨ s.capacityMode.getD "" = "absolute" ↔
      ¬ ∃ c, s.capacityMode = some c ∧ c ≠ "" ∧ c ≠ "absolute" := by
    cases s.capacityMode with
    | none => simp
    | some c => simp [or_iff_not_imp_left]
  have hsas : "default" ∉ s.serviceAccounts.getD [] ↔
      ¬ ∃ l, s.serviceAccounts = some l ∧ "default" ∈ l := by
    cases s.serviceAccounts <;> simp
  rw [validateQueue_ok_iff]
  simp only [decode, h, Option.getD_some, decodeSpec, Faulty, not_or]
  rw [← and_assoc, hparent, hmode, hsas]

lemma policyAccepts_iff_not_faulty {q : StoredQueue V} {s : StoredSpec V} (h : q.spec = some s) :
    policyAccepts q = true ↔ ¬ Faulty q.name s ∧
      ¬ (s.capacityMode = some "" ∨ (s.parent = some "" ∧ q.name = "")) := by
  have hparent : (∀ p, s.parent = some p → p ≠ q.name ∧ '.' ∉ p.toList) ↔
      (¬ ∃ p, s.parent = some p ∧ (p ≠ "" ∧ p = q.name ∨ '.' ∈ p.toList)) ∧
        ¬ (s.parent = some "" ∧ q.name = "") := by
    cases s.parent with
    | none => simp
    | some p =>
      simp only [Option.some.injEq, forall_eq', exists_eq_left']
      by_cases hp : p = ""
      · simp [hp, @eq_comm _ "" q.name]
      · simp [hp]
  have hmode : (∀ c, s.capacityMode = some c → c = "absolute") ↔
      (¬ ∃ c, s.capacityMode = some c ∧ c ≠ "" ∧ c ≠ "absolute") ∧ s.capacityMode ≠ some "" := by
    cases s.capacityMode with
    | none => simp
    | some c =>
      by_cases hc : c = ""
      · simp [hc]
      · simp [hc]
  have hsas : (∀ l, s.serviceAccounts = some l → "default" ∉ l) ↔
      ¬ ∃ l, s.serviceAccounts = some l ∧ "default" ∈ l := by
    simp
  rw [policyAccepts_iff h, hparent, hmode, hsas, Faulty]
  simp only [not_or]
  tauto

/-- The engine takes all that the policy takes. It takes the same exactly where no empty
value stands in for an absent one. -/
theorem policy_agrees_iff (q : StoredQueue V) :
    (policyAccepts q = true → validateQueue (decode q) = .ok ()) ∧
      ((policyAccepts q = true ↔ validateQueue (decode q) = .ok ()) ↔ Unambiguous q) := by
  cases h : q.spec with
  | none =>
    have hengine : validateQueue (decode q) = .ok () := by
      rw [validateQueue_ok_iff]
      simp [decode, h, decodeSpec, emptySpec]
    simp [policyAccepts_without_spec h, hengine, Unambiguous, h]
  | some s =>
    rw [policyAccepts_iff_not_faulty h, validateQueue_decode_iff h]
    refine ⟨fun haccepts => haccepts.1, ?_⟩
    simp only [Unambiguous, h, Option.some.injEq, exists_eq_left']
    by_cases hfault : Faulty q.name s
    · simp [hfault]
    · simp [hfault]

/-- An empty capacity mode: the policy denies the queue, the engine takes it. -/
theorem empty_capacity_mode_disagrees :
    let q : StoredQueue ℤ := ⟨"team", "jobs", some { emptySpec with capacityMode := some "" }⟩
    policyAccepts q = false ∧ validateQueue (decode q) = .ok () := by
  intro q
  have haccepts := policyAccepts_iff (q := q) rfl
  refine ⟨?_, (validateQueue_ok_iff _).mpr (by decide)⟩
  rw [← Bool.not_eq_true, haccepts]
  intro h
  exact absurd (h.2.1 "" rfl) (by decide)

end AdScheduler.QueuePolicy
