import Mathlib

/-! A fragment of the Common Expression Language over stored objects: presence of a field,
equality and containment of strings, a check of every item of a list, negation and
disjunction. An evaluation that fails has no value; a disjunction forgives the failure of
one side where the other side is true, and `all` that of some items where another fails the
check. -/
namespace AdScheduler.Cel

inductive Value
  | string (s : String)
  | list (items : List Value)
  | object (fields : List (String × Value))

/-- A selection of fields, one after the other, from the object or from a variable. -/
structure Selection where
  base : String
  fields : List String

inductive Operand
  | select (s : Selection)
  | literal (s : String)

inductive Expr
  | has (s : Selection) (field : String)
  | eq (a b : Operand)
  | ne (a b : Operand)
  | contains (a b : Operand)
  | all (list : Selection) (name : String) (body : Expr)
  | not (e : Expr)
  | or (a b : Expr)

abbrev Env := List (String × Value)

namespace Value

def field (v : Value) (f : String) : Option Value :=
  match v with
  | .object fields => fields.lookup f
  | _ => none

def asString : Value → Option String
  | .string s => some s
  | _ => none

def asList : Value → Option (List Value)
  | .list items => some items
  | _ => none

end Value

def either : Option Bool → Option Bool → Option Bool
  | some true, _ => some true
  | _, some true => some true
  | some false, b => b
  | none, _ => none

def both : Option Bool → Option Bool → Option Bool
  | some false, _ => some false
  | _, some false => some false
  | some true, b => b
  | none, _ => none

def Selection.eval (env : Env) (s : Selection) : Option Value :=
  s.fields.foldl (fun v f => v.bind fun v => v.field f) (env.lookup s.base)

def Operand.eval (env : Env) : Operand → Option String
  | .select s => (s.eval env).bind Value.asString
  | .literal s => some s

def Expr.eval : Env → Expr → Option Bool
  | env, .has s f =>
    match s.eval env with
    | some (.object fields) => some (fields.lookup f).isSome
    | _ => none
  | env, .eq a b => do return decide ((← a.eval env) = (← b.eval env))
  | env, .ne a b => do return decide ((← a.eval env) ≠ (← b.eval env))
  | env, .contains a b => do return decide ((← b.eval env).toList <:+: (← a.eval env).toList)
  | env, .all s x body => do
    let items ← (s.eval env).bind Value.asList
    items.foldr (fun v rest => both (body.eval ((x, v) :: env)) rest) (some true)
  | env, .not e => (e.eval env).map Bool.not
  | env, .or a b => either (a.eval env) (b.eval env)

def Expr.ifPresent (s : Selection) (f : String) (body : Expr) : Expr := .or (.not (.has s f)) body

section Guards
variable {env : Env} {s : Selection} {f : String} {body : Expr} {fields : List (String × Value)}

lemma eval_ifPresent_absent (hs : s.eval env = some (.object fields))
    (hf : fields.lookup f = none) :
    (Expr.ifPresent s f body).eval env = some true := by
  simp [Expr.ifPresent, Expr.eval, hs, hf, either]

lemma eval_ifPresent_present {v : Value} (hs : s.eval env = some (.object fields))
    (hf : fields.lookup f = some v) :
    (Expr.ifPresent s f body).eval env = body.eval env := by
  simp only [Expr.ifPresent, Expr.eval, hs, hf, Option.isSome_some, Option.map_some, Bool.not_true]
  cases body.eval env with
  | none => rfl
  | some b => cases b <;> rfl

lemma eval_ifPresent_failed (hs : s.eval env = none) (hbody : body.eval env ≠ some true) :
    (Expr.ifPresent s f body).eval env = none := by
  simp only [Expr.ifPresent, Expr.eval, hs, Option.map_none]
  cases hb : body.eval env with
  | none => rfl
  | some b =>
    cases b with
    | false => rfl
    | true => exact absurd hb hbody

end Guards

lemma foldr_both_eq (p : String → Bool) (items : List String) :
    items.foldr (fun s rest => both (some (p s)) rest) (some true) = some (items.all p) := by
  induction items with
  | nil => rfl
  | cons s rest ih =>
    rw [List.foldr_cons, ih, List.all_cons]
    cases p s <;> cases rest.all p <;> rfl

section Connectives
variable {a b : Option Bool}

lemma true_both (b : Option Bool) : both (some true) b = b := by
  rcases b with _ | _ | _ <;> rfl

lemma both_eq_true : both a b = some true ↔ a = some true ∧ b = some true := by
  rcases a with _ | _ | _ <;> rcases b with _ | _ | _ <;> simp [both]

lemma both_eq_false : both a b = some false ↔ a = some false ∨ b = some false := by
  rcases a with _ | _ | _ <;> rcases b with _ | _ | _ <;> simp [both]

lemma either_eq_true : either a b = some true ↔ a = some true ∨ b = some true := by
  rcases a with _ | _ | _ <;> rcases b with _ | _ | _ <;> simp [either]

lemma either_eq_false : either a b = some false ↔ a = some false ∧ b = some false := by
  rcases a with _ | _ | _ <;> rcases b with _ | _ | _ <;> simp [either]

end Connectives

section Exists
variable {A : Type*} (check : A → Option Bool)

/-- `exists` forgives the failure of some items where another passes the check. -/
def anyItem (items : List A) : Option Bool :=
  items.foldr (fun x rest => either (check x) rest) (some false)

lemma anyItem_eq_true (items : List A) :
    anyItem check items = some true ↔ ∃ x ∈ items, check x = some true := by
  induction items with
  | nil => simp [anyItem]
  | cons x rest ih =>
    rw [anyItem, List.foldr_cons, ← anyItem, either_eq_true, ih]
    simp

lemma anyItem_eq_false (items : List A) :
    anyItem check items = some false ↔ ∀ x ∈ items, check x = some false := by
  induction items with
  | nil => simp [anyItem]
  | cons x rest ih =>
    rw [anyItem, List.foldr_cons, ← anyItem, either_eq_false, ih]
    simp

lemma anyItem_eq_none (items : List A) : anyItem check items = none ↔
    (∀ x ∈ items, check x ≠ some true) ∧ ∃ x ∈ items, check x = none := by
  have htrue := anyItem_eq_true check items
  have hfalse := anyItem_eq_false check items
  have hcases : ∀ o : Option Bool, o = none ↔ o ≠ some true ∧ o ≠ some false := by decide
  rw [hcases, Ne, Ne, htrue, hfalse]
  constructor
  · rintro ⟨hno, hsome⟩
    push Not at hno hsome
    obtain ⟨x, hx, hxf⟩ := hsome
    exact ⟨hno, x, hx, (hcases _).mpr ⟨hno x hx, hxf⟩⟩
  · rintro ⟨hno, x, hx, hxn⟩
    refine ⟨fun ⟨y, hy, hyt⟩ => hno y hy hyt, fun hall => ?_⟩
    rw [hall x hx] at hxn
    cases hxn

end Exists

end AdScheduler.Cel
