import AdScheduler.Cel

/-! The text of expressions in the Common Expression Language: a scanner, a parser and an evaluator
for string literals without escapes, selection, indexing, `has`, `exists`, the logical and the
relational operators, `in`, `+` on lists, the conditional, and literals of lists, maps and objects.
Text outside of this fragment is not read. -/
namespace AdScheduler.CelText
open Cel

inductive Symbol
  | lparen
  | rparen
  | lbracket
  | rbracket
  | lbrace
  | rbrace
  | dot
  | comma
  | colon
  | question
  | not
  | eq
  | ne
  | and
  | or
  | plus
  deriving DecidableEq

inductive Token
  | name (s : List Char)
  | text (s : List Char)
  | symbol (s : Symbol)
  deriving DecidableEq

section Scanner

def apostrophe : Char := Char.ofNat 39
def quotationMark : Char := Char.ofNat 34
def backslash : Char := Char.ofNat 92

/-- Where the scanner is: between tokens, in a name, in a string literal, right behind one, or
behind the first character of a symbol that may have two. -/
inductive Mode
  | between
  | inName (read : List Char)
  | inText (quote : Char) (read : List Char)
  | closed (quote : Char)
  | half (first : Char)
  deriving DecidableEq

def isQuote (c : Char) : Bool := decide (c = apostrophe) || decide (c = quotationMark)

def isNameChar (c : Char) : Bool := c.isAlpha || decide (c = '_')

/-- A character that a string literal cannot have as it is. -/
def isSpecial (c : Char) : Bool := decide (c = backslash) || decide (c = '\n') || decide (c = '\r')

def single (c : Char) : Option Symbol :=
  [('(', Symbol.lparen), (')', .rparen), ('[', .lbracket), (']', .rbracket),
    (Char.ofNat 123, .lbrace),
    (Char.ofNat 125, .rbrace), ('.', .dot), (',', .comma), (':', .colon), ('?', .question),
    ('+', .plus)].lookup c

def double (first second : Char) : Option Symbol :=
  [(('=', '='), Symbol.eq), (('!', '='), .ne), (('&', '&'), .and), (('|', '|'), .or)].lookup
    (first, second)

def start (c : Char) : Option (Mode × List Token) :=
  if c.isWhitespace then some (.between, [])
  else if isNameChar c then some (.inName [c], [])
  else if isQuote c then some (.inText c [], [])
  else if c ∈ ['=', '!', '&', '|'] then some (.half c, [])
  else (single c).map fun s => (.between, [.symbol s])

def step : Mode → Char → Option (Mode × List Token)
  | .between, c => start c
  | .inName read, c =>
    if isNameChar c then some (.inName (read ++ [c]), [])
    else if isQuote c then none
    else (start c).map fun r => (r.1, .name read :: r.2)
  | .inText quote read, c =>
    if c = quote then some (.closed quote, [.text read])
    else if isSpecial c then none
    else some (.inText quote (read ++ [c]), [])
  | .closed quote, c => if c = quote then none else start c
  | .half first, c =>
    match double first c with
    | some s => some (.between, [.symbol s])
    | none => if first = '!' then (start c).map fun r => (r.1, .symbol .not :: r.2) else none

def finish : Mode → Option (List Token)
  | .between | .closed _ => some []
  | .inName read => some [.name read]
  | .inText _ _ | .half _ => none

def scanPart : Mode → List Char → Option (Mode × List Token)
  | m, [] => some (m, [])
  | m, c :: rest => (step m c).bind fun r => (scanPart r.1 rest).map fun r' => (r'.1, r.2 ++ r'.2)

def scan (m : Mode) (s : List Char) : Option (List Token) :=
  (scanPart m s).bind fun r => (finish r.1).map (r.2 ++ ·)

end Scanner

section Parser

inductive Op
  | or
  | and
  | eq
  | ne
  | isIn
  | plus
  deriving DecidableEq

inductive Expr
  | name (s : List Char)
  | text (s : List Char)
  | select (e : Expr) (field : List Char)
  | index (e i : Expr)
  | has (e : Expr) (field : List Char)
  | any (list : Expr) (x : List Char) (body : Expr)
  | not (e : Expr)
  | binary (op : Op) (a b : Expr)
  | cond (c a b : Expr)
  | nil
  | cons (head tail : Expr)
  | noFields
  | field (key : List Char) (value rest : Expr)
  | object (type : List Char) (fields : Expr)
  deriving DecidableEq

/-- What is to be read next. A `rest` or a `suffix` goes on from what was read before. -/
inductive Goal
  | expr
  | binary (level : ℕ)
  | rest (level : ℕ) (left : Expr)
  | unary
  | suffix (e : Expr)
  | primary
  | items
  | fields (named : Bool)

def operator : ℕ → Token → Option Op
  | 0, .symbol .or => some .or
  | 1, .symbol .and => some .and
  | 2, .symbol .eq => some .eq
  | 2, .symbol .ne => some .ne
  | 2, .name ['i', 'n'] => some .isIn
  | 3, .symbol .plus => some .plus
  | _, _ => none

def expect (s : Symbol) (r : Expr × List Token) : Option (Expr × List Token) :=
  match r.2 with
  | .symbol s' :: ts => if s' = s then some (r.1, ts) else none
  | _ => none

def parse : ℕ → Goal → List Token → Option (Expr × List Token)
  | 0, _, _ => none
  | n + 1, .expr, ts => do
    let (c, ts) ← parse n (.binary 0) ts
    match ts with
    | .symbol .question :: ts => do
      let (a, ts) ← (parse n (.binary 0) ts).bind (expect .colon)
      let (b, ts) ← parse n .expr ts
      some (.cond c a b, ts)
    | _ => some (c, ts)
  | n + 1, .binary level, ts => do
    let (a, ts) ← if level = 4 then parse n .unary ts else parse n (.binary (level + 1)) ts
    if level = 4 then some (a, ts) else parse n (.rest level a) ts
  | n + 1, .rest level a, ts =>
    match ts with
    | [] => some (a, [])
    | t :: rest =>
      match operator level t with
      | none => some (a, ts)
      | some op => do
        let (b, ts) ← parse n (.binary (level + 1)) rest
        parse n (.rest level (.binary op a b)) ts
  | n + 1, .unary, ts =>
    match ts with
    | .symbol .not :: ts => do
      let (e, ts) ← parse n .unary ts
      some (.not e, ts)
    | ts => do
      let (e, ts) ← parse n .primary ts
      parse n (.suffix e) ts
  | n + 1, .suffix e, ts =>
    match ts with
    | .symbol .dot :: .name ['e', 'x', 'i', 's', 't', 's'] :: .symbol .lparen :: .name x ::
        .symbol .comma :: ts => do
      let (body, ts) ← (parse n .expr ts).bind (expect .rparen)
      parse n (.suffix (.any e x body)) ts
    | .symbol .dot :: .name f :: ts => parse n (.suffix (.select e f)) ts
    | .symbol .lbracket :: ts => do
      let (i, ts) ← (parse n .expr ts).bind (expect .rbracket)
      parse n (.suffix (.index e i)) ts
    | ts => some (e, ts)
  | n + 1, .primary, ts =>
    match ts with
    | .text s :: ts => some (.text s, ts)
    | .symbol .lparen :: ts => (parse n .expr ts).bind (expect .rparen)
    | .symbol .lbracket :: ts => parse n .items ts
    | .symbol .lbrace :: ts => parse n (.fields false) ts
    | .name ['h', 'a', 's'] :: .symbol .lparen :: ts => do
      let (e, ts) ← (parse n .expr ts).bind (expect .rparen)
      match e with
      | .select e f => some (.has e f, ts)
      | _ => none
    | .name type :: .symbol .lbrace :: ts => do
      let (fields, ts) ← parse n (.fields true) ts
      some (.object type fields, ts)
    | .name s :: ts => some (.name s, ts)
    | _ => none
  | n + 1, .items, ts =>
    match ts with
    | .symbol .rbracket :: ts => some (.nil, ts)
    | ts => do
      let (head, ts) ← parse n .expr ts
      match ts with
      | .symbol .rbracket :: ts => some (.cons head .nil, ts)
      | .symbol .comma :: ts => do
        let (tail, ts) ← parse n .items ts
        some (.cons head tail, ts)
      | _ => none
  | n + 1, .fields named, ts =>
    match named, ts with
    | _, .symbol .rbrace :: ts => some (.noFields, ts)
    | false, .text key :: .symbol .colon :: ts | true, .name key :: .symbol .colon :: ts => do
      let (value, ts) ← parse n .expr ts
      match ts with
      | .symbol .rbrace :: ts => some (.field key value .noFields, ts)
      | .symbol .comma :: ts => do
        let (rest, ts) ← parse n (.fields named) ts
        some (.field key value rest, ts)
      | _ => none
    | _, _ => none

/-- An expression, all of the text. Every token takes less than ten steps. -/
def read (s : List Char) : Option Expr := do
  let ts ← scan .between s
  let (e, ts') ← parse (10 * (ts.length + 1)) .expr ts
  if ts' = [] then some e else none

end Parser

section Evaluation

inductive Val
  | text (s : List Char)
  | bool (b : Bool)
  | list (items : List Val)
  | map (fields : List (List Char × Val))
  | object (type : List Char) (fields : List (List Char × Val))

def Val.asText : Val → Option (List Char)
  | .text s => some s
  | _ => none

def Val.asBool : Val → Option Bool
  | .bool b => some b
  | _ => none

def Val.asList : Val → Option (List Val)
  | .list items => some items
  | _ => none

def Val.asMap : Val → Option (List (List Char × Val))
  | .map fields => some fields
  | _ => none

/-- The value of an expression, if its evaluation does not fail. -/
@[simp] def Expr.eval : List (List Char × Val) → Expr → Option Val
  | env, .name s => env.lookup s
  | _, .text s => some (.text s)
  | env, .select e f => ((e.eval env).bind Val.asMap).bind fun fields => fields.lookup f
  | env, .index e i =>
    ((e.eval env).bind Val.asMap).bind fun fields => ((i.eval env).bind Val.asText).bind fun k =>
      fields.lookup k
  | env, .has e f => ((e.eval env).bind Val.asMap).map fun fields => .bool (fields.lookup f).isSome
  | env, .any l x body =>
    ((l.eval env).bind Val.asList).bind fun items =>
      (anyItem (fun v => (body.eval ((x, v) :: env)).bind Val.asBool) items).map .bool
  | env, .not e => ((e.eval env).bind Val.asBool).map fun b => .bool !b
  | env, .binary .or a b =>
    (either ((a.eval env).bind Val.asBool) ((b.eval env).bind Val.asBool)).map .bool
  | env, .binary .and a b =>
    (both ((a.eval env).bind Val.asBool) ((b.eval env).bind Val.asBool)).map .bool
  | env, .binary .eq a b =>
    ((a.eval env).bind Val.asText).bind fun s => ((b.eval env).bind Val.asText).map fun t =>
      .bool (s = t)
  | env, .binary .ne a b =>
    ((a.eval env).bind Val.asText).bind fun s => ((b.eval env).bind Val.asText).map fun t =>
      .bool (s ≠ t)
  | env, .binary .isIn a b =>
    ((a.eval env).bind Val.asText).bind fun s =>
      ((b.eval env).bind Val.asMap).map fun fields => .bool (fields.lookup s).isSome
  | env, .binary .plus a b =>
    ((a.eval env).bind Val.asList).bind fun xs => ((b.eval env).bind Val.asList).map fun ys =>
      .list (xs ++ ys)
  | env, .cond c a b => ((c.eval env).bind Val.asBool).bind fun v =>
      if v then a.eval env else b.eval env
  | _, .nil => some (.list [])
  | env, .cons h t =>
    (h.eval env).bind fun v => ((t.eval env).bind Val.asList).map fun vs => .list (v :: vs)
  | _, .noFields => some (.map [])
  | env, .field k e rest =>
    (e.eval env).bind fun v => ((rest.eval env).bind Val.asMap).map fun fields =>
      .map ((k, v) :: fields)
  | env, .object type e => ((e.eval env).bind Val.asMap).map fun fields => .object type fields

/-- What a text means where these names have values. -/
def meaning (env : List (List Char × Val)) (s : List Char) : Option Val :=
  (read s).bind (Expr.eval env)

end Evaluation

section Rules
variable {env : List (List Char × Val)}

def Val.ofString (s : String) : Val := .text s.toList

/-- The fields of an object; those without a value are absent. -/
def fields (l : List (String × Option Val)) : List (List Char × Val) :=
  l.filterMap fun p => p.2.map (Prod.mk p.1.toList)

@[simp] lemma lookup_fields_nil (k : String) : (fields []).lookup k.toList = none := rfl

@[simp] lemma lookup_fields_cons (f k : String) (v : Option Val) (l : List (String × Option Val)) :
    (fields ((f, v) :: l)).lookup k.toList =
      if k = f then v.or ((fields l).lookup k.toList) else (fields l).lookup k.toList := by
  cases v with
  | none => simp [fields]
  | some v =>
    by_cases h : k = f
    · simp [fields, h]
    · have hne : (k.toList == f.toList) = false :=
        beq_eq_false_iff_ne.mpr fun heq => h (String.toList_injective heq)
      simp [fields, h, hne, List.lookup_cons]

/-- The expression is a condition with this value, or one whose evaluation fails. -/
def Means (env : List (List Char × Val)) (e : Expr) (b : Option Bool) : Prop :=
  e.eval env = b.map .bool

lemma Means.asBool {e : Expr} {b : Option Bool} (h : Means env e b) :
    (e.eval env).bind Val.asBool = b := by
  rw [h]
  cases b <;> rfl

lemma Means.and {e e' : Expr} {b b' : Option Bool} (h : Means env e b) (h' : Means env e' b') :
    Means env (.binary .and e e') (both b b') := by
  rw [Means, Expr.eval, h.asBool, h'.asBool]

lemma Means.or {e e' : Expr} {b b' : Option Bool} (h : Means env e b) (h' : Means env e' b') :
    Means env (.binary .or e e') (either b b') := by
  rw [Means, Expr.eval, h.asBool, h'.asBool]

lemma Means.not {e : Expr} {b : Option Bool} (h : Means env e b) :
    Means env (.not e) (b.map Bool.not) := by
  rw [Means, Expr.eval, h.asBool, Option.map_map]
  rfl

lemma eval_select {e : Expr} {fs : List (List Char × Val)} (h : e.eval env = some (.map fs))
    (f : List Char) : (Expr.select e f).eval env = fs.lookup f := by
  simp [h, Val.asMap]

lemma Means.has {A : Type*} {e : Expr} {fs : List (List Char × Val)} {f : List Char} {a : Option A}
    {val : A → Val} (h : e.eval env = some (.map fs)) (hf : fs.lookup f = a.map val) :
    Means env (.has e f) (some a.isSome) := by
  simp [Means, h, Val.asMap, hf]

lemma Means.eq {e : Expr} {s : Option String} (h : e.eval env = s.map Val.ofString) (lit : String) :
    Means env (.binary .eq e (.text lit.toList)) (s.map fun x => decide (x = lit)) := by
  cases s <;> simp [Means, h, Val.asText, Val.ofString, String.toList_inj]

lemma Means.ne {e : Expr} {s : Option String} (h : e.eval env = s.map Val.ofString) (lit : String) :
    Means env (.binary .ne e (.text lit.toList)) (s.map fun x => decide (x ≠ lit)) := by
  cases s <;> simp [Means, h, Val.asText, Val.ofString, String.toList_inj]

lemma Means.isIn {e : Expr} {fs : Option (List (List Char × Val))} (h : e.eval env = fs.map .map)
    (k : List Char) :
    Means env (.binary .isIn (.text k) e) (fs.map fun fs => (fs.lookup k).isSome) := by
  cases fs <;> simp [Means, h, Val.asText, Val.asMap]

lemma eval_index {e : Expr} {fs : Option (List (List Char × Val))} (h : e.eval env = fs.map .map)
    (k : List Char) : (Expr.index e (.text k)).eval env = fs.bind fun fs => fs.lookup k := by
  cases fs <;> simp [h, Val.asText, Val.asMap]

lemma Means.any {A : Type*} {e body : Expr} {x : List Char} {items : Option (List A)}
    {val : A → Val}
    {check : A → Option Bool} (h : e.eval env = items.map fun l => .list (l.map val))
    (hbody : ∀ a, Means ((x, val a) :: env) body (check a)) :
    Means env (.any e x body) (items.bind (anyItem check)) := by
  cases items with
  | none => simp [Means, h]
  | some l => simp [Means, h, Val.asList, anyItem, List.foldr_map, (hbody _).asBool]

lemma eval_cond {c : Expr} {b : Option Bool} (h : Means env c b) (x y : Expr) :
    (Expr.cond c x y).eval env = b.bind fun v => if v then x.eval env else y.eval env := by
  rw [Expr.eval, h.asBool]

end Rules

section Templates

/-- A text that can stand between quotation marks of either kind, and stands for itself there. -/
def Plain (v : List Char) : Prop := ∀ c ∈ v, isQuote c = false ∧ isSpecial c = false

lemma scanPart_append (m : Mode) (s rest : List Char) :
    scanPart m (s ++ rest) = (scanPart m s).bind fun r =>
      (scanPart r.1 rest).map fun r' => (r'.1, r.2 ++ r'.2) := by
  induction s generalizing m with
  | nil => simp [scanPart]
  | cons c s ih =>
    simp only [List.cons_append, scanPart]
    cases hstep : step m c with
    | none => rfl
    | some r =>
      simp only [Option.bind_some, ih]
      cases hpart : scanPart r.1 s with
      | none => rfl
      | some r' => simp [Function.comp_def, List.append_assoc]

lemma scan_append (m : Mode) (s rest : List Char) :
    scan m (s ++ rest) = (scanPart m s).bind fun r => (scan r.1 rest).map (r.2 ++ ·) := by
  simp only [scan, scanPart_append]
  cases hpart : scanPart m s with
  | none => rfl
  | some r =>
    simp only [Option.bind_some]
    cases hrest : scanPart r.1 rest with
    | none => rfl
    | some r' => simp [Function.comp_def, List.append_assoc]

lemma scanPart_plain {v : List Char} (h : Plain v) {quote : Char} (hq : isQuote quote = true)
    (read : List Char) :
    scanPart (.inText quote read) v = some (.inText quote (read ++ v), []) := by
  induction v generalizing read with
  | nil => simp [scanPart]
  | cons c v ih =>
    obtain ⟨hc, hspecial⟩ := h c List.mem_cons_self
    have hne : c ≠ quote := by
      rintro rfl
      rw [hq] at hc
      cases hc
    have hrest := ih (fun c hc => h c (List.mem_cons_of_mem _ hc)) (read ++ [c])
    simp [scanPart, step, hne, hspecial, hrest]

/-- The text of a template: fixed parts, each followed by a value, and a last part. -/
def render (parts : List (List Char × List Char)) (last : List Char) : List Char :=
  parts.flatMap (fun p => p.1 ++ p.2) ++ last

/-- The tokens of a template whose values stand in string literals. -/
def tokensOf : Mode → List (List Char × List Char) → List Char → Option (List Token)
  | m, [], last => scan m last
  | m, (fixed, v) :: parts, last =>
    match scanPart m fixed with
    | some (.inText quote read, out) =>
      if isQuote quote then (tokensOf (.inText quote (read ++ v)) parts last).map (out ++ ·)
        else none
    | _ => none

lemma scan_render {m : Mode} {parts : List (List Char × List Char)} {last : List Char}
    {ts : List Token}
    (hplain : ∀ p ∈ parts, Plain p.2) (h : tokensOf m parts last = some ts) :
    scan m (render parts last) = some ts := by
  induction parts generalizing m ts with
  | nil => exact h
  | cons p parts ih =>
    obtain ⟨fixed, v⟩ := p
    unfold tokensOf at h
    split at h
    · rename_i quote read out hpart
      split_ifs at h with hq
      obtain ⟨rest, hrest, rfl⟩ := Option.map_eq_some_iff.mp h
      have hv := scanPart_plain (hplain (fixed, v) List.mem_cons_self) hq read
      have hscan := ih (fun p hp => hplain p (List.mem_cons_of_mem _ hp)) hrest
      have htext : render ((fixed, v) :: parts) last = fixed ++ (v ++ render parts last) := by
        simp [render]
      rw [htext, scan_append, hpart, Option.bind_some, scan_append, hv]
      simp [hscan]
    · cases h

lemma read_render {parts : List (List Char × List Char)} {last : List Char} {e : Expr}
    (hplain : ∀ p ∈ parts, Plain p.2)
    (h : ((tokensOf .between parts last).bind fun ts => parse (10 * (ts.length + 1)) .expr ts)
      = some (e, [])) :
    read (render parts last) = some e := by
  obtain ⟨ts, hts, hparse⟩ := Option.bind_eq_some_iff.mp h
  simp [read, scan_render hplain hts, hparse]

end Templates

end AdScheduler.CelText
