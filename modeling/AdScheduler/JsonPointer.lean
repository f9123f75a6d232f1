import Mathlib

/-! Pointers into a JSON document: reference tokens behind slashes, in which a tilde is written
`~0` and a slash `~1`. -/
namespace AdScheduler.JsonPointer

def escapeChar (c : Char) : List Char :=
  if c = '~' then ['~', '0'] else if c = '/' then ['~', '1'] else [c]

def escape (token : List Char) : List Char := token.flatMap escapeChar

def unescape : List Char → List Char
  | '~' :: '0' :: rest => '~' :: unescape rest
  | '~' :: '1' :: rest => '/' :: unescape rest
  | c :: rest => c :: unescape rest
  | [] => []

/-- Without a leading slash there is no pointer. -/
def tokens (pointer : List Char) : Option (List (List Char)) :=
  match pointer.splitOn '/' with
  | [] :: parts => some (parts.map unescape)
  | _ => none

def pointer (toks : List (List Char)) : List Char :=
  ['/'].intercalate ([] :: toks.map escape)

lemma slash_notMem_escape (token : List Char) : '/' ∉ escape token := by
  intro h
  obtain ⟨c, -, hc⟩ := List.mem_flatMap.mp h
  rw [escapeChar] at hc
  split_ifs at hc with htilde hslash
  · simp at hc
  · simp at hc
  · exact hslash (List.mem_singleton.mp hc).symm

lemma unescape_escape (token : List Char) : unescape (escape token) = token := by
  induction token with
  | nil => rfl
  | cons c rest ih =>
    rw [escape, List.flatMap_cons, ← escape, escapeChar]
    split_ifs with htilde hslash
    · rw [htilde]
      simp [unescape, ih]
    · rw [hslash]
      simp [unescape, ih]
    · rw [List.singleton_append, unescape, ih]
      · rintro rest' rfl
        exact absurd rfl htilde
      · rintro rest' rfl
        exact absurd rfl htilde

/-- A pointer leads to the tokens that it was written with. -/
theorem tokens_pointer (toks : List (List Char)) : tokens (pointer toks) = some toks := by
  have hsplit : (pointer toks).splitOn '/' = [] :: toks.map escape := by
    refine List.splitOn_intercalate '/' (fun part hpart => ?_) (List.cons_ne_nil _ _)
    rcases List.mem_cons.mp hpart with rfl | hpart
    · simp
    · obtain ⟨token, -, rfl⟩ := List.mem_map.mp hpart
      exact slash_notMem_escape token
  have hinverse : unescape ∘ escape = id := funext unescape_escape
  rw [tokens, hsplit]
  simp [List.map_map, hinverse]

end AdScheduler.JsonPointer
