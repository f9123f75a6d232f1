import Mathlib

/-! Dotted paths: a string as the list of the segments between its dots. Being a path or
below it is a prefix test on strings, and the same test on the segments. -/
namespace AdScheduler.DottedPath

def segments (p : String) : List (List Char) := p.toList.splitOn '.'

lemma segments_ne_nil (p : String) : segments p ≠ [] := List.splitOn_ne_nil '.' p.toList

lemma segments_append (p n : String) : segments (p ++ "." ++ n) = segments p ++ segments n := by
  have hdot : (p ++ "." ++ n).toList = p.toList ++ '.' :: n.toList := by simp
  rw [segments, hdot]
  exact List.splitOn_append_cons_self p.toList n.toList

lemma segments_name {n : String} (h : '.' ∉ n.toList) : segments n = [n.toList] :=
  List.splitOn_eq_singleton h

lemma segments_injective : Function.Injective segments := by
  intro p q h
  have hjoin := congrArg (List.intercalate ['.']) h
  apply String.toList_injective
  simpa [segments] using hjoin

lemma intercalate_append {x : Char} {as bs : List (List Char)} (ha : as ≠ []) (hb : bs ≠ []) :
    [x].intercalate (as ++ bs) = [x].intercalate as ++ x :: [x].intercalate bs := by
  induction as with
  | nil => exact absurd rfl ha
  | cons a as ih =>
    cases as with
    | nil => simp [List.intercalate_cons_of_ne_nil hb]
    | cons a' as =>
      have ih := ih (by simp)
      simp only [List.cons_append] at ih ⊢
      rw [List.intercalate_cons_cons, ih, List.intercalate_cons_cons]
      simp

/-- A path is at or below another exactly when its segments begin with the other's. -/
theorem prefix_iff_segments (p r : String) :
    p = r ∨ (r ++ ".").toList <+: p.toList ↔ segments r <+: segments p := by
  constructor
  · rintro (rfl | ⟨rest, hrest⟩)
    · exact List.prefix_rfl
    · have hp : p = r ++ "." ++ String.ofList rest := by
        apply String.toList_injective
        simpa using hrest.symm
      rw [hp, segments_append]
      exact List.prefix_append _ _
  · rintro ⟨rest, hrest⟩
    cases rest with
    | nil => exact .inl (segments_injective (by simpa using hrest.symm))
    | cons s rest =>
      have hjoin := congrArg (List.intercalate ['.']) hrest
      rw [intercalate_append (segments_ne_nil r) (by simp)] at hjoin
      simp only [segments, List.intercalate_splitOn] at hjoin
      exact .inr ⟨['.'].intercalate (s :: rest), by simpa using hjoin⟩

end AdScheduler.DottedPath
