import FeatureProbes.Text.Segments

/-!
# Segments of dotted paths

A path is the path of its segments, so it is known by them.  Behind a segment and a dot stand the
segments of the rest.
-/

namespace FeatureProbes
namespace Text

theorem toList_joinSegments
    (parts : List String) :
    (joinSegments parts).toList = List.intercalate ['.'] (parts.map String.toList) := by
  rw [joinSegments, String.toList_intercalate]
  rfl

/-- A path is the path of its segments. -/
theorem joinSegments_segments
    (path : String) :
    joinSegments (segments path) = path := by
  have hparts : (segments path).map String.toList = path.toList.splitOn '.' := by
    rw [segments, List.map_map]
    exact (List.map_congr_left fun part _ => String.toList_ofList).trans (List.map_id _)
  rw [← String.toList_inj, toList_joinSegments, hparts, List.intercalate_splitOn]

/-- Segments have no dots. -/
theorem dot_not_mem_of_mem_segments
    {path part : String}
    (h : part ∈ segments path) :
    '.' ∉ part.toList := by
  have hpieces : ∀ text : List Char, ∀ piece ∈ text.splitOn '.', '.' ∉ piece := by
    intro text
    induction text with
    | nil =>
        simp
    | cons c text ih =>
        rw [List.splitOn_cons_eq_if_modifyHead]
        split
        · simpa using ih
        · rename_i hdot
          obtain ⟨first, rest, hsplit⟩ := List.exists_cons_of_ne_nil (List.splitOn_ne_nil '.' text)
          rw [hsplit] at ih ⊢
          rw [List.modifyHead_cons, List.forall_mem_cons]
          rw [List.forall_mem_cons] at ih
          have hne : '.' ≠ c := fun heq => hdot (beq_iff_eq.2 heq.symm)
          exact ⟨List.not_mem_cons_of_ne_of_not_mem hne ih.1, ih.2⟩
  obtain ⟨piece, hpiece, rfl⟩ := List.mem_map.1 h
  rw [String.toList_ofList]
  exact hpieces path.toList piece hpiece

/-- Segments without dots are those of their path. -/
theorem segments_joinSegments
    {parts : List String}
    (hne : parts ≠ [])
    (h : ∀ part ∈ parts, '.' ∉ part.toList) :
    segments (joinSegments parts) = parts := by
  rw [segments, toList_joinSegments, List.splitOn_intercalate, List.map_map]
  · exact (List.map_congr_left fun part _ => String.ofList_toList).trans (List.map_id _)
  · intro text htext
    obtain ⟨part, hpart, rfl⟩ := List.mem_map.1 htext
    exact h part hpart
  · simpa using hne

/-- A path is known by its segments. -/
theorem segments_injective :
    Function.Injective segments :=
  Function.LeftInverse.injective joinSegments_segments

/-- A dot stands between segments. -/
theorem segments_append
    (first rest : String) :
    segments (first ++ "." ++ rest) = segments first ++ segments rest := by
  have htext : (first ++ "." ++ rest).toList = first.toList ++ '.' :: rest.toList := by
    simp
  rw [segments, htext, List.splitOn_append_cons_self, List.map_append]
  rfl

theorem segments_of_not_mem
    {name : String}
    (h : '.' ∉ name.toList) :
    segments name = [name] := by
  rw [segments, List.splitOn_eq_singleton h, List.map_singleton, String.ofList_toList]

/-- A path with a further segment is another path. -/
theorem ne_append_dot
    (path last : String) :
    path ≠ path ++ "." ++ last := by
  intro heq
  have hlength := congrArg String.length heq
  simp only [String.length_append] at hlength
  have hdot : ".".length = 1 := rfl
  omega

/-- What stands in front of the first dot is the first segment. -/
theorem segments_append_dot
    {first : String}
    (rest : String)
    (h : '.' ∉ first.toList) :
    segments (first ++ "." ++ rest) = first :: segments rest := by
  rw [segments_append, segments_of_not_mem h, List.singleton_append]

/-- Where the first segments are known to be whole, a path is known by the first segment and the
rest. -/
theorem append_dot_inj
    {first first' rest rest' : String}
    (h : '.' ∉ first.toList)
    (h' : '.' ∉ first'.toList) :
    first ++ "." ++ rest = first' ++ "." ++ rest' ↔ first = first' ∧ rest = rest' := by
  constructor
  · intro heq
    have hsegments := congrArg segments heq
    rw [segments_append_dot rest h, segments_append_dot rest' h', List.cons.injEq] at hsegments
    exact ⟨hsegments.1, segments_injective hsegments.2⟩
  · rintro ⟨rfl, rfl⟩
    rfl

theorem segments_ne_nil
    (path : String) :
    segments path ≠ [] := by
  rw [segments, ne_eq, List.map_eq_nil_iff]
  exact List.splitOn_ne_nil '.' path.toList

/-- A segment goes behind the others with a dot. -/
theorem joinSegments_append_singleton
    {parts : List String}
    (name : String)
    (h : parts ≠ []) :
    joinSegments (parts ++ [name]) = joinSegments parts ++ "." ++ name := by
  rw [← String.toList_inj, toList_joinSegments, String.toList_append, String.toList_append,
    toList_joinSegments, List.map_append]
  induction parts with
  | nil =>
      exact absurd rfl h
  | cons first rest ih =>
      cases rest with
      | nil =>
          simp [List.intercalate]
      | cons second more =>
          have hrest := ih (by simp)
          simp only [List.map_cons, List.cons_append, List.intercalate_cons_cons] at hrest ⊢
          rw [hrest]
          simp

end Text
end FeatureProbes
