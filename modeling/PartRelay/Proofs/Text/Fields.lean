import PartRelay.Text.Basic

/-!
# Fields of a text

What stands between the separators of a text: a text without the separator is a field as it is.
-/

namespace PartRelay.Text

/-- A field that is put before a text, with a separator between them, is the first one. -/
theorem splitOn_append_cons {sep : CodePoint} {t : Text} (h : sep ∉ t) (rest : Text) :
    splitOn sep (t ++ sep :: rest) = t :: splitOn sep rest := by
  induction t with
  | nil => simp [splitOn]
  | cons c t ih =>
    have other : c ≠ sep := fun same => h (same ▸ List.mem_cons_self)
    have later := ih fun member => h (List.mem_cons_of_mem _ member)
    rw [splitOn] at later ⊢
    rw [List.cons_append, List.foldr_cons, later, if_neg other]

/-- What stands in a text stands in one of the fields between the separators. -/
theorem exists_mem_splitOn {sep c : CodePoint} {t : Text} (h : c ∈ t) (ne : c ≠ sep) :
    ∃ piece ∈ t.splitOn sep, c ∈ piece := by
  induction t with
  | nil => cases h
  | cons d t ih =>
    rw [splitOn] at ih ⊢
    rw [List.foldr_cons]
    by_cases same : d = sep
    · obtain ⟨piece, among, inside⟩ :=
        ih ((List.mem_cons.mp h).resolve_left fun here => ne (here.trans same))
      rw [if_pos same]
      exact ⟨piece, List.mem_cons_of_mem _ among, inside⟩
    · rw [if_neg same]
      generalize t.foldr _ _ = pieces at ih ⊢
      rcases List.mem_cons.mp h with here | later
      · cases pieces <;> exact ⟨_, List.mem_cons_self, here ▸ List.mem_cons_self⟩
      · obtain ⟨piece, among, inside⟩ := ih later
        cases pieces with
        | nil => cases among
        | cons first pieces =>
          rcases List.mem_cons.mp among with rfl | other
          · exact ⟨_, List.mem_cons_self, List.mem_cons_of_mem _ inside⟩
          · exact ⟨piece, List.mem_cons_of_mem _ other, inside⟩

theorem mem_intercalate {sep piece : Text} {pieces : List Text} {c : CodePoint}
    (among : piece ∈ pieces) (inside : c ∈ piece) : c ∈ intercalate sep pieces := by
  rw [intercalate, List.mem_flatten]
  refine ⟨piece, ?_, inside⟩
  induction pieces with
  | nil => cases among
  | cons first pieces ih =>
    cases pieces with
    | nil => simpa using among
    | cons next pieces =>
      rw [List.intersperse_cons_cons]
      rcases List.mem_cons.mp among with rfl | later
      · exact List.mem_cons_self
      · exact List.mem_cons_of_mem _ (List.mem_cons_of_mem _ (ih later))

/-- A text with one separator, which is its last code point, has one field before it. -/
theorem splitOn_append_singleton {sep : CodePoint} {t : Text} (h : sep ∉ t) :
    splitOn sep (t ++ [sep]) = [t, []] := splitOn_append_cons h []

end PartRelay.Text
