import PartRelay.Files.Path
import PartRelay.Proofs.Json.Tokens
import PartRelay.Proofs.Text.Fields

/-!
# Names of files

A name keeps its characters in the path that it becomes, but for slashes and dots. So where the path
can be looked up, no part of the name holds a high surrogate.
-/

namespace PartRelay

/-! ## Paths -/

namespace Path

variable {p q : Path} {t : Text} {c : CodePoint}

theorem mem_text_of_mem_steps {step : Text} (among : step ∈ p.steps) (inside : c ∈ step) :
    c ∈ p.text := by
  have some : p.steps.isEmpty = false := by
    rw [List.isEmpty_eq_false_iff]
    exact List.ne_nil_of_mem among
  rw [text, some, Bool.and_false, if_neg Bool.false_ne_true]
  exact List.mem_append_right _ (Text.mem_intercalate among inside)

/-- No character of a name is lost in its path but slashes and dots. -/
theorem mem_text_append (p : Path) (h : c ∈ t) (slash : c ≠ CodePoint.ofChar '/')
    (dot : c ≠ CodePoint.ofChar '.') : c ∈ (p.append (.ofText t)).text := by
  obtain ⟨step, among, inside⟩ := Text.exists_mem_splitOn h slash
  have kept : step ∈ (ofText t).steps := by
    refine List.mem_filter.mpr ⟨among, ?_⟩
    have nonempty : step.isEmpty = false := by
      rw [List.isEmpty_eq_false_iff]
      exact List.ne_nil_of_mem inside
    have named : step ≠ Text.ofString "." := by
      rintro rfl
      exact dot (List.mem_singleton.mp inside)
    simp [nonempty, named]
  apply mem_text_of_mem_steps _ inside
  rw [append]
  split
  · exact kept
  · exact List.mem_append_right _ kept

theorem not_isHigh_of_strayFrom? {position : Nat} (h : strayFrom? t position = none)
    (among : c ∈ t) : ¬ Json.IsHigh c.val := by
  induction t generalizing position with
  | nil => cases among
  | cons d t ih =>
    rw [strayFrom?] at h
    split at h
    · cases h
    next fine =>
      rcases List.mem_cons.mp among with rfl | later
      · -- A surrogate that stands for a byte is a low one.
        intro high
        obtain ⟨above, below⟩ := high
        refine fine ?_
        simp only [CodePoint.isSurrogate, isEscapedByte, CodePoint.between, Bool.and_eq_true,
          Bool.not_eq_true', Bool.and_eq_false_iff, decide_eq_true_eq, decide_eq_false_iff_not]
        omega
      · exact ih h later

theorem not_isHigh_of_nameError? (h : p.nameError? = none) (among : c ∈ p.text) :
    ¬ Json.IsHigh c.val := by
  rw [nameError?] at h
  split at h
  · cases h
  next fine => exact not_isHigh_of_strayFrom? fine among

end Path

end PartRelay
