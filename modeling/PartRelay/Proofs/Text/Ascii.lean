import PartRelay.Proofs.Text.Numerals
import PartRelay.Text.Utf8

/-!
# ASCII text

Text of one byte a code point, none of which is a surrogate. Numerals are such text.
-/

namespace PartRelay

namespace Text

/-- A text that is ASCII throughout. -/
def IsAscii (t : Text) : Prop := ∀ c ∈ t, c.isAscii = true

/-- A text whose code points are all characters. -/
def IsScalar (t : Text) : Prop := ∀ c ∈ t, c.isSurrogate = false

/-- A text of printable ASCII throughout: it has no line ends. -/
def IsPrintableAscii (t : Text) : Prop := ∀ c ∈ t, 0x20 ≤ c.val ∧ c.val ≤ 0x7E

theorem isPrintableAscii_nil : IsPrintableAscii [] := by
  intro c hc
  cases hc

theorem IsPrintableAscii.append {s t : Text} (hs : s.IsPrintableAscii) (ht : t.IsPrintableAscii) :
    IsPrintableAscii (s ++ t) := by
  intro c hc
  rcases List.mem_append.mp hc with hc | hc
  · exact hs c hc
  · exact ht c hc

theorem IsPrintableAscii.cons {c : CodePoint} {t : Text} (hc : 0x20 ≤ c.val ∧ c.val ≤ 0x7E)
    (ht : t.IsPrintableAscii) : IsPrintableAscii (c :: t) := by
  intro d hd
  rcases List.mem_cons.mp hd with rfl | hd
  · exact hc
  · exact ht d hd

theorem isPrintableAscii_ofNat (n : Nat) : (ofNat n).IsPrintableAscii := by
  intro c hc
  have digit := isDigit_of_mem_ofNat hc
  rw [CodePoint.isDigit_iff] at digit
  omega

theorem isPrintableAscii_ofInt (n : Int) : (ofInt n).IsPrintableAscii := by
  rw [ofInt]
  split
  · exact (isPrintableAscii_ofNat _).cons (by decide)
  · exact isPrintableAscii_ofNat _

/-- Printable ASCII in lines, which line feeds end. -/
def IsPrintableLines (t : Text) : Prop :=
  ∀ c ∈ t, c = CodePoint.ofChar '\n' ∨ 0x20 ≤ c.val ∧ c.val ≤ 0x7E

theorem IsPrintableAscii.isPrintableLines {t : Text} (h : t.IsPrintableAscii) :
    t.IsPrintableLines :=
  fun c hc => .inr (h c hc)

theorem IsPrintableLines.append {s t : Text} (hs : s.IsPrintableLines) (ht : t.IsPrintableLines) :
    IsPrintableLines (s ++ t) := by
  intro c hc
  rcases List.mem_append.mp hc with hc | hc
  · exact hs c hc
  · exact ht c hc

theorem IsPrintableLines.isAscii {t : Text} (h : t.IsPrintableLines) : t.IsAscii := by
  intro c hc
  rcases h c hc with rfl | printable
  · decide
  · rw [CodePoint.isAscii, decide_eq_true_eq]
    omega

/-- A carriage return is no line end here. -/
theorem IsPrintableLines.return_not_mem {t : Text} (h : t.IsPrintableLines) :
    CodePoint.ofChar '\r' ∉ t := by
  intro member
  rcases h _ member with line | printable
  · exact absurd line (by decide)
  · exact absurd printable.1 (by decide)

theorem IsPrintableAscii.isAscii {t : Text} (h : t.IsPrintableAscii) : t.IsAscii := by
  intro c hc
  have printable := h c hc
  rw [CodePoint.isAscii, decide_eq_true_eq]
  omega

/-- No code point of ASCII is a surrogate. -/
theorem IsAscii.isScalar {t : Text} (h : t.IsAscii) : t.IsScalar := by
  intro c hc
  have ascii := h c hc
  rw [CodePoint.isAscii, decide_eq_true_eq] at ascii
  simp [CodePoint.isSurrogate, CodePoint.between]
  omega

end Text

namespace Utf8

theorem writePoint_of_isAscii {c : CodePoint} (h : c.isAscii = true) :
    writePoint c = [UInt8.ofNat c.val] := by
  rw [CodePoint.isAscii, decide_eq_true_eq] at h
  simp [writePoint, h]

end Utf8

end PartRelay
