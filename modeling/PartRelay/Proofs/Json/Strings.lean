import PartRelay.Json.Printer
import PartRelay.Proofs.Bytes.HexText
import PartRelay.Proofs.Json.Tokens
import PartRelay.Proofs.Text.Ascii

/-!
# Strings read back

A string is read as it was written, whatever stands before it and behind its closing quote, but for
surrogates: a high one and a low one behind it come back as one code point. What is written is
printable ASCII.
-/

namespace PartRelay.Json

/-! ## Code units -/

theorem ofHex_four (n : Nat) : Text.ofHex 4 n =
    [CodePoint.hexDigit (n / 16 / 16 / 16 % 16), CodePoint.hexDigit (n / 16 / 16 % 16),
      CodePoint.hexDigit (n / 16 % 16), CodePoint.hexDigit (n % 16)] := rfl

theorem hexOfFour?_ofHex {n : Nat} (h : n < 0x10000) :
    hexOfFour? (CodePoint.hexDigit (n / 16 / 16 / 16 % 16)) (CodePoint.hexDigit (n / 16 / 16 % 16))
      (CodePoint.hexDigit (n / 16 % 16)) (CodePoint.hexDigit (n % 16)) = some n := by
  have value (m : Nat) : (CodePoint.hexDigit (m % 16)).hexValue? = some (m % 16) :=
    CodePoint.hexValue?_hexDigit (Nat.mod_lt _ (by decide))
  rw [hexOfFour?, value, value, value, value]
  show some _ = some n
  rw [Option.some.injEq]
  omega

/-- The escape of a unit is read as the unit, as long as something follows. -/
theorem readString_unitEscape (opening : Text) {unit : Nat} (hu : unit < 0x10000) {t : Text}
    (ht : t ≠ []) (afterHigh : Bool) (done : Text) :
    readString opening (unitEscape unit ++ t) afterHigh done =
      readString opening t (0xD800 ≤ unit && unit ≤ 0xDBFF) (pushUnit unit afterHigh done) := by
  show readString opening
    (CodePoint.ofChar '\\' :: CodePoint.ofChar 'u' :: (Text.ofHex 4 unit ++ t)) afterHigh done = _
  rw [ofHex_four]
  exact readString_unit opening (hexOfFour?_ofHex hu) ht afterHigh done

/-- The two surrogates of a code point above `U+FFFF` become that code point. -/
theorem pushUnit_low (c : CodePoint) (hc : 0x10000 ≤ c.val) (done : Text) :
    pushUnit (0xDC00 + (c.val - 0x10000) % 0x400) true
      (CodePoint.ofNat (0xD800 + (c.val - 0x10000) / 0x400) :: done) = c :: done := by
  have top := c.isLt
  have high : IsHigh (0xD800 + (c.val - 0x10000) / 0x400) := ⟨by omega, by omega⟩
  have low : IsLow (0xDC00 + (c.val - 0x10000) % 0x400) := ⟨by omega, by omega⟩
  have whole : 0x10000 + (0xD800 + (c.val - 0x10000) / 0x400 - 0xD800) * 0x400 +
      (0xDC00 + (c.val - 0x10000) % 0x400 - 0xDC00) = c.val := by omega
  rw [pushUnit_pair high low, whole, CodePoint.ofNat_val]

/-! ## Code points -/

/-- The forms that a code point can have in a string. -/
inductive RenderedAs (c : CodePoint) : Text → Prop where
  | escape (e : CodePoint) (letter : e ≠ CodePoint.ofChar 'u')
      (printable : 0x20 ≤ e.val ∧ e.val ≤ 0x7E) (character : c.isSurrogate = false)
      (meaning : shortEscape? e = some c) : RenderedAs c [CodePoint.ofChar '\\', e]
  | plain (quote : c ≠ CodePoint.ofChar '"') (backslash : c ≠ CodePoint.ofChar '\\')
      (printable : 0x20 ≤ c.val ∧ c.val ≤ 0x7E) : RenderedAs c [c]
  | unit (basic : c.val < 0x10000) : RenderedAs c (unitEscape c.val)
  | pair (above : 0x10000 ≤ c.val) : RenderedAs c
      (unitEscape (0xD800 + (c.val - 0x10000) / 0x400) ++
        unitEscape (0xDC00 + (c.val - 0x10000) % 0x400))

theorem renderedAs_renderPoint (c : CodePoint) : RenderedAs c (renderPoint c) := by
  rw [renderPoint]
  by_cases quote : c = CodePoint.ofChar '"'
  · subst quote
    exact .escape (.ofChar '"') (by decide) (by decide) (by decide) rfl
  rw [if_neg quote]
  by_cases backslash : c = CodePoint.ofChar '\\'
  · subst backslash
    exact .escape (.ofChar '\\') (by decide) (by decide) (by decide) rfl
  rw [if_neg backslash]
  by_cases newline : c = CodePoint.ofChar '\n'
  · subst newline
    exact .escape (.ofChar 'n') (by decide) (by decide) (by decide) rfl
  rw [if_neg newline]
  by_cases return' : c = CodePoint.ofChar '\r'
  · subst return'
    exact .escape (.ofChar 'r') (by decide) (by decide) (by decide) rfl
  rw [if_neg return']
  by_cases tab : c = CodePoint.ofChar '\t'
  · subst tab
    exact .escape (.ofChar 't') (by decide) (by decide) (by decide) rfl
  rw [if_neg tab]
  by_cases feed : c = CodePoint.ofChar '\x0c'
  · subst feed
    exact .escape (.ofChar 'f') (by decide) (by decide) (by decide) rfl
  rw [if_neg feed]
  by_cases back : c = CodePoint.ofChar '\x08'
  · subst back
    exact .escape (.ofChar 'b') (by decide) (by decide) (by decide) rfl
  rw [if_neg back]
  by_cases between : c.between 0x20 0x7E = true
  · rw [if_pos between]
    rw [CodePoint.between, Bool.and_eq_true, decide_eq_true_eq, decide_eq_true_eq] at between
    exact .plain quote backslash between
  rw [if_neg between]
  by_cases basic : c.val < 0x10000
  · rw [if_pos basic]
    exact .unit basic
  · rw [if_neg basic]
    exact .pair (Nat.not_lt.mp basic)

/-- What a code point becomes when it is read behind others, which come last first: a low surrogate
joins a high one. -/
def joinPoint (state : Text × Bool) (c : CodePoint) : Text × Bool :=
  if c.isSurrogate then
    (pushUnit c.val state.2 state.1, decide (0xD800 ≤ c.val) && decide (c.val ≤ 0xDBFF))
  else (c :: state.1, false)

/-- A code point is read from the form that it has in a string. -/
theorem readString_renderPoint (opening : Text) (c : CodePoint) {t : Text} (ht : t ≠ [])
    (state : Text × Bool) :
    readString opening (renderPoint c ++ t) state.2 state.1 =
      readString opening t (joinPoint state c).2 (joinPoint state c).1 := by
  have top := c.isLt
  have surrogate : c.isSurrogate = true ↔ 0xD800 ≤ c.val ∧ c.val ≤ 0xDFFF := by
    simp [CodePoint.isSurrogate, CodePoint.between]
  have form := renderedAs_renderPoint c
  generalize renderPoint c = rendered at form ⊢
  cases form with
  | escape e letter printable character meaning =>
    rw [joinPoint, if_neg (by simp [character])]
    exact readString_letter opening meaning ..
  | plain quote backslash printable =>
    rw [joinPoint, if_neg (by rw [surrogate]; omega)]
    exact readString_plain opening quote backslash (by omega) ..
  | unit basic =>
    rw [readString_unitEscape opening basic ht, joinPoint]
    by_cases half : c.isSurrogate = true
    · rw [if_pos half]
    · rw [if_neg half]
      rw [surrogate] at half
      have notHigh : (decide (0xD800 ≤ c.val) && decide (c.val ≤ 0xDBFF)) = false := by
        rw [← Bool.decide_and, decide_eq_false]
        omega
      rw [pushUnit_of_not_low (by unfold IsLow; omega), CodePoint.ofNat_val, notHigh]
  | pair above =>
    -- The first surrogate is kept as a code point of its own until the second one is there.
    have high : (decide (0xD800 ≤ 0xD800 + (c.val - 0x10000) / 0x400) &&
        decide (0xD800 + (c.val - 0x10000) / 0x400 ≤ 0xDBFF)) = true := by
      rw [← Bool.decide_and, decide_eq_true_eq]
      omega
    have notHigh : (decide (0xD800 ≤ 0xDC00 + (c.val - 0x10000) % 0x400) &&
        decide (0xDC00 + (c.val - 0x10000) % 0x400 ≤ 0xDBFF)) = false := by
      rw [← Bool.decide_and, decide_eq_false]
      omega
    rw [joinPoint, if_neg (by rw [surrogate]; omega), List.append_assoc,
      readString_unitEscape opening (by omega) (by simp [ht]),
      pushUnit_of_not_low (by unfold IsLow; omega), high,
      readString_unitEscape opening (by omega) ht, pushUnit_low c (by omega), notHigh]

/-! ## Whole strings -/

/-- A text as it is read: pairs of surrogates have become the code points that they stand for. -/
def joinText (s : Text) : Text := (s.foldl joinPoint ([], false)).1.reverse

theorem readString_render (opening rest s : Text) (state : Text × Bool) :
    readString opening (s.flatMap renderPoint ++ CodePoint.ofChar '"' :: rest) state.2 state.1 =
      .ok ((s.foldl joinPoint state).1.reverse, rest) := by
  induction s generalizing state with
  | nil =>
    rw [List.flatMap_nil, List.nil_append, readString.eq_def]
    simp
  | cons c s ih =>
    rw [List.flatMap_cons, List.append_assoc, readString_renderPoint opening c (by simp), ih,
      List.foldl_cons]

theorem foldl_joinPoint_of_not_isHigh {s : Text} (h : ∀ c ∈ s, ¬ IsHigh c.val) (done : Text) :
    s.foldl joinPoint (done, false) = (s.reverse ++ done, false) := by
  induction s generalizing done with
  | nil => rfl
  | cons c s ih =>
    have notHigh : (decide (0xD800 ≤ c.val) && decide (c.val ≤ 0xDBFF)) = false :=
      Bool.eq_false_iff.mpr (mt high_iff.mp (h c List.mem_cons_self))
    have alone : joinPoint (done, false) c = (c :: done, false) := by
      rw [joinPoint]
      split
      · rw [pushUnit_false, CodePoint.ofNat_val, notHigh]
      · rfl
    rw [List.foldl_cons, alone, ih fun d hd => h d (List.mem_cons_of_mem _ hd), List.reverse_cons,
      List.append_assoc]
    rfl

/-- Without high surrogates a text is read as it is. -/
theorem joinText_of_not_isHigh {s : Text} (h : ∀ c ∈ s, ¬ IsHigh c.val) : joinText s = s := by
  rw [joinText, foldl_joinPoint_of_not_isHigh h, List.append_nil, List.reverse_reverse]

/-- A text of characters is read as it is. -/
theorem joinText_of_isScalar {s : Text} (hs : s.IsScalar) : joinText s = s := by
  refine joinText_of_not_isHigh fun c hc high => ?_
  have character := hs c hc
  obtain ⟨above, below⟩ := high
  simp only [CodePoint.isSurrogate, CodePoint.between, Bool.and_eq_false_iff,
    decide_eq_false_iff_not] at character
  omega

/-! ## What is written is printable ASCII -/

theorem isPrintableAscii_ofHex (n : Nat) : (Text.ofHex 4 n).IsPrintableAscii := by
  intro c h
  rw [ofHex_four] at h
  simp only [List.mem_cons, List.not_mem_nil, or_false] at h
  rcases h with rfl | rfl | rfl | rfl <;>
    exact CodePoint.printable_hexDigit (Nat.mod_lt _ (by decide))

theorem isPrintableAscii_unitEscape (unit : Nat) : (unitEscape unit).IsPrintableAscii := by
  have escape : (Text.ofString "\\u").IsPrintableAscii := by rw [Text.IsPrintableAscii]; decide
  exact escape.append (isPrintableAscii_ofHex unit)

theorem isPrintableAscii_renderPoint (c : CodePoint) : (renderPoint c).IsPrintableAscii := by
  have form := renderedAs_renderPoint c
  generalize renderPoint c = rendered at form ⊢
  cases form with
  | escape e letter printable character meaning =>
    exact .cons (by decide) (.cons printable Text.isPrintableAscii_nil)
  | plain quote backslash printable => exact .cons printable Text.isPrintableAscii_nil
  | unit basic => exact isPrintableAscii_unitEscape _
  | pair above =>
    exact (isPrintableAscii_unitEscape _).append (isPrintableAscii_unitEscape _)

/-- The longest form is that of two units. -/
theorem length_renderPoint_le (c : CodePoint) : (renderPoint c).length ≤ 12 := by
  have form := renderedAs_renderPoint c
  generalize renderPoint c = rendered at form ⊢
  have unit (n : Nat) : (unitEscape n).length = 6 := rfl
  cases form with
  | escape e letter printable character meaning => simp
  | plain quote backslash printable => simp
  | unit basic => simp [unit]
  | pair above => simp [unit]

theorem length_renderString_le (s : Text) : (renderString s).length ≤ 12 * s.length + 2 := by
  have inside : (s.flatMap renderPoint).length ≤ 12 * s.length := by
    induction s with
    | nil => exact Nat.le_refl 0
    | cons c s ih =>
      have first := length_renderPoint_le c
      rw [List.flatMap_cons, List.length_append, List.length_cons]
      omega
  simp only [renderString, List.cons_append, List.length_cons, List.length_append, List.length_nil]
  omega

theorem isPrintableAscii_renderString (s : Text) : (renderString s).IsPrintableAscii := by
  intro c h
  simp only [renderString, List.cons_append, List.mem_cons, List.mem_append, List.mem_flatMap,
    List.not_mem_nil, or_false] at h
  rcases h with rfl | ⟨d, _, h⟩ | rfl
  · decide
  · exact isPrintableAscii_renderPoint d c h
  · decide

end PartRelay.Json
