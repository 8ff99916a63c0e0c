import PartRelay.Json.Parser
import PartRelay.Proofs.Text.Numerals

/-!
# The tokens of JSON

Which texts are words, numbers and strings, with what they stand for. A number is read as far as it
goes, so that reading gives the number that was written only where nothing carries it on. A string
is made of pieces, and two code units that are a high and a low surrogate are one code point. Main
statements: `number_of_readNumber`, `Number.readNumber` and `readString_eq_ok_iff`.
-/

namespace PartRelay.Json

variable {limit : Option Nat} {t rest : Text} {j : Json}

/-! ## Words -/

theorem dropPrefix?_nil (t : Text) : t.dropPrefix? [] = some t := by
  cases t <;> rfl

theorem dropPrefix?_eq_some_iff {t head rest : Text} :
    t.dropPrefix? head = some rest ↔ t = head ++ rest := by
  induction head generalizing t with
  | nil => rw [dropPrefix?_nil, Option.some.injEq, List.nil_append]
  | cons d head ih =>
    cases t with
    | nil => simp [Text.dropPrefix?]
    | cons c t =>
      rw [Text.dropPrefix?, List.cons_append, List.cons.injEq]
      by_cases same : c = d
      · rw [if_pos same, ih]
        exact (and_iff_right same).symm
      · simp [same]

/-- No word is the start of another one. -/
theorem readWord?_of_mem {word : Text} {value : Json} (h : (word, value) ∈ words) (rest : Text) :
    readWord? (word ++ rest) = some (value, rest) := by
  simp only [words, List.mem_cons, Prod.mk.injEq, List.not_mem_nil, or_false] at h
  rcases h with ⟨rfl, rfl⟩ | ⟨rfl, rfl⟩ | ⟨rfl, rfl⟩ | ⟨rfl, rfl⟩ | ⟨rfl, rfl⟩ | ⟨rfl, rfl⟩ <;>
    simp [readWord?, words, Text.ofString, Text.dropPrefix?, dropPrefix?_nil]

theorem exists_of_readWord? {t rest : Text} {value : Json} (h : readWord? t = some (value, rest)) :
    ∃ word, (word, value) ∈ words ∧ t = word ++ rest := by
  obtain ⟨⟨word, value'⟩, among, found⟩ := List.exists_of_findSome?_eq_some h
  obtain ⟨after, dropped, eq⟩ := Option.map_eq_some_iff.mp found
  cases eq
  exact ⟨word, among, dropPrefix?_eq_some_iff.mp dropped⟩

/-- No word starts with a digit. -/
theorem readWord?_digit {c : CodePoint} (h : c.isDigit = true) (t : Text) :
    readWord? (c :: t) = none := by
  have ne : ∀ d : Char, (CodePoint.ofChar d).isDigit = false → c ≠ CodePoint.ofChar d :=
    fun d hd => CodePoint.ne_of_isDigit h hd
  have n := ne 'n' (by decide)
  have t := ne 't' (by decide)
  have f := ne 'f' (by decide)
  have N := ne 'N' (by decide)
  have I := ne 'I' (by decide)
  have minus := ne '-' (by decide)
  simp [readWord?, words, Text.ofString, Text.dropPrefix?, n, t, f, N, I, minus]

/-- The only word behind a minus sign does not start with a digit. -/
theorem readWord?_minus {c : CodePoint} (h : c.isDigit = true) (t : Text) :
    readWord? (CodePoint.ofChar '-' :: c :: t) = none := by
  have I : c ≠ CodePoint.ofChar 'I' := CodePoint.ne_of_isDigit h (by decide)
  simp [readWord?, words, Text.ofString, Text.dropPrefix?, I]

/-! ## Digits -/

/-- One digit or more. -/
structure IsDigits (t : Text) : Prop where
  ne_nil : t ≠ []
  isDigit : ∀ c ∈ t, c.isDigit = true

theorem IsDigits.eq_cons (h : IsDigits t) : ∃ c t', t = c :: t' ∧ c.isDigit = true := by
  cases t with
  | nil => exact absurd rfl h.ne_nil
  | cons c t => exact ⟨c, t, rfl, h.isDigit c List.mem_cons_self⟩

/-- A run of digits is what stands in front of the rest. -/
theorem exists_of_span {digits : List Nat} (h : Digits.span t = (digits, rest)) :
    ∃ s : Text, (∀ c ∈ s, c.isDigit = true) ∧ t = s ++ rest ∧ digits = Digits.ofText s := by
  cases h
  exact ⟨t.takeWhile CodePoint.isDigit, List.all_eq_true.mp List.all_takeWhile,
    List.takeWhile_append_dropWhile.symm, rfl⟩

/-- What follows a run of digits, where no other digit does. -/
def EndsDigits (rest : Text) : Prop := ∀ c ∈ rest.head?, c.isDigit = false

theorem IsDigits.span (h : IsDigits t) (ends : EndsDigits rest) :
    Digits.span (t ++ rest) = (Digits.ofText t, rest) :=
  Digits.span_append h.isDigit ends

theorem IsDigits.ofText_ne_nil (h : IsDigits t) : Digits.ofText t ≠ [] :=
  fun none => h.ne_nil (List.map_eq_nil_iff.mp none)

/-! ## The parts of numbers -/

/-- A whole number: no zero stands in front of another digit. -/
structure IsWhole (t : Text) : Prop where
  digits : IsDigits t
  lead : t.head? = some (CodePoint.ofChar '0') → t = [CodePoint.ofChar '0']

/-- A point and the digits behind it, or nothing. -/
inductive Fraction : Text → (places : Text) → Prop where
  | none : Fraction [] []
  | point {places : Text} (digits : IsDigits places) :
      Fraction (CodePoint.ofChar '.' :: places) places

/-- The sign of a power. -/
inductive PowerSign : Text → (negative : Bool) → Prop where
  | none : PowerSign [] false
  | plus : PowerSign [CodePoint.ofChar '+'] false
  | minus : PowerSign [CodePoint.ofChar '-'] true

/-- The integer of this size with this sign. -/
def signed (negative : Bool) (n : Nat) : Int := if negative then -(n : Int) else n

/-- A power of ten, or nothing. -/
inductive Power : Text → (exponent : Int) → Prop where
  | none : Power [] 0
  | mark {e : CodePoint} {sign digits : Text} {negative : Bool}
      (letter : e = CodePoint.ofChar 'e' ∨ e = CodePoint.ofChar 'E')
      (sign' : PowerSign sign negative) (digits' : IsDigits digits) :
      Power (e :: (sign ++ digits)) (signed negative (Digits.value 10 (Digits.ofText digits)))

/-- The minus sign of a number, which has no other one. -/
def minus (negative : Bool) : Text := if negative then [CodePoint.ofChar '-'] else []

/-- The text is a number of this value. One without a fraction or a power is an integer, the digits
of which a `limit` bounds. -/
inductive Number (limit : Option Nat) : Text → Json → Prop where
  | int {negative : Bool} {digits : Text} (whole : IsWhole digits)
      (short : ∀ most ∈ limit, digits.length ≤ most) :
      Number limit (minus negative ++ digits)
        (.int (signed negative (Digits.value 10 (Digits.ofText digits))))
  | float {negative : Bool} {digits fraction places power : Text} {exponent : Int}
      (whole : IsWhole digits) (fraction' : Fraction fraction places)
      (power' : Power power exponent) (some : fraction ++ power ≠ []) :
      Number limit (minus negative ++ (digits ++ (fraction ++ power)))
        (.float (.ofDecimal negative (Digits.value 10 (Digits.ofText (digits ++ places)))
          (exponent - places.length)))

/-- A number starts with a digit, or has one behind its minus sign. -/
theorem Number.front (h : Number limit t j) :
    ∃ c t', c.isDigit = true ∧ (t = c :: t' ∨ t = CodePoint.ofChar '-' :: c :: t') := by
  have front (negative : Bool) {digits : Text} (whole : IsWhole digits) (after : Text) :
      ∃ c t', c.isDigit = true ∧ (minus negative ++ (digits ++ after) = c :: t' ∨
        minus negative ++ (digits ++ after) = CodePoint.ofChar '-' :: c :: t') := by
    obtain ⟨c, t', rfl, digit⟩ := whole.digits.eq_cons
    cases negative with
    | false => exact ⟨c, t' ++ after, digit, .inl rfl⟩
    | true => exact ⟨c, t' ++ after, digit, .inr rfl⟩
  cases h with
  | @int negative digits whole short => simpa using front negative whole []
  | @float negative _ _ _ _ _ whole _ _ _ => exact front negative whole _

theorem Number.ne_nil (h : Number limit t j) : t ≠ [] := by
  obtain ⟨c, t', _, rfl | rfl⟩ := h.front <;> exact List.cons_ne_nil _ _

/-- A limit refuses numbers only. -/
theorem Number.unlimited (h : Number limit t j) : Number none t j := by
  cases h with
  | int whole short => exact .int whole nofun
  | float whole fraction power some => exact .float whole fraction power some

/-! ## What is read is a number -/

theorem exists_of_readWhole {digits : List Nat} (h : readWhole t = some (digits, rest)) :
    ∃ s, IsWhole s ∧ t = s ++ rest ∧ digits = Digits.ofText s := by
  cases t with
  | nil => cases h
  | cons c t =>
    rw [readWhole] at h
    by_cases zero : c = CodePoint.ofChar '0'
    · rw [if_pos zero] at h
      cases h
      exact ⟨[c], ⟨⟨List.cons_ne_nil c [], by simp only [zero]; decide⟩, fun _ => by rw [zero]⟩,
        rfl, by rw [zero]; rfl⟩
    · rw [if_neg zero] at h
      split at h
      next digit =>
        obtain ⟨s, all, eq, rfl⟩ := exists_of_span (Option.some.inj h)
        cases s with
        | nil =>
          -- The first digit is one of the run.
          have more := congrArg Prod.fst (Option.some.inj h)
          simp [Digits.span, Digits.ofText, digit] at more
        | cons d s =>
          cases eq
          have whole : IsWhole (c :: s) :=
            ⟨⟨List.cons_ne_nil c s, all⟩, fun lead => absurd (Option.some.inj lead) zero⟩
          exact ⟨c :: s, whole, rfl, rfl⟩
      · cases h

theorem exists_of_readFraction {digits : List Nat} (h : readFraction t = some (digits, rest)) :
    ∃ places, IsDigits places ∧ t = CodePoint.ofChar '.' :: (places ++ rest) ∧
      digits = Digits.ofText places := by
  cases t with
  | nil => cases h
  | cons c t =>
    rw [readFraction] at h
    split at h
    next point =>
      split at h
      · cases h
      next some =>
        obtain ⟨places, all, rfl, rfl⟩ := exists_of_span (Option.some.inj h)
        refine ⟨places, ⟨?_, all⟩, by rw [point], rfl⟩
        rintro rfl
        exact some _ (Option.some.inj h)
    · cases h

theorem exists_of_sign {negative : Bool} (h : Integer.sign t = (negative, rest)) :
    ∃ s, PowerSign s negative ∧ t = s ++ rest := by
  cases t with
  | nil =>
    cases h
    exact ⟨[], .none, rfl⟩
  | cons c t =>
    rw [Integer.sign] at h
    split at h
    next minus =>
      cases h
      exact ⟨_, .minus, by rw [minus]; rfl⟩
    · split at h
      next plus =>
        cases h
        exact ⟨_, .plus, by rw [plus]; rfl⟩
      · cases h
        exact ⟨[], .none, rfl⟩

theorem exists_of_readPower {exponent : Int} (h : readPower t = some (exponent, rest)) :
    ∃ s, Power s exponent ∧ s ≠ [] ∧ t = s ++ rest := by
  cases t with
  | nil => cases h
  | cons c t =>
    rw [readPower] at h
    split at h
    next mark =>
      split at h
      next negative body signed =>
      split at h
      · cases h
      next digits after some span =>
        cases h
        obtain ⟨sign, sign', rfl⟩ := exists_of_sign signed
        obtain ⟨s, all, rfl, rfl⟩ := exists_of_span span
        have digits : IsDigits s := ⟨fun none => some (by rw [none]; rfl), all⟩
        have letter : c = CodePoint.ofChar 'e' ∨ c = CodePoint.ofChar 'E' := by simpa using mark
        exact ⟨_, .mark letter sign' digits, List.cons_ne_nil _ _, by simp⟩
    · cases h

theorem eq_of_sign {negative : Bool} {body : Text} (signed : (match t with
      | c :: t' => if c = '-' then (true, t') else (false, t)
      | [] => (false, [])) = (negative, body)) : t = minus negative ++ body := by
  cases t with
  | nil =>
    cases signed
    rfl
  | cons c t =>
    replace signed : (if c = CodePoint.ofChar '-' then (true, t) else (false, c :: t)) =
      (negative, body) := signed
    split at signed
    next minus =>
      cases signed
      rw [minus]
      rfl
    · cases signed
      rfl

/-- Where there is no power it is counted as zero. -/
theorem exists_of_readPower_getD {exponent : Int}
    (h : (readPower t).getD (0, t) = (exponent, rest)) : ∃ s, Power s exponent ∧ t = s ++ rest := by
  cases found : readPower t with
  | none =>
    rw [found] at h
    cases h
    exact ⟨[], .none, rfl⟩
  | some result =>
    rw [found] at h
    cases h
    obtain ⟨s, power, _, eq⟩ := exists_of_readPower found
    exact ⟨s, power, eq⟩

/-- What is read as a number is one, with whatever follows it. -/
theorem number_of_readNumber (h : readNumber limit t = .ok (j, rest)) :
    ∃ s, Number limit s j ∧ t = s ++ rest := by
  unfold readNumber at h
  split at h
  next negative body signed =>
  have sign : t = minus negative ++ body := eq_of_sign signed
  split at h
  · cases h
  next digits after found =>
    obtain ⟨digits, whole, rfl, rfl⟩ := exists_of_readWhole found
    split at h
    next places behind found =>
      obtain ⟨places, digits', rfl, rfl⟩ := exists_of_readFraction found
      split at h
      next exponent final powered =>
      cases h
      obtain ⟨power, power', rfl⟩ := exists_of_readPower_getD powered
      rw [← Digits.ofText_append, Digits.length_ofText]
      exact ⟨_, .float whole (.point digits') power' (by simp), by simp [sign]⟩
    · split at h
      next exponent final found =>
        cases h
        obtain ⟨power, power', some, rfl⟩ := exists_of_readPower found
        have float : Number limit (minus negative ++ (digits ++ ([] ++ power))) _ :=
          .float whole .none power' some
        rw [List.append_nil] at float
        exact ⟨_, by simpa using float, by simp [sign]⟩
      · split at h
        · cases h
        next short =>
          cases h
          refine ⟨_, .int whole fun most among => ?_, by simp [sign]⟩
          obtain rfl : limit = some most := among
          simpa [Digits.length_ofText] using short

/-! ## A number is read where nothing carries it on -/

/-- What follows a number and does not carry it on. -/
def EndsNumber (rest : Text) : Prop :=
  ∀ c ∈ rest.head?, c.isDigit = false ∧ c ≠ CodePoint.ofChar '.' ∧ c ≠ CodePoint.ofChar 'e' ∧
    c ≠ CodePoint.ofChar 'E'

theorem EndsNumber.endsDigits (h : EndsNumber rest) : EndsDigits rest := fun c hc => (h c hc).1

theorem Power.endsDigits {power : Text} {exponent : Int} (h : Power power exponent)
    (ends : EndsNumber rest) : EndsDigits (power ++ rest) := by
  cases h with
  | none => exact ends.endsDigits
  | mark letter sign digits =>
    rintro _ ⟨⟩
    rcases letter with rfl | rfl
    · decide
    · decide

theorem Fraction.endsDigits {fraction places after : Text} (h : Fraction fraction places)
    (ends : EndsDigits after) : EndsDigits (fraction ++ after) := by
  cases h with
  | none => exact ends
  | point digits =>
    rintro _ ⟨⟩
    decide

theorem IsWhole.readWhole (h : IsWhole t) (ends : EndsDigits rest) :
    readWhole (t ++ rest) = some (Digits.ofText t, rest) := by
  obtain ⟨c, s, rfl, digit⟩ := h.digits.eq_cons
  rw [List.cons_append, Json.readWhole]
  by_cases zero : c = CodePoint.ofChar '0'
  · cases h.lead (congrArg some zero)
    rfl
  · rw [if_neg zero, if_pos digit, ← List.cons_append, h.digits.span ends]

theorem IsDigits.readFraction (h : IsDigits t) (ends : EndsDigits rest) :
    readFraction (CodePoint.ofChar '.' :: (t ++ rest)) = some (Digits.ofText t, rest) := by
  rw [Json.readFraction, if_pos rfl, h.span ends]
  split
  next none => exact absurd (congrArg Prod.fst none) h.ofText_ne_nil
  · rfl

theorem readFraction_of_ne (h : ∀ c ∈ t.head?, c ≠ CodePoint.ofChar '.') :
    readFraction t = none := by
  cases t with
  | nil => rfl
  | cons c t => exact if_neg (h c rfl)

theorem PowerSign.sign {s : Text} {negative : Bool} (h : PowerSign s negative)
    (digits : IsDigits t) : Integer.sign (s ++ (t ++ rest)) = (negative, t ++ rest) := by
  cases h with
  | plus => rfl
  | minus => rfl
  | none =>
    obtain ⟨c, t, rfl, digit⟩ := digits.eq_cons
    have minus : c ≠ CodePoint.ofChar '-' := CodePoint.ne_of_isDigit digit (by decide)
    have plus : c ≠ CodePoint.ofChar '+' := CodePoint.ne_of_isDigit digit (by decide)
    rw [List.nil_append, List.cons_append, Integer.sign, if_neg minus, if_neg plus]

theorem Power.readPower {exponent : Int} (h : Power t exponent) (some : t ≠ [])
    (ends : EndsDigits rest) : readPower (t ++ rest) = .some (exponent, rest) := by
  cases h with
  | none => exact absurd rfl some
  | @mark e _ _ _ letter sign digits =>
    have mark : (decide (e = CodePoint.ofChar 'e') || decide (e = CodePoint.ofChar 'E')) = true :=
      by simpa using letter
    rw [List.cons_append, List.append_assoc, Json.readPower, if_pos mark, sign.sign digits]
    dsimp only
    rw [digits.span ends]
    split
    next none => exact absurd (congrArg Prod.fst none) digits.ofText_ne_nil
    next found =>
      cases found
      rfl

theorem EndsNumber.readPower (h : EndsNumber rest) : readPower rest = none := by
  cases rest with
  | nil => rfl
  | cons c t =>
    have neither : ¬ ((decide (c = CodePoint.ofChar 'e') || decide (c = CodePoint.ofChar 'E')) =
        true) := by
      simp [(h c rfl).2.2.1, (h c rfl).2.2.2]
    exact if_neg neither

theorem EndsNumber.readFraction (h : EndsNumber rest) : readFraction rest = none :=
  readFraction_of_ne fun c hc => (h c hc).2.1

/-- There is no fraction behind a power. -/
theorem Power.readFraction {exponent : Int} (h : Power t exponent) (ends : EndsNumber rest) :
    readFraction (t ++ rest) = .none := by
  cases h with
  | none => exact ends.readFraction
  | mark letter sign digits =>
    refine readFraction_of_ne ?_
    rintro _ ⟨⟩
    rcases letter with rfl | rfl
    · decide
    · decide

/-- The sign in front of a digit is told from the digits. -/
theorem eq_of_minus {negative negative' : Bool} {digits body after : Text} (h : IsDigits digits)
    (signed : (match minus negative ++ (digits ++ after) with
      | c :: t => if c = '-' then (true, t) else (false, minus negative ++ (digits ++ after))
      | [] => (false, [])) = (negative', body)) :
    negative' = negative ∧ body = digits ++ after := by
  obtain ⟨c, s, rfl, digit⟩ := h.eq_cons
  have other : c ≠ CodePoint.ofChar '-' := CodePoint.ne_of_isDigit digit (by decide)
  cases negative with
  | false =>
    have plain : (false, minus false ++ (c :: s ++ after)) = (negative', body) :=
      (if_neg other).symm.trans signed
    cases plain
    exact ⟨rfl, rfl⟩
  | true =>
    cases signed
    exact ⟨rfl, rfl⟩

theorem Number.readNumber (h : Number limit t j) (ends : EndsNumber rest) :
    readNumber limit (t ++ rest) = .ok (j, rest) := by
  cases h with
  | @int negative digits whole short =>
    have read := whole.readWhole ends.endsDigits
    have short : limit.any (· < (Digits.ofText digits).length) = false := by
      rw [Digits.length_ofText]
      cases limit with
      | none => rfl
      | some most => exact decide_eq_false (Nat.not_lt.mpr (short most rfl))
    rw [List.append_assoc]
    unfold Json.readNumber
    split
    next negative' body signed =>
    obtain ⟨rfl, rfl⟩ := eq_of_minus whole.digits signed
    simp only [read, ends.readFraction, ends.readPower, short]
    rfl
  | @float negative digits fraction places power exponent whole fraction' power' some => 
    have behind := power'.endsDigits ends
    have read := whole.readWhole (fraction'.endsDigits behind)
    rw [List.append_assoc, List.append_assoc, List.append_assoc]
    unfold Json.readNumber
    split
    next negative' body signed =>
    obtain ⟨rfl, rfl⟩ := eq_of_minus whole.digits signed
    rw [read, Digits.ofText_append, ← Digits.length_ofText places]
    cases fraction' with
    | none =>
      simp only [List.nil_append, power'.readFraction ends, power'.readPower some ends.endsDigits]
      simp [Digits.ofText]
    | point digits' =>
      simp only [List.cons_append, digits'.readFraction behind]
      cases power' with
      | none =>
        rw [List.nil_append, ends.readPower]
        rfl
      | mark letter sign digits =>
        rw [(Power.mark letter sign digits).readPower (List.cons_ne_nil _ _) ends.endsDigits]
        rfl

/-! ## Pieces of strings -/

/-- What a string is made of: code points, and code units that are given by their number. -/
inductive Piece where
  | point (c : CodePoint)
  | unit (n : Nat)

/-- The text starts with these pieces and the closing quote behind them. -/
inductive Quoted : Text → List Piece → Text → Prop where
  | close {t : Text} : Quoted (CodePoint.ofChar '"' :: t) [] t
  | plain {c : CodePoint} {t rest : Text} {pieces : List Piece} (quote : c ≠ CodePoint.ofChar '"')
      (backslash : c ≠ CodePoint.ofChar '\\') (visible : 0x20 ≤ c.val)
      (h : Quoted t pieces rest) : Quoted (c :: t) (.point c :: pieces) rest
  | letter {e c : CodePoint} {t rest : Text} {pieces : List Piece}
      (meaning : shortEscape? e = some c) (h : Quoted t pieces rest) :
      Quoted (CodePoint.ofChar '\\' :: e :: t) (.point c :: pieces) rest
  | unit {a b c d : CodePoint} {n : Nat} {t rest : Text} {pieces : List Piece}
      (hex : hexOfFour? a b c d = some n) (h : Quoted t pieces rest) :
      Quoted (CodePoint.ofChar '\\' :: CodePoint.ofChar 'u' :: a :: b :: c :: d :: t)
        (.unit n :: pieces) rest

def IsHigh (n : Nat) : Prop := 0xD800 ≤ n ∧ n ≤ 0xDBFF

def IsLow (n : Nat) : Prop := 0xDC00 ≤ n ∧ n ≤ 0xDFFF

instance (n : Nat) : Decidable (IsHigh n) := inferInstanceAs (Decidable (_ ∧ _))

instance (n : Nat) : Decidable (IsLow n) := inferInstanceAs (Decidable (_ ∧ _))

/-- The text of the pieces. A high and a low surrogate in a row are one code point. -/
def textOf : List Piece → Text
  | [] => []
  | .point c :: pieces => c :: textOf pieces
  | .unit high :: .unit low :: pieces =>
    if IsHigh high ∧ IsLow low then
      .ofNat (0x10000 + (high - 0xD800) * 0x400 + (low - 0xDC00)) :: textOf pieces
    else .ofNat high :: textOf (.unit low :: pieces)
  | .unit n :: pieces => .ofNat n :: textOf pieces

/-- The text starts with the rest of a string, up to its closing quote. -/
def IsString (t s rest : Text) : Prop := ∃ pieces, Quoted t pieces rest ∧ textOf pieces = s

theorem Quoted.length_lt {pieces : List Piece} (h : Quoted t pieces rest) :
    rest.length < t.length := by
  induction h with
  | close => exact Nat.lt_succ_self _
  | plain _ _ _ _ ih => exact Nat.lt_succ_of_lt ih
  | letter _ _ ih => exact Nat.lt_succ_of_lt (Nat.lt_succ_of_lt ih)
  | unit _ _ ih =>
    simp only [List.length_cons]
    omega

theorem IsString.length_lt {s : Text} (h : IsString t s rest) : rest.length < t.length := by
  obtain ⟨pieces, quoted, _⟩ := h
  exact quoted.length_lt

/-! ## Reading pieces -/

theorem readString_plain (opening : Text) {c : CodePoint} (hq : c ≠ CodePoint.ofChar '"')
    (hb : c ≠ CodePoint.ofChar '\\') (hc : ¬ c.val < 0x20) (t : Text) (afterHigh : Bool)
    (done : Text) :
    readString opening (c :: t) afterHigh done = readString opening t false (c :: done) := by
  rw [readString.eq_def]
  simp only [if_neg hq, if_neg hb, if_neg hc]

theorem readString_letter (opening : Text) {e c : CodePoint} (he : shortEscape? e = some c)
    (t : Text) (afterHigh : Bool) (done : Text) :
    readString opening (CodePoint.ofChar '\\' :: e :: t) afterHigh done =
      readString opening t false (c :: done) := by
  have quote : CodePoint.ofChar '\\' ≠ CodePoint.ofChar '"' := by decide
  have unit : e ≠ CodePoint.ofChar 'u' := by
    have none : shortEscape? (CodePoint.ofChar 'u') = none := rfl
    rintro rfl
    cases none.symm.trans he
  rw [readString.eq_def]
  simp only [if_neg quote, if_true, if_neg unit, he]

/-- The escape of a unit is read as the unit, as long as something follows. -/
theorem readString_unit (opening : Text) {a b c d : CodePoint} {n : Nat}
    (hex : hexOfFour? a b c d = some n) (more : t ≠ []) (afterHigh : Bool) (done : Text) :
    readString opening
        (CodePoint.ofChar '\\' :: CodePoint.ofChar 'u' :: a :: b :: c :: d :: t) afterHigh done =
      readString opening t (0xD800 ≤ n && n ≤ 0xDBFF) (pushUnit n afterHigh done) := by
  have quote : CodePoint.ofChar '\\' ≠ CodePoint.ofChar '"' := by decide
  have more : t.isEmpty = false := List.isEmpty_eq_false_iff.mpr more
  rw [readString.eq_def]
  simp only [if_neg quote, if_true, hex, more]

/-- A piece behind those that were read, with what is known of the last of them. -/
def push (state : Text × Bool) : Piece → Text × Bool
  | .point c => (c :: state.1, false)
  | .unit n => (pushUnit n state.2 state.1, 0xD800 ≤ n && n ≤ 0xDBFF)

theorem Quoted.readString {pieces : List Piece} (h : Quoted t pieces rest) (opening : Text)
    (state : Text × Bool) :
    readString opening t state.2 state.1 = .ok ((pieces.foldl push state).1.reverse, rest) := by
  induction h generalizing state with
  | close =>
    rw [readString.eq_def]
    simp
  | @plain c _ _ _ quote backslash visible h ih =>
    rw [readString_plain opening quote backslash (Nat.not_lt.mpr visible)]
    exact ih (push state (.point c))
  | @letter _ c _ _ _ meaning h ih =>
    rw [readString_letter opening meaning]
    exact ih (push state (.point c))
  | @unit _ _ _ _ n _ _ _ hex h ih =>
    rw [readString_unit opening hex (List.ne_nil_of_length_pos (Nat.zero_lt_of_lt h.length_lt))]
    exact ih (push state (.unit n))

theorem exists_of_readString {opening s done : Text} {afterHigh : Bool}
    (h : readString opening t afterHigh done = .ok (s, rest)) :
    ∃ pieces, Quoted t pieces rest ∧ s = (pieces.foldl push (done, afterHigh)).1.reverse := by
  -- Each case that reads on takes a piece.
  fun_induction Json.readString opening t afterHigh done with
  | case2 =>
    cases h
    exact ⟨[], .close, rfl⟩
  | case4 _ _ _ _ _ _ _ _ _ hex _ ih =>
    obtain ⟨pieces, quoted, eq⟩ := ih h
    exact ⟨.unit _ :: pieces, .unit hex quoted, eq⟩
  | case7 _ _ _ _ _ _ meaning _ ih =>
    obtain ⟨pieces, quoted, eq⟩ := ih h
    exact ⟨.point _ :: pieces, .letter meaning quoted, eq⟩
  | case10 _ _ _ _ quote backslash visible ih =>
    obtain ⟨pieces, quoted, eq⟩ := ih h
    exact ⟨.point _ :: pieces, .plain quote backslash (Nat.not_lt.mp visible) quoted, eq⟩
  | _ => cases h

/-! ## Surrogates -/

theorem pushUnit_of_not_low {unit : Nat} (h : ¬ IsLow unit) (afterHigh : Bool) (done : Text) :
    pushUnit unit afterHigh done = CodePoint.ofNat unit :: done := by
  cases done with
  | nil => rfl
  | cons high before =>
    have outside : (afterHigh && decide (0xDC00 ≤ unit) && decide (unit ≤ 0xDFFF)) = false := by
      rw [Bool.and_assoc, ← Bool.decide_and]
      exact (congrArg _ (decide_eq_false h)).trans (Bool.and_false _)
    rw [pushUnit, outside]
    rfl

theorem pushUnit_false (unit : Nat) (done : Text) :
    pushUnit unit false done = CodePoint.ofNat unit :: done := by
  cases done <;> rfl

/-- A low surrogate joins the high one that was read before it. -/
theorem pushUnit_pair {high low : Nat} (hh : IsHigh high) (hl : IsLow low) (done : Text) :
    pushUnit low true (CodePoint.ofNat high :: done) =
      CodePoint.ofNat (0x10000 + (high - 0xD800) * 0x400 + (low - 0xDC00)) :: done := by
  have joins : (true && decide (0xDC00 ≤ low) && decide (low ≤ 0xDFFF)) = true := by
    simpa using show 0xDC00 ≤ low ∧ low ≤ 0xDFFF from hl
  rw [pushUnit, if_pos joins, CodePoint.val_ofNat (by unfold IsHigh at hh; omega)]

/-- That a high surrogate was read last makes no difference where no low one follows. -/
theorem foldl_push_of_not_low {pieces : List Piece} {afterHigh : Bool} {done : Text}
    (h : ∀ low more, pieces = .unit low :: more → afterHigh = true → ¬ IsLow low) :
    (pieces.foldl push (done, afterHigh)).1 = (pieces.foldl push (done, false)).1 := by
  match pieces with
  | [] => rfl
  | .point c :: pieces => rfl
  | .unit n :: pieces =>
    have same : push (done, afterHigh) (.unit n) = push (done, false) (.unit n) := by
      cases afterHigh with
      | false => rfl
      | true => rw [push, push, pushUnit_of_not_low (h n pieces rfl rfl), pushUnit_false]
    rw [List.foldl_cons, same, List.foldl_cons]

theorem high_iff {n : Nat} : (decide (0xD800 ≤ n) && decide (n ≤ 0xDBFF)) = true ↔ IsHigh n := by
  rw [Bool.and_eq_true, decide_eq_true_eq, decide_eq_true_eq, IsHigh]

theorem IsLow.not_high {n : Nat} (h : IsLow n) :
    (decide (0xD800 ≤ n) && decide (n ≤ 0xDBFF)) = false := by
  refine Bool.eq_false_iff.mpr fun high => ?_
  have below := (high_iff.mp high).2
  have above := h.1
  omega

/-- By the recursion of `textOf`: behind a unit that is no part of a pair reading goes on as if none
had been read. -/
theorem reverse_foldl_push (pieces : List Piece) (done : Text) :
    (pieces.foldl push (done, false)).1.reverse = done.reverse ++ textOf pieces := by
  have alone (n : Nat) (pieces : List Piece) (done : Text)
      (ih : ∀ done, (pieces.foldl push (done, false)).1.reverse = done.reverse ++ textOf pieces)
      (apart : ∀ low more, pieces = .unit low :: more → IsHigh n → ¬ IsLow low) :
      ((Piece.unit n :: pieces).foldl push (done, false)).1.reverse =
        done.reverse ++ CodePoint.ofNat n :: textOf pieces := by
    rw [List.foldl_cons, push, pushUnit_false,
      foldl_push_of_not_low fun low more eq high => apart low more eq (high_iff.mp high), ih,
      List.reverse_cons, List.append_assoc, List.singleton_append]
  fun_induction textOf pieces generalizing done with
  | case1 => exact (List.append_nil _).symm
  | case2 c pieces ih =>
    rw [List.foldl_cons, push, ih, List.reverse_cons, List.append_assoc, List.singleton_append]
  | case3 high low pieces pair ih =>
    rw [List.foldl_cons, List.foldl_cons, push, push, pushUnit_false, high_iff.mpr pair.1,
      pushUnit_pair pair.1 pair.2, pair.2.not_high, ih, List.reverse_cons, List.append_assoc,
      List.singleton_append]
  | case4 high low pieces apart ih =>
    refine alone high _ done ih fun low' more eq isHigh isLow => ?_
    cases eq
    exact apart ⟨isHigh, isLow⟩
  | case5 n pieces none ih =>
    exact alone n pieces done ih fun low more eq => (none low more eq).elim

/-- Reading a string gives the text of its pieces, wherever it stands. -/
theorem readString_eq_ok_iff (opening : Text) {s : Text} :
    readString opening t false [] = .ok (s, rest) ↔ IsString t s rest := by
  constructor
  · intro h
    obtain ⟨pieces, quoted, rfl⟩ := exists_of_readString h
    exact ⟨pieces, quoted, (reverse_foldl_push pieces []).symm⟩
  · rintro ⟨pieces, quoted, rfl⟩
    rw [quoted.readString opening ([], false), reverse_foldl_push]
    rfl

/-- A string ends at its first quote that is no escape. -/
theorem IsString.unique {s s' rest' : Text} (h : IsString t s rest) (h' : IsString t s' rest') :
    s = s' ∧ rest = rest' := by
  have read := (readString_eq_ok_iff []).mpr h
  rw [(readString_eq_ok_iff []).mpr h'] at read
  cases read
  exact ⟨rfl, rfl⟩

end PartRelay.Json
