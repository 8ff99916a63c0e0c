import Mathlib.Data.List.Basic
import PartRelay.Proofs.Bytes.Base64Grammar

/-!
# The language of base64

A text is read strictly where it is full quads of digits with one of four endings behind them. Any
other text is refused, and the cause is in how many digits it starts with, how much padding follows
them, and what follows that. Main statement: `strict_language`.
-/

namespace PartRelay.Base64

variable {t digits rest : Text} {bs : Bytes} {e : ReadError}

theorem padding_not_mem_alphabet : CodePoint.ofChar '=' ∉ alphabet := by
  decide

/-! ## Texts that are read -/

/-- What may stand behind so many full quads, and how many bytes it holds. -/
inductive IsEnding (quads : Nat) : Text → Nat → Prop where
  | nothing : IsEnding quads [] 0
  | one {a b : CodePoint} (ha : a ∈ alphabet) (hb : b ∈ alphabet) :
      IsEnding quads [a, b, CodePoint.ofChar '=', CodePoint.ofChar '='] 1
  | two {a b c : CodePoint} (ha : a ∈ alphabet) (hb : b ∈ alphabet) (hc : c ∈ alphabet) :
      IsEnding quads [a, b, c, CodePoint.ofChar '='] 2
  | padding (behind : 0 < quads) (pads : Nat) :
      IsEnding quads (List.replicate pads (CodePoint.ofChar '=')) 0

/-- Full quads of digits with an ending behind them, and how many bytes they hold together. -/
inductive Holds : Text → Nat → Prop where
  | intro {digits ending : Text} {quads extra : Nat} (known : ∀ c ∈ digits, c ∈ alphabet)
      (full : digits.length = 4 * quads) (ends : IsEnding quads ending extra) :
      Holds (digits ++ ending) (3 * quads + extra)

/-- What is spelled goes on behind full quads, as long as the text does not start with padding. -/
theorem Spells.holds_append (h : Spells t bs) {quads : Nat} (known : ∀ c ∈ digits, c ∈ alphabet)
    (full : digits.length = 4 * quads)
    (front : 0 < quads ∨ t.head? ≠ some (CodePoint.ofChar '=')) :
    Holds (digits ++ t) (3 * quads + bs.length) := by
  have among {c : CodePoint} {v : Nat} (h : value? c = some v) : c ∈ alphabet :=
    exists_value?_iff.mp ⟨v, h⟩
  induction h generalizing digits quads with
  | padding pads =>
    rcases front with behind | front
    · exact .intro known full (.padding behind pads)
    · cases pads with
      | zero => exact .intro known full .nothing
      | succ pads => exact absurd rfl front
  | one ha hb => exact .intro known full (.one (among ha) (among hb))
  | two ha hb hc => exact .intro known full (.two (among ha) (among hb) (among hc))
  | @quad a b c d x y z w t bs ha hb hc hd rest ih =>
    have more : ∀ p ∈ digits ++ [a, b, c, d], p ∈ alphabet := by
      intro p member
      rcases List.mem_append.mp member with old | new
      · exact known p old
      · have four : ∀ p ∈ [a, b, c, d], p ∈ alphabet := by
          simp only [List.forall_mem_cons]
          exact ⟨among ha, among hb, among hc, among hd, List.forall_mem_nil _⟩
        exact four p new
    have length : (digits ++ [a, b, c, d]).length = 4 * (quads + 1) := by
      rw [List.length_append, full]
      rfl
    have holds := ih more length (.inl (Nat.succ_pos _))
    rw [List.append_assoc] at holds
    have size : 3 * quads + (bytesOfQuad [x, y, z, w] ++ bs).length =
        3 * (quads + 1) + bs.length := by
      rw [List.length_append, Nat.mul_succ, Nat.add_assoc]
      rfl
    rw [size]
    exact holds

/-- An ending holds some bytes. -/
theorem IsEnding.exists_spells {quads extra : Nat} (h : IsEnding quads t extra) :
    ∃ bs, Spells t bs ∧ bs.length = extra := by
  cases h with
  | nothing => exact ⟨[], .padding 0, rfl⟩
  | one ha hb =>
    obtain ⟨_, ha⟩ := exists_value?_iff.mpr ha
    obtain ⟨_, hb⟩ := exists_value?_iff.mpr hb
    exact ⟨_, .one ha hb, rfl⟩
  | two ha hb hc =>
    obtain ⟨_, ha⟩ := exists_value?_iff.mpr ha
    obtain ⟨_, hb⟩ := exists_value?_iff.mpr hb
    obtain ⟨_, hc⟩ := exists_value?_iff.mpr hc
    exact ⟨_, .two ha hb hc, rfl⟩
  | padding behind pads => exact ⟨[], .padding pads, rfl⟩

/-- Text with a digit in front does not start with padding. -/
theorem Holds.head?_ne {size : Nat} (h : Holds t size) :
    t.head? ≠ some (CodePoint.ofChar '=') := by
  have plain {c : CodePoint} (known : c ∈ alphabet) : c ≠ CodePoint.ofChar '=' :=
    fun same => padding_not_mem_alphabet (same ▸ known)
  cases h with
  | @intro digits ending quads extra known full ends =>
    cases digits with
    | cons c digits => exact fun same => plain (known c List.mem_cons_self) (Option.some.inj same)
    | nil =>
      cases ends with
      | nothing => exact nofun
      | one ha hb => exact fun same => plain ha (Option.some.inj same)
      | two ha hb hc => exact fun same => plain ha (Option.some.inj same)
      | padding behind pads => exact absurd full (by simp; omega)

/-- Text that is read holds just as many bytes as are read from it. -/
theorem exists_readStrict_iff {size : Nat} :
    (∃ bs, readStrict t = .ok bs ∧ bs.length = size) ↔ Holds t size := by
  constructor
  · rintro ⟨bs, read, rfl⟩
    obtain ⟨spells, front⟩ := readStrict_eq_ok_iff.mp read
    have holds : Holds ([] ++ t) (3 * 0 + bs.length) :=
      spells.holds_append (List.forall_mem_nil _) rfl (.inr front)
    rwa [List.nil_append, Nat.mul_zero, Nat.zero_add] at holds
  · intro h
    have front := h.head?_ne
    cases h with
    | @intro digits ending quads extra known full ends =>
      obtain ⟨before, rfl, length⟩ := exists_write digits known (by omega)
      obtain ⟨behind, spells, rfl⟩ := ends.exists_spells
      refine ⟨before ++ behind, readStrict_eq_ok_iff.mpr ⟨spells.write_append before ?_, front⟩, ?_⟩
      · omega
      · rw [List.length_append]
        omega

/-! ## Texts that are refused -/

/-- A text as digits, padding behind them, and a rest that goes on with neither. -/
structure IsLaidOut (t digits : Text) (pads : Nat) (rest : Text) : Prop where
  text : t = digits ++ (List.replicate pads (CodePoint.ofChar '=') ++ rest)
  known : ∀ c ∈ digits, c ∈ alphabet
  plain : ∀ c ∈ rest.head?, c ≠ CodePoint.ofChar '='
  unpadded : pads = 0 → ∀ c ∈ rest.head?, c ∉ alphabet

/-- Every text starts with some code points of a class, and does not go on with another one. -/
theorem exists_cut (p : CodePoint → Prop) [DecidablePred p] (t : Text) :
    ∃ front behind : Text,
      t = front ++ behind ∧ (∀ c ∈ front, p c) ∧ ∀ c ∈ behind.head?, ¬ p c := by
  induction t with
  | nil => exact ⟨[], [], rfl, List.forall_mem_nil _, nofun⟩
  | cons c t ih =>
    by_cases first : p c
    · obtain ⟨front, behind, rfl, all, ends⟩ := ih
      exact ⟨c :: front, behind, rfl, List.forall_mem_cons.mpr ⟨first, all⟩, ends⟩
    · refine ⟨[], c :: t, rfl, List.forall_mem_nil _, ?_⟩
      rintro _ ⟨⟩
      exact first

theorem exists_isLaidOut (t : Text) : ∃ digits pads rest, IsLaidOut t digits pads rest := by
  obtain ⟨digits, behind, rfl, known, stops⟩ := exists_cut (· ∈ alphabet) t
  obtain ⟨padding, rest, rfl, all, plain⟩ := exists_cut (· = CodePoint.ofChar '=') behind
  have run : padding = List.replicate padding.length (CodePoint.ofChar '=') :=
    List.eq_replicate_of_mem all
  refine ⟨digits, padding.length, rest, by rw [← run], known, plain, fun none => ?_⟩
  rw [List.length_eq_zero_iff] at none
  rwa [none] at stops

/-- What is wrong with a text of so many digits, so much padding and a rest. Padding that fills up a
started quad ends the text; before that, padding is followed by padding only. -/
def fault? (count pads : Nat) (rest : Text) : Option ReadError :=
  if 2 ≤ count % 4 ∧ 4 ≤ count % 4 + pads then
    if count % 4 + pads = 4 ∧ rest = [] then none else some .excessData
  else match rest with
    | c :: _ => some (if c ∈ alphabet then .discontinuousPadding else .notADigit)
    | [] =>
      if count % 4 = 0 then none
      else if count % 4 = 1 then some (.oneDigitOver count)
      else some .missingPadding

/-- The causes for which a text is refused. -/
inductive Refused (t : Text) : ReadError → Prop where
  | notAscii (foreign : ¬ t.IsAscii) : Refused t .notAscii
  | leading (ascii : t.IsAscii) (front : t.head? = some (CodePoint.ofChar '=')) :
      Refused t .leadingPadding
  | fault {digits rest : Text} {pads : Nat} {e : ReadError} (ascii : t.IsAscii)
      (front : t.head? ≠ some (CodePoint.ofChar '=')) (layout : IsLaidOut t digits pads rest)
      (fault : fault? digits.length pads rest = some e) : Refused t e

/-! ## Reading a text as it is laid out -/

/-- Digits are read as full quads and a quad that they have started. -/
theorem exists_readFrom_digits {quad : List Nat} (known : ∀ c ∈ digits, c ∈ alphabet)
    (short : quad.length < 4) (done : Bytes) :
    ∃ quad' bs, quad'.length = (quad.length + digits.length) % 4 ∧
      bs.length = done.length + (quad.length + digits.length) / 4 * 3 ∧
      ∀ t, readFrom true (digits ++ t) quad 0 false done = readFrom true t quad' 0 false bs := by
  induction digits generalizing quad done with
  | nil =>
    refine ⟨quad, done, ?_, ?_, fun t => rfl⟩
    · exact (Nat.mod_eq_of_lt short).symm
    · simp [Nat.div_eq_of_lt short]
  | cons c digits ih =>
    obtain ⟨first, later⟩ := List.forall_mem_cons.mp known
    obtain ⟨v, value⟩ := exists_value?_iff.mpr first
    obtain ⟨small, rfl⟩ := value?_eq_some_iff.mp value
    -- The digit goes into the quad, or it fills the quad up.
    by_cases room : quad.length < 3
    · obtain ⟨quad', bs, started, bytes, read⟩ := @ih (quad ++ [v]) later (by simp; omega) done
      rw [List.length_append, List.length_singleton, Nat.add_assoc, Nat.add_comm 1] at started bytes
      exact ⟨quad', bs, started, bytes, fun t =>
        (readFrom_digit true small _ room done).trans (read t)⟩
    · obtain ⟨x, y, z, rfl⟩ := List.length_eq_three.mp (by omega : quad.length = 3)
      obtain ⟨quad', bs, started, bytes, read⟩ :=
        @ih [] later (by decide) ((bytesOfQuad [x, y, z, v]).reverseAux done)
      refine ⟨quad', bs, ?_, ?_, fun t => (readFrom_lastDigit true small ..).trans (read t)⟩
      · rw [started]
        simp only [List.length_cons, List.length_nil]
        omega
      · rw [bytes, List.reverseAux_eq]
        simp only [bytesOfQuad, List.length_append, List.length_reverse, List.length_cons,
          List.length_nil]
        omega

/-- Padding that does not fill up a quad is passed over. -/
theorem exists_readFrom_padding {quad : List Nat} {pads seen : Nat} {padded : Bool}
    (unfilled : quad.length < 2 ∨ quad.length + seen + pads < 4) (t : Text) (done : Bytes) :
    ∃ seen', readFrom true (List.replicate pads (CodePoint.ofChar '=') ++ t) quad seen padded done =
      readFrom true t quad seen' (padded || decide (0 < pads)) done := by
  induction pads generalizing seen padded with
  | zero => exact ⟨seen, by simp⟩
  | succ pads ih =>
    rw [List.replicate_succ, List.cons_append, readFrom, if_pos rfl]
    by_cases few : quad.length < 2
    · obtain ⟨seen', read⟩ := @ih seen true (.inl few)
      exact ⟨seen', by rw [if_pos few, read]; simp⟩
    · obtain ⟨seen', read⟩ := @ih (seen + 1) true (.inr (by omega))
      exact ⟨seen', by rw [if_neg few, if_pos (by omega), read]; simp⟩

/-- Padding that fills up a quad ends the text. -/
theorem readFrom_filled {quad : List Nat} {pads seen : Nat} {padded : Bool}
    (started : 2 ≤ quad.length) (room : quad.length + seen < 4)
    (filled : 4 ≤ quad.length + seen + pads) (t : Text) (done : Bytes) :
    readFrom true (List.replicate pads (CodePoint.ofChar '=') ++ t) quad seen padded done =
      if quad.length + seen + pads = 4 ∧ t = [] then
        .ok ((bytesOfQuad quad).reverseAux done).reverse
      else .error .excessData := by
  induction pads generalizing seen padded with
  | zero => omega
  | succ pads ih =>
    rw [List.replicate_succ, List.cons_append, readFrom, if_pos rfl, if_neg (by omega)]
    -- One more is passed over, or it is the one that fills the quad up and nothing may follow.
    by_cases more : quad.length + seen + 1 < 4
    · have next : quad.length + (seen + 1) + pads = quad.length + seen + (pads + 1) := by omega
      rw [if_pos more, ih more (by omega), next]
    · have last : quad.length + seen + (pads + 1) = 4 ∧ t = [] ↔
          List.replicate pads (CodePoint.ofChar '=') ++ t = [] := by
        rw [List.append_eq_nil_iff, List.replicate_eq_nil_iff]
        exact and_congr_left' (by omega)
      rw [if_neg more]
      simp only [last, Bool.true_and, Bool.not_eq_true', List.isEmpty_eq_false_iff, ne_eq, ite_not]

/-- Padding is not followed by anything else, and before it there are digits only. -/
theorem readFrom_cons {c : CodePoint} (plain : c ≠ CodePoint.ofChar '=') (t : Text)
    (quad : List Nat) (seen : Nat) (padded : Bool) (done : Bytes)
    (known : c ∈ alphabet → padded = true) :
    readFrom true (c :: t) quad seen padded done =
      .error (if c ∈ alphabet then .discontinuousPadding else .notADigit) := by
  rw [readFrom, if_neg plain]
  cases value : value? c with
  | none =>
    have unknown : c ∉ alphabet := fun among => by
      obtain ⟨v, some⟩ := exists_value?_iff.mpr among
      rw [value] at some
      cases some
    simp [unknown]
  | some v =>
    have among : c ∈ alphabet := exists_value?_iff.mp ⟨v, value⟩
    simp [among, known among]

/-- A text may end where no quad has been started. -/
theorem readFrom_nil (quad : List Nat) (seen : Nat) (padded : Bool) (done : Bytes) :
    readFrom true [] quad seen padded done =
      if quad.length = 0 then .ok done.reverse
      else if quad.length = 1 then .error (.oneDigitOver (done.length / 3 * 4 + 1))
      else .error .missingPadding := by
  match quad with
  | [] | [_] | _ :: _ :: _ => rfl

/-- What comes of a text is in its layout. -/
theorem IsLaidOut.exists_readFrom {pads : Nat} (h : IsLaidOut t digits pads rest) :
    ∃ bs, readFrom true t [] 0 false [] =
      match fault? digits.length pads rest with
      | none => .ok bs
      | some e => .error e := by
  obtain ⟨rfl, known, plain, unpadded⟩ := h
  obtain ⟨quad, done, started, length, read⟩ :=
    @exists_readFrom_digits digits [] known (by decide) []
  rw [List.length_nil, List.length_nil, Nat.zero_add, Nat.zero_add] at length
  rw [List.length_nil, Nat.zero_add] at started
  have short : quad.length < 4 := by omega
  rw [read]
  unfold fault?
  rw [← started]
  -- The padding fills up what the digits have started, or the rest is read behind it.
  by_cases filled : 2 ≤ quad.length ∧ 4 ≤ quad.length + pads
  · rw [readFrom_filled filled.1 short filled.2, if_pos filled, Nat.add_zero]
    exact ⟨((bytesOfQuad quad).reverseAux done).reverse, by split <;> rfl⟩
  obtain ⟨seen, padding⟩ := @exists_readFrom_padding quad pads 0 false (by omega) rest done
  rw [padding, if_neg filled]
  cases rest with
  | cons c rest =>
    have padded (among : c ∈ alphabet) : (false || decide (0 < pads)) = true := by
      have some : pads ≠ 0 := fun none => unpadded none c rfl among
      simpa using Nat.pos_of_ne_zero some
    exact ⟨[], readFrom_cons (plain c rfl) rest quad seen _ done padded⟩
  | nil =>
    rw [readFrom_nil]
    refine ⟨done.reverse, ?_⟩
    by_cases full : quad.length = 0
    · simp [full]
    by_cases one : quad.length = 1
    · have count : done.length / 3 * 4 + 1 = digits.length := by omega
      simp [one, count]
    · simp [full, one]

/-! ## Strict texts -/

theorem readStrict_of_not_isAscii (foreign : ¬ t.IsAscii) : readStrict t = .error .notAscii := by
  have some : t.all CodePoint.isAscii = false := by
    rw [← Bool.not_eq_true]
    exact fun all => foreign (List.all_eq_true.mp all)
  rw [readStrict, some]
  rfl

theorem readStrict_of_isAscii (ascii : t.IsAscii) :
    readStrict t = if t.head? = some (CodePoint.ofChar '=') then .error .leadingPadding
      else readFrom true t [] 0 false [] := by
  rw [readStrict, List.all_eq_true.mpr ascii]
  rfl

/-- A text that is refused is refused for one of the causes, and where there is a cause it is. -/
theorem readStrict_eq_error_iff : readStrict t = .error e ↔ Refused t e := by
  constructor
  · intro h
    by_cases ascii : t.IsAscii
    · rw [readStrict_of_isAscii ascii] at h
      by_cases front : t.head? = some (CodePoint.ofChar '=')
      · rw [if_pos front] at h
        cases h
        exact .leading ascii front
      · obtain ⟨digits, pads, rest, layout⟩ := exists_isLaidOut t
        obtain ⟨bs, read⟩ := layout.exists_readFrom
        rw [if_neg front, read] at h
        split at h
        · cases h
        next fault =>
          cases h
          exact .fault ascii front layout fault
    · rw [readStrict_of_not_isAscii ascii] at h
      cases h
      exact .notAscii ascii
  · intro h
    cases h with
    | notAscii foreign => exact readStrict_of_not_isAscii foreign
    | leading ascii front => rw [readStrict_of_isAscii ascii, if_pos front]
    | fault ascii front layout fault =>
      obtain ⟨bs, read⟩ := layout.exists_readFrom
      rw [readStrict_of_isAscii ascii, if_neg front, read, fault]

/-- Texts are read that are full quads of digits with an ending, and hold three bytes a quad and
those of the ending; what is written of bytes is such a text and holds these. Every other text is
refused, for the cause that its layout gives. -/
theorem strict_language :
    (∀ t size, (∃ bs, readStrict t = .ok bs ∧ bs.length = size) ↔ Holds t size) ∧
    (∀ bs, readStrict (write bs) = .ok bs) ∧
    (∀ t, (∃ e, readStrict t = .error e) ↔ ¬ ∃ size, Holds t size) ∧
    ∀ t e, readStrict t = .error e ↔ Refused t e := by
  refine ⟨fun _ _ => exists_readStrict_iff, readStrict_write, fun t => ?_,
    fun _ _ => readStrict_eq_error_iff⟩
  constructor
  · rintro ⟨e, refused⟩ ⟨size, holds⟩
    obtain ⟨bs, read, _⟩ := exists_readStrict_iff.mpr holds
    rw [read] at refused
    cases refused
  · intro unheld
    cases read : readStrict t with
    | error e => exact ⟨e, rfl⟩
    | ok bs => exact absurd ⟨_, exists_readStrict_iff.mp ⟨bs, read, rfl⟩⟩ unheld

/-- There is more padding than any quad takes, and then there is something behind it. -/
theorem strict_language_padded :
    (∃ bs, readStrict "QUJDRA==" = .ok bs ∧ bs.length = 4) ∧
      (∃ bs, readStrict "QUJD=====" = .ok bs ∧ bs.length = 3) ∧
      readStrict "QUJD=R" = .error .discontinuousPadding := by
  obtain ⟨held, _, _, refused⟩ := strict_language
  have quad : ∀ c ∈ Text.ofString "QUJD", c ∈ alphabet := by decide
  have full : (Text.ofString "QUJD").length = 4 * 1 := rfl
  have layout : IsLaidOut "QUJD=R" "QUJD" 1 "R" := ⟨rfl, quad, by decide, by decide⟩
  have ascii : (Text.ofString "QUJD=R").IsAscii := by
    rw [Text.IsAscii]
    decide
  refine ⟨(held _ 4).mpr (.intro quad full (.one ?_ ?_)),
    (held _ 3).mpr (.intro quad full (.padding (by decide) 5)),
    (refused _ _).mpr (.fault ascii (by decide) layout rfl)⟩
  · decide
  · decide

end PartRelay.Base64
