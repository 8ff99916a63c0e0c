import PartRelay.Proofs.Bytes.Base64Grammar
import PartRelay.Proofs.Fragment

/-!
# Senders in text

A text names a sender just where it is the text of that sender with any padding behind it. So the
first 44 code points say which sender is meant, and the text of a sender is the one without padding.
-/

namespace PartRelay.Sender

variable {s : Sender} {t : Text}

/-! ## The text of a sender -/

theorem IsValid.full (h : s.IsValid) : s.raw.length % 3 = 0 := by
  rw [h.length_raw]
  decide

theorem IsValid.length_text (h : s.IsValid) : s.text.length = 44 := by
  rw [text, Base64.length_write, h.length_raw]
  decide

/-- A text names a sender just where it is that of the sender, with padding behind. -/
theorem parse_eq_ok_iff_text :
    Sender.parse (some t) = .ok s ↔
      s.IsValid ∧ ∃ pads, t = s.text ++ List.replicate pads (CodePoint.ofChar '=') := by
  constructor
  · intro h
    have valid := isValid_of_parse h
    obtain ⟨_, bs, ⟨⟩, _, read, named⟩ := parse_eq_ok_iff.mp h
    rw [← unmarshal_raw named] at read
    exact ⟨valid, (Base64.readStrict_eq_ok_iff.mp read).1.eq_write valid.full⟩
  · rintro ⟨valid, pads, rfl⟩
    have spells := Base64.spells_write_append pads s.raw valid.full
    obtain ⟨c, u, text⟩ : ∃ c u, s.text = c :: u := by
      rw [← List.length_pos_iff_exists_cons, valid.length_text]
      decide
    have front := Base64.head?_write_ne_padding s.raw
    rw [show Base64.write s.raw = c :: u from text] at front
    refine parse_eq_ok_iff.mpr ⟨_, s.raw, rfl, ?_, Base64.readStrict_eq_ok_iff.mpr ⟨spells, ?_⟩,
      valid⟩
    · rw [text]
      exact List.cons_ne_nil _ _
    · rw [text]
      exact front

theorem IsValid.parse_text (h : s.IsValid) : Sender.parse (some s.text) = .ok s :=
  parse_eq_ok_iff_text.mpr ⟨h, 0, (List.append_nil _).symm⟩

theorem text_of_parse (h : Sender.parse (some t) = .ok s) : s.text = t.take 44 := by
  obtain ⟨valid, pads, rfl⟩ := parse_eq_ok_iff_text.mp h
  rw [← valid.length_text, List.take_left]

/-- The text of a sender tells it from others. -/
theorem raw_eq_of_text {s' : Sender} (h : s.text = s'.text) : s = s' := by
  have read := Base64.readStrict_write s.raw
  rw [show Base64.write s.raw = Base64.write s'.raw from h, Base64.readStrict_write] at read
  exact Sender.ext (Except.ok.inj read).symm

/-! ## Texts of senders -/

/-- Forty-four digits, padding, and bytes behind the digits that are those of a sender. -/
structure IsSenderText (t : Text) : Prop where
  long : 44 ≤ t.length
  digits : ∀ c ∈ t.take 44, c ∈ Base64.alphabet
  padding : ∀ c ∈ t.drop 44, c = CodePoint.ofChar '='
  kind : ∃ bs, Base64.readStrict (t.take 44) = .ok bs ∧ bs.length = 33 ∧
    (bs.getLast?.getD 0).toNat ≤ 3

/-- Forty-four digits are always read, and hold 33 bytes. -/
theorem exists_readStrict {digits : Text} (count : digits.length = 44)
    (known : ∀ c ∈ digits, c ∈ Base64.alphabet) :
    ∃ bs, Base64.readStrict digits = .ok bs ∧ bs.length = 33 := by
  obtain ⟨bs, rfl, length⟩ := Base64.exists_write digits known (by rw [count])
  exact ⟨bs, Base64.readStrict_write bs, by rw [length, count]⟩

theorem isValid_of_length {bs : Bytes} (length : bs.length = 33)
    (kind : (bs.getLast?.getD 0).toNat ≤ 3) : (Sender.mk bs).IsValid := by
  have known : (Sender.mk bs).kind?.isNone = false := by
    rw [Option.isNone_eq_false_iff, kind?, SenderKind.ofCode?_isSome]
    exact kind
  rw [IsValid, unmarshal, if_neg (by rw [length]; decide), known]
  rfl

theorem exists_parse_iff : (∃ s, Sender.parse (some t) = .ok s) ↔ IsSenderText t := by
  constructor
  · rintro ⟨s, h⟩
    obtain ⟨valid, pads, rfl⟩ := parse_eq_ok_iff_text.mp h
    have take := @List.take_left _ s.text (List.replicate pads (CodePoint.ofChar '='))
    have drop := @List.drop_left _ s.text (List.replicate pads (CodePoint.ofChar '='))
    rw [valid.length_text] at take drop
    constructor
    · rw [List.length_append, valid.length_text]
      exact Nat.le_add_right _ _
    · rw [take]
      exact fun c => Base64.mem_alphabet_of_mem_write s.raw valid.full
    · rw [drop]
      exact fun c => List.eq_of_mem_replicate
    · rw [take]
      exact ⟨s.raw, Base64.readStrict_write s.raw, valid.length_raw, valid.kindCode_le⟩
  · rintro ⟨long, digits, padding, bs, read, length, kind⟩
    have valid := isValid_of_length length kind
    refine ⟨⟨bs⟩, parse_eq_ok_iff_text.mpr ⟨valid, t.length - 44, ?_⟩⟩
    obtain ⟨bs', written, _⟩ := Base64.exists_write (t.take 44) digits (by
      rw [List.length_take, Nat.min_eq_left long])
    have same : bs' = bs := by
      rw [← written, Base64.readStrict_write] at read
      exact Except.ok.inj read
    rw [same] at written
    have behind : t.drop 44 = List.replicate (t.length - 44) (CodePoint.ofChar '=') := by
      rw [← List.length_drop]
      exact List.eq_replicate_of_mem padding
    rw [text, written, ← behind, List.take_append_drop]

/-- An identity that `unmarshal` takes, or one that is made of data and a known kind. -/
inductive IsGiven : Sender → Prop where
  | unmarshal {s : Sender} {bs : Bytes} (h : Sender.unmarshal bs = .ok s) : IsGiven s
  | create {s : Sender} {data : Bytes} {kind : SenderKind}
      (h : Sender.create data kind.code = .ok s) : IsGiven s

theorem IsGiven.isValid (h : s.IsGiven) : s.IsValid := by
  cases h with
  | unmarshal h => exact isValid_of_unmarshal h
  | @create data kind h =>
    rw [Sender.create] at h
    split at h
    · cases h
    next length =>
      split at h
      · cases h
      · cases h
        refine isValid_of_length ?_ ?_
        · rw [List.length_append, Decidable.not_not.mp length]
          rfl
        · rw [List.getLast?_concat, Option.getD_some]
          cases kind <;> decide

/-- The texts that name a sender are forty-four digits with padding behind, whose bytes end in a
known kind. The digits are the text of the sender, which names it again. Every sender is named by
its text and given back by its bytes, and two texts name one sender just where their digits
agree. -/
theorem text_canonical :
    (∀ t, (∃ s, Sender.parse (some t) = .ok s) ↔ IsSenderText t) ∧
    (∀ digits : Text, digits.length = 44 → (∀ c ∈ digits, c ∈ Base64.alphabet) →
      ∃ bs, Base64.readStrict digits = .ok bs ∧ bs.length = 33) ∧
    (∀ t s, Sender.parse (some t) = .ok s →
      s.text = t.take 44 ∧ Sender.parse (some (t.take 44)) = .ok s) ∧
    (∀ s, IsGiven s → Sender.unmarshal s.marshal = .ok s ∧ Sender.parse (some s.text) = .ok s) ∧
    ∀ t t' s s', Sender.parse (some t) = .ok s → Sender.parse (some t') = .ok s' →
      (s = s' ↔ t.take 44 = t'.take 44) := by
  refine ⟨fun t => exists_parse_iff, fun digits => exists_readStrict, fun t s named => ?_,
    fun s given => ⟨given.isValid, given.isValid.parse_text⟩, fun t t' s s' named named' => ?_⟩
  · have text := text_of_parse named
    exact ⟨text, text ▸ (isValid_of_parse named).parse_text⟩
  · rw [← text_of_parse named, ← text_of_parse named']
    exact ⟨congrArg text, raw_eq_of_text⟩

/-- A text with more padding than any quad takes names the sender that the text without it names. -/
theorem text_canonical_padded :
    Sender.parse (some (Base64.write (List.replicate 33 1) ++
      List.replicate 5 (CodePoint.ofChar '='))) = .ok ⟨List.replicate 33 1⟩ := by
  obtain ⟨accepted, _, _, given, same⟩ := text_canonical
  have taken : unmarshal (List.replicate 33 1) = .ok ⟨List.replicate 33 1⟩ := rfl
  have named := (given ⟨List.replicate 33 1⟩ (.unmarshal taken)).2
  have written : (Base64.write (List.replicate 33 1) ++
      List.replicate 5 (CodePoint.ofChar '=')).take 44 = Base64.write (List.replicate 33 1) := by
    decide +kernel
  obtain ⟨s, padded⟩ := (accepted (Base64.write (List.replicate 33 1) ++
    List.replicate 5 (CodePoint.ofChar '='))).mpr
      { long := by decide +kernel
        digits := by rw [written]; decide +kernel
        padding := by decide +kernel
        kind := ⟨List.replicate 33 1, by rw [written, Base64.readStrict_write], rfl, by decide⟩ }
  have digits : Base64.write (List.replicate 33 1) =
      (Base64.write (List.replicate 33 1)).take 44 := by decide +kernel
  rw [padded, (same _ _ s _ padded named).mpr (written.trans digits)]

end PartRelay.Sender
