import PartRelay.Proofs.Bytes.Base64Text

/-!
# Base64 that is read strictly

Quads of digits, and behind them padding or a started quad that padding fills up. Main statement:
`readStrict_eq_ok_iff`. Bits of a started quad that belong to no byte may be anything; full quads
have no such bits and so are what is written of their bytes.
-/

namespace PartRelay.Base64

/-! ## The alphabet -/

/-- The digits in the order of their values. -/
def alphabet : Text := "ABCDEFGHIJKLMNOPQRSTUVWXYZabcdefghijklmnopqrstuvwxyz0123456789+/"

theorem alphabet_eq : alphabet = (List.range 64).map digit := by
  decide

/-- Every value has one digit. -/
theorem value?_eq_some_iff {c : CodePoint} {v : Nat} :
    value? c = some v ↔ v < 64 ∧ c = digit v := by
  constructor
  · intro h
    simp only [value?, CodePoint.isDigit, CodePoint.between, Bool.and_eq_true,
      decide_eq_true_eq] at h
    have digits (low : Nat) (range : low ≤ c.val) : CodePoint.ofNat (low + (c.val - low)) = c := by
      rw [Nat.add_sub_cancel' range, CodePoint.ofNat_val]
    split at h
    next capital =>
      cases h
      rw [digit, if_pos (by omega), digits _ capital.1]
      exact ⟨by omega, rfl⟩
    split at h
    next small =>
      cases h
      rw [digit, if_neg (by omega), if_pos (by omega), Nat.add_sub_cancel, digits _ small.1]
      exact ⟨by omega, rfl⟩
    split at h
    next decimal =>
      cases h
      rw [digit, if_neg (by omega), if_neg (by omega), if_pos (by omega), Nat.add_sub_cancel,
        digits _ decimal.1]
      exact ⟨by omega, rfl⟩
    split at h
    next plus =>
      cases h
      exact ⟨by decide, plus⟩
    split at h
    next slash =>
      cases h
      exact ⟨by decide, slash⟩
    · cases h
  · rintro ⟨small, rfl⟩
    exact value?_digit small

theorem exists_value?_iff {c : CodePoint} : (∃ v, value? c = some v) ↔ c ∈ alphabet := by
  rw [alphabet_eq, List.mem_map]
  constructor
  · rintro ⟨v, h⟩
    obtain ⟨small, rfl⟩ := value?_eq_some_iff.mp h
    exact ⟨v, List.mem_range.mpr small, rfl⟩
  · rintro ⟨v, small, rfl⟩
    exact ⟨v, value?_digit (List.mem_range.mp small)⟩

/-! ## The grammar -/

/-- The text from the start of a quad on, and the bytes that it holds. -/
inductive Spells : Text → Bytes → Prop where
  /-- Padding behind full quads, as much of it as there may be. -/
  | padding (pads : Nat) : Spells (List.replicate pads (CodePoint.ofChar '=')) []
  | one {a b : CodePoint} {x y : Nat} (ha : value? a = some x) (hb : value? b = some y) :
      Spells [a, b, CodePoint.ofChar '=', CodePoint.ofChar '='] (bytesOfQuad [x, y])
  | two {a b c : CodePoint} {x y z : Nat} (ha : value? a = some x) (hb : value? b = some y)
      (hc : value? c = some z) : Spells [a, b, c, CodePoint.ofChar '='] (bytesOfQuad [x, y, z])
  | quad {a b c d : CodePoint} {x y z w : Nat} {t : Text} {bs : Bytes} (ha : value? a = some x)
      (hb : value? b = some y) (hc : value? c = some z) (hd : value? d = some w)
      (rest : Spells t bs) : Spells (a :: b :: c :: d :: t) (bytesOfQuad [x, y, z, w] ++ bs)

variable {t : Text} {done bs : Bytes} {quad : List Nat}

/-! ## What is read keeps to it -/

theorem digit_of_readFrom {c : CodePoint} (few : quad.length < 3) (plain : c ≠ CodePoint.ofChar '=')
    (h : readFrom true (c :: t) quad 0 false done = .ok bs) :
    ∃ v, value? c = some v ∧ readFrom true t (quad ++ [v]) 0 false done = .ok bs := by
  rw [readFrom, if_neg plain] at h
  split at h
  · cases h
  next v value =>
    rw [Bool.and_false, if_neg (by decide), if_pos few] at h
    exact ⟨v, value, h⟩

/-- Behind padding at the end of a quad there is nothing but padding. -/
theorem readFrom_padded {pads : Nat} :
    readFrom true t [] pads true done = .ok bs ↔
      (∀ c ∈ t, c = CodePoint.ofChar '=') ∧ bs = done.reverse := by
  induction t with
  | nil => simp [readFrom, eq_comm]
  | cons c t ih =>
    rw [readFrom, List.forall_mem_cons]
    split
    next padding => rw [if_pos (by decide), ih, and_iff_right padding]
    next plain =>
      split
      · simp [plain]
      · simp [plain]

/-- A single digit is never filled up. -/
theorem readFrom_padded_one {pads x : Nat} : readFrom true t [x] pads true done ≠ .ok bs := by
  induction t with
  | nil => simp [readFrom]
  | cons c t ih =>
    rw [readFrom]
    split
    · exact ih
    · split <;> simp

theorem border_of_readFrom (h : readFrom true t [] 0 false done = .ok bs) :
    (∃ pads, t = List.replicate pads (CodePoint.ofChar '=') ∧ bs = done.reverse) ∨
      ∃ a t' x, t = a :: t' ∧ value? a = some x ∧
        readFrom true t' [x] 0 false done = .ok bs := by
  cases t with
  | nil =>
    cases h
    exact .inl ⟨0, rfl, rfl⟩
  | cons a t =>
    by_cases padding : a = CodePoint.ofChar '='
    · rw [readFrom, if_pos padding] at h
      obtain ⟨all, rfl⟩ := readFrom_padded.mp h
      exact .inl ⟨_, List.eq_replicate_of_mem (List.forall_mem_cons.mpr ⟨padding, all⟩), rfl⟩
    · obtain ⟨x, value, h⟩ := digit_of_readFrom (by decide) padding h
      exact .inr ⟨a, t, x, rfl, value, h⟩

theorem second_of_readFrom {x : Nat} (h : readFrom true t [x] 0 false done = .ok bs) :
    ∃ b t' y, t = b :: t' ∧ value? b = some y ∧
      readFrom true t' [x, y] 0 false done = .ok bs := by
  cases t with
  | nil => cases h
  | cons b t =>
    by_cases padding : b = CodePoint.ofChar '='
    · rw [readFrom, if_pos padding] at h
      exact absurd h readFrom_padded_one
    · obtain ⟨y, value, h⟩ := digit_of_readFrom (by simp) padding h
      exact ⟨b, t, y, rfl, value, h⟩

theorem third_of_readFrom {x y : Nat} (h : readFrom true t [x, y] 0 false done = .ok bs) :
    (t = [CodePoint.ofChar '=', CodePoint.ofChar '='] ∧
      bs = done.reverse ++ bytesOfQuad [x, y]) ∨
    ∃ c t' z, t = c :: t' ∧ value? c = some z ∧
      readFrom true t' [x, y, z] 0 false done = .ok bs := by
  cases t with
  | nil => cases h
  | cons c t =>
    by_cases padding : c = CodePoint.ofChar '='
    · subst padding
      rw [readFrom, if_pos rfl, if_neg (by simp), if_pos (by simp)] at h
      cases t with
      | nil => cases h
      | cons c t =>
        by_cases padding : c = CodePoint.ofChar '='
        · subst padding
          cases t with
          | nil =>
            simp only [readFrom, List.isEmpty_nil] at h
            cases h
            exact .inl ⟨rfl, by simp [List.reverseAux_eq]⟩
          | cons c t => cases h
        · rw [readFrom, if_neg padding] at h
          split at h <;> cases h
    · obtain ⟨z, value, h⟩ := digit_of_readFrom (by simp) padding h
      exact .inr ⟨c, t, z, rfl, value, h⟩

theorem fourth_of_readFrom {x y z : Nat} (h : readFrom true t [x, y, z] 0 false done = .ok bs) :
    (t = [CodePoint.ofChar '='] ∧ bs = done.reverse ++ bytesOfQuad [x, y, z]) ∨
    ∃ d t' w, t = d :: t' ∧ value? d = some w ∧
      readFrom true t' [] 0 false ((bytesOfQuad [x, y, z, w]).reverseAux done) = .ok bs := by
  cases t with
  | nil => cases h
  | cons d t =>
    rw [readFrom] at h
    split at h
    next padding =>
      subst padding
      cases t with
      | nil =>
        cases h
        exact .inl ⟨rfl, by simp [List.reverseAux_eq]⟩
      | cons d t => cases h
    next plain =>
      split at h
      · cases h
      next w value => exact .inr ⟨d, t, w, rfl, value, h⟩

/-- A quad takes four code points, so the induction is on the length of the text. -/
theorem spells_of_readFrom (h : readFrom true t [] 0 false done = .ok bs) :
    ∃ out, Spells t out ∧ bs = done.reverse ++ out := by
  induction count : t.length using Nat.strongRecOn generalizing t done with
  | ind count ih =>
    subst count
    rcases border_of_readFrom h with ⟨pads, rfl, rfl⟩ | ⟨a, t, x, rfl, ha, h⟩
    · exact ⟨[], .padding pads, (List.append_nil _).symm⟩
    obtain ⟨b, t, y, rfl, hb, h⟩ := second_of_readFrom h
    rcases third_of_readFrom h with ⟨rfl, rfl⟩ | ⟨c, t, z, rfl, hc, h⟩
    · exact ⟨_, .one ha hb, rfl⟩
    rcases fourth_of_readFrom h with ⟨rfl, rfl⟩ | ⟨d, t, w, rfl, hd, h⟩
    · exact ⟨_, .two ha hb hc, rfl⟩
    obtain ⟨out, rest, rfl⟩ := ih t.length (by simp; omega) h rfl
    exact ⟨_, .quad ha hb hc hd rest, by simp [List.reverseAux_eq]⟩

/-! ## What keeps to it is read -/

theorem Spells.readFrom (h : Spells t bs) :
    readFrom true t [] 0 false done = .ok (done.reverse ++ bs) := by
  induction h generalizing done with
  | padding pads =>
    cases pads with
    | zero => simp [Base64.readFrom]
    | succ pads =>
      rw [List.replicate_succ, Base64.readFrom, if_pos rfl]
      exact readFrom_padded.mpr ⟨fun c => List.eq_of_mem_replicate, by simp⟩
  | one ha hb =>
    obtain ⟨hx, rfl⟩ := value?_eq_some_iff.mp ha
    obtain ⟨hy, rfl⟩ := value?_eq_some_iff.mp hb
    rw [readFrom_digit true hx _ (by simp), readFrom_digit true hy _ (by simp)]
    exact readFrom_padding_two ..
  | two ha hb hc =>
    obtain ⟨hx, rfl⟩ := value?_eq_some_iff.mp ha
    obtain ⟨hy, rfl⟩ := value?_eq_some_iff.mp hb
    obtain ⟨hz, rfl⟩ := value?_eq_some_iff.mp hc
    rw [readFrom_digit true hx _ (by simp), readFrom_digit true hy _ (by simp),
      readFrom_digit true hz _ (by simp)]
    exact readFrom_padding_one ..
  | quad ha hb hc hd rest ih =>
    obtain ⟨hx, rfl⟩ := value?_eq_some_iff.mp ha
    obtain ⟨hy, rfl⟩ := value?_eq_some_iff.mp hb
    obtain ⟨hz, rfl⟩ := value?_eq_some_iff.mp hc
    obtain ⟨hw, rfl⟩ := value?_eq_some_iff.mp hd
    rw [readFrom_digit true hx _ (by simp), readFrom_digit true hy _ (by simp),
      readFrom_digit true hz _ (by simp)]
    exact (readFrom_lastDigit true hw ..).trans (by rw [ih]; simp [List.reverseAux_eq])

theorem Spells.isAscii (h : Spells t bs) : t.IsAscii := by
  have digit {c : CodePoint} {v : Nat} (h : value? c = some v) : c.isAscii = true := by
    obtain ⟨small, rfl⟩ := value?_eq_some_iff.mp h
    exact isAscii_digit small
  have padding : (CodePoint.ofChar '=').isAscii = true := by decide
  induction h with
  | padding pads =>
    intro c member
    rw [List.eq_of_mem_replicate member, padding]
  | one ha hb => simp [Text.IsAscii, digit ha, digit hb, padding]
  | two ha hb hc => simp [Text.IsAscii, digit ha, digit hb, digit hc, padding]
  | quad ha hb hc hd rest ih =>
    simp only [Text.IsAscii, List.forall_mem_cons] at ih ⊢
    exact ⟨digit ha, digit hb, digit hc, digit hd, ih⟩

/-- Text is read strictly just where it keeps to the grammar and does not start with padding. -/
theorem readStrict_eq_ok_iff :
    readStrict t = .ok bs ↔ Spells t bs ∧ t.head? ≠ some (CodePoint.ofChar '=') := by
  constructor
  · intro h
    rw [readStrict] at h
    split at h
    · cases h
    split at h
    · cases h
    next front =>
      obtain ⟨out, spells, rfl⟩ := spells_of_readFrom h
      exact ⟨spells, front⟩
  · rintro ⟨spells, front⟩
    rw [readStrict, List.all_eq_true.mpr spells.isAscii, if_neg front]
    exact spells.readFrom

/-! ## Full quads -/

/-- The digits of a full quad are those that its bytes are written as. -/
theorem write_bytesOfQuad {a b c d : CodePoint} {x y z w : Nat} (ha : value? a = some x)
    (hb : value? b = some y) (hc : value? c = some z) (hd : value? d = some w) (bs : Bytes) :
    write (bytesOfQuad [x, y, z, w] ++ bs) = a :: b :: c :: d :: write bs := by
  obtain ⟨hx, rfl⟩ := value?_eq_some_iff.mp ha
  obtain ⟨hy, rfl⟩ := value?_eq_some_iff.mp hb
  obtain ⟨hz, rfl⟩ := value?_eq_some_iff.mp hc
  obtain ⟨hw, rfl⟩ := value?_eq_some_iff.mp hd
  have byte {n : Nat} (small : n < 256) : (UInt8.ofNat n).toNat = n :=
    UInt8.toNat_ofNat_of_lt' small
  rw [bytesOfQuad, List.cons_append, List.cons_append, List.cons_append, List.nil_append,
    write_three, quadOfThree, byte (by omega), byte (by omega), byte (by omega)]
  rw [show (x * 4 + y / 16) / 4 = x by omega,
    show (x * 4 + y / 16) % 4 * 16 + (y % 16 * 16 + z / 4) / 16 = y by omega,
    show (y % 16 * 16 + z / 4) % 16 * 4 + (z % 4 * 64 + w) / 64 = z by omega,
    show (z % 4 * 64 + w) % 64 = w by omega]
  rfl

/-- Text that holds whole quads of bytes is what is written of them, with padding behind. -/
theorem Spells.eq_write (h : Spells t bs) (full : bs.length % 3 = 0) :
    ∃ pads, t = write bs ++ List.replicate pads (CodePoint.ofChar '=') := by
  induction h with
  | padding pads => exact ⟨pads, rfl⟩
  | one ha hb => cases full
  | two ha hb hc => cases full
  | quad ha hb hc hd rest ih =>
    obtain ⟨pads, rfl⟩ := ih ((Nat.add_mod_right _ 3).symm.trans full)
    exact ⟨pads, by rw [write_bytesOfQuad ha hb hc hd]; rfl⟩

/-- Behind what is written of whole quads of bytes a text goes on as it would alone. -/
theorem Spells.write_append (h : Spells t bs) : (before : Bytes) → before.length % 3 = 0 →
    Spells (write before ++ t) (before ++ bs)
  | [], _ => h
  | [_], full => by cases full
  | [_, _], full => by cases full
  | a :: b :: c :: rest, full => by
    have ha := a.toNat_lt
    have hb := b.toNat_lt
    have hc := c.toNat_lt
    have behind := h.write_append rest ((Nat.add_mod_right _ 3).symm.trans full)
    have spells := Spells.quad (value?_digit (v := a.toNat / 4) (by omega))
      (value?_digit (v := a.toNat % 4 * 16 + b.toNat / 16) (by omega))
      (value?_digit (v := b.toNat % 16 * 4 + c.toNat / 64) (by omega))
      (value?_digit (v := c.toNat % 64) (by omega)) behind
    rw [bytesOfQuad, firstByte, secondByte, thirdByte] at spells
    rw [write_three]
    exact spells

theorem spells_write_append (pads : Nat) (bs : Bytes) (full : bs.length % 3 = 0) :
    Spells (write bs ++ List.replicate pads (CodePoint.ofChar '=')) bs := by
  have spells := (Spells.padding pads).write_append bs full
  rwa [List.append_nil] at spells

theorem mem_alphabet_of_mem_write {c : CodePoint} : (bs : Bytes) → bs.length % 3 = 0 →
    c ∈ write bs → c ∈ alphabet
  | [], _, h => by cases h
  | [_], full, _ => by cases full
  | [_, _], full, _ => by cases full
  | a :: b :: c' :: rest, full, h => by
    have ha := a.toNat_lt
    have hb := b.toNat_lt
    have hc := c'.toNat_lt
    have known {v : Nat} (small : v < 64) : digit v ∈ alphabet :=
      exists_value?_iff.mp ⟨v, value?_digit small⟩
    simp only [write_three, quadOfThree, List.cons_append, List.nil_append, List.mem_cons] at h
    rcases h with rfl | rfl | rfl | rfl | h
    · exact known (by omega)
    · exact known (by omega)
    · exact known (by omega)
    · exact known (by omega)
    · exact mem_alphabet_of_mem_write rest ((Nat.add_mod_right _ 3).symm.trans full) h

/-- Whatever the digits are, full quads of them are those of some bytes. -/
theorem exists_write : (t : Text) → (∀ c ∈ t, c ∈ alphabet) → t.length % 4 = 0 →
    ∃ bs, write bs = t ∧ bs.length = t.length / 4 * 3
  | [], _, _ => ⟨[], rfl, rfl⟩
  | [_], _, full => by cases full
  | [_, _], _, full => by cases full
  | [_, _, _], _, full => by cases full
  | a :: b :: c :: d :: t, digits, full => by
    simp only [List.forall_mem_cons, ← exists_value?_iff] at digits
    obtain ⟨⟨_, ha⟩, ⟨_, hb⟩, ⟨_, hc⟩, ⟨_, hd⟩, later⟩ := digits
    obtain ⟨bs, rfl, length⟩ :=
      exists_write t (fun c h => exists_value?_iff.mp (later c h))
        ((Nat.add_mod_right _ 4).symm.trans full)
    refine ⟨_, write_bytesOfQuad ha hb hc hd bs, ?_⟩
    simp only [bytesOfQuad, List.length_append, List.length_cons, List.length_nil, length]
    omega

end PartRelay.Base64
