import PartRelay.Proofs.Json.Grammar

/-!
# Reading what the grammar has

Reading takes the texts of the grammar with the values that they have there, and no others: with so
many levels just those that these are enough for, and no depth is too great for the fuel that a
whole text is read with. Main statements: `readBounded_eq_ok_iff`, `readWith_eq_ok_iff`, and
`Spells.value_unique` for texts in two dialects.
-/

namespace PartRelay.Json

variable {d : Dialect} {limit : Option Nat} {levels : Nat} {t rest : Text} {j : Json} {p : Phrase}

/-! ## What is read is in the grammar -/

/-- What the readers give follows the rules, behind what they have read before. -/
structure Sound (limit : Option Nat) (fuel : Nat) : Prop where
  value : ∀ {levels t j rest}, readValue limit levels fuel t = .ok (j, rest) →
    Derives (.wide limit) levels t (.value j) rest
  items : ∀ {levels t done j rest}, readItems limit levels fuel t done = .ok (j, rest) →
    ∃ items, j = .array (done.reverse ++ items) ∧
      Derives (.wide limit) levels t (.items items) rest
  fields : ∀ {levels t done j rest}, readFields limit levels fuel t done = .ok (j, rest) →
    ∃ members, j = .object (Table.update done members) ∧
      Derives (.wide limit) levels t (.members members) rest

variable {fuel : Nat}

theorem Sound.readValue (h : Sound limit fuel)
    (read : Json.readValue limit levels (fuel + 1) t = .ok (j, rest)) :
    Derives (.wide limit) levels t (.value j) rest := by
  cases t with
  | nil => cases read
  | cons c t =>
    rw [Json.readValue] at read
    split at read
    next quote =>
      subst quote
      split at read
      · cases read
      next token =>
        cases read
        exact .string ((readString_eq_ok_iff _).mp token)
    split at read
    next bracket =>
      subst bracket
      split at read
      · cases read
      next positive =>
        obtain ⟨levels, rfl⟩ := Nat.exists_eq_succ_of_ne_zero positive
        have array {t' : Text} (start : skipBlanks t = t')
            (read : readItems limit levels fuel t' [] = .ok (j, rest)) :
            Derives (.wide limit) (levels + 1) (CodePoint.ofChar '[' :: t) (.value j) rest := by
          obtain ⟨items, rfl, derived⟩ := h.items read
          exact .array (start ▸ derived)
        split at read
        next start => exact array start read
        next start =>
          split at read
          next close =>
            subst close
            cases read
            exact .emptyArray start
          · exact array start read
    split at read
    next brace =>
      subst brace
      split at read
      · cases read
      next positive =>
        obtain ⟨levels, rfl⟩ := Nat.exists_eq_succ_of_ne_zero positive
        have object {t' : Text} (start : skipBlanks t = t')
            (read : readFields limit levels fuel t' [] = .ok (j, rest)) :
            Derives (.wide limit) (levels + 1) (CodePoint.ofChar '{' :: t) (.value j) rest := by
          obtain ⟨members, rfl, derived⟩ := h.fields read
          exact .fields (.object (start ▸ derived))
        split at read
        next start => exact object start read
        next start =>
          split at read
          next close =>
            subst close
            cases read
            exact .fields (.emptyObject start)
          · exact object start read
    split at read
    next found word =>
      cases read
      obtain ⟨_, among, front⟩ := exists_of_readWord? word
      exact .word among front
    · obtain ⟨number, token, front⟩ := number_of_readNumber read
      exact .number token front

theorem Sound.readItems {done : List Json} (h : Sound limit fuel)
    (read : Json.readItems limit levels (fuel + 1) t done = .ok (j, rest)) :
    ∃ items, j = .array (done.reverse ++ items) ∧
      Derives (.wide limit) levels t (.items items) rest := by
  rw [Json.readItems] at read
  split at read
  · cases read
  next item after value =>
  have first := h.value value
  split at read
  · cases read
  next c next separator =>
  split at read
  next close =>
    subst close
    cases read
    exact ⟨[item], by simp, .lastItem first separator⟩
  split at read
  next comma =>
    subst comma
    obtain ⟨items, rfl, more⟩ := h.items read
    exact ⟨item :: items, by simp, .item first separator more⟩
  · cases read

theorem Sound.readFields {done : Table Text Json} (h : Sound limit fuel)
    (read : Json.readFields limit levels (fuel + 1) t done = .ok (j, rest)) :
    ∃ members, j = .object (Table.update done members) ∧
      Derives (.wide limit) levels t (.members members) rest := by
  cases t with
  | nil => cases read
  | cons q t =>
    rw [Json.readFields] at read
    split at read
    next quote =>
      subst quote
      split at read
      · cases read
      next key named token =>
      split at read
      · cases read
      next c next separator =>
      split at read
      next colon =>
        subst colon
        split at read
        · cases read
        next value after found =>
        have first := Derives.member ((readString_eq_ok_iff _).mp token) separator (h.value found)
        split at read
        · cases read
        next c next separator =>
        split at read
        next close =>
          subst close
          cases read
          exact ⟨[(key, value)], rfl, .lastMember first separator⟩
        split at read
        next comma =>
          subst comma
          obtain ⟨members, rfl, more⟩ := h.fields read
          exact ⟨(key, value) :: members, rfl, .memberAnd first separator more⟩
        · cases read
      · cases read
    · cases read

/-- By induction on the fuel, which each reader gives on with one less. -/
theorem sound (limit : Option Nat) (fuel : Nat) : Sound limit fuel := by
  induction fuel with
  | zero => exact ⟨nofun, nofun, nofun⟩
  | succ fuel ih => exact ⟨ih.readValue, ih.readItems, ih.readFields⟩

/-! ## What is in the grammar is read -/

/-- A code point that starts neither a string nor an array nor an object. -/
def StartsAtom (c : CodePoint) : Prop :=
  c ≠ CodePoint.ofChar '"' ∧ c ≠ CodePoint.ofChar '[' ∧ c ≠ CodePoint.ofChar '{'

instance (c : CodePoint) : Decidable (StartsAtom c) := inferInstanceAs (Decidable (_ ∧ _ ∧ _))

theorem readValue_word {c : CodePoint} {found : Json × Text} (fuel : Nat) (start : StartsAtom c)
    (h : readWord? (c :: t) = some found) :
    readValue limit levels (fuel + 1) (c :: t) = .ok found := by
  rw [readValue]
  simp only [if_neg start.1, if_neg start.2.1, if_neg start.2.2, h]

theorem readValue_number {c : CodePoint} (fuel : Nat) (start : StartsAtom c)
    (h : readWord? (c :: t) = none) :
    readValue limit levels (fuel + 1) (c :: t) = readNumber limit (c :: t) := by
  rw [readValue]
  simp only [if_neg start.1, if_neg start.2.1, if_neg start.2.2, h]

theorem startsAtom_of_mem_words {word : Text} {value : Json} (h : (word, value) ∈ words) :
    ∃ c t, word = c :: t ∧ StartsAtom c := by
  simp only [words, List.mem_cons, Prod.mk.injEq, List.not_mem_nil, or_false] at h
  rcases h with ⟨rfl, _⟩ | ⟨rfl, _⟩ | ⟨rfl, _⟩ | ⟨rfl, _⟩ | ⟨rfl, _⟩ | ⟨rfl, _⟩ <;>
    exact ⟨_, _, rfl, by decide⟩

theorem startsAtom_of_isDigit {c : CodePoint} (h : c.isDigit = true) : StartsAtom c :=
  ⟨CodePoint.ne_of_isDigit h (by decide), CodePoint.ne_of_isDigit h (by decide),
    CodePoint.ne_of_isDigit h (by decide)⟩

/-- A number is taken for nothing else. -/
theorem Number.startsAtom (h : Number limit t j) (rest : Text) :
    readWord? (t ++ rest) = none ∧ ∃ c t', t ++ rest = c :: t' ∧ StartsAtom c := by
  obtain ⟨c, t', digit, rfl | rfl⟩ := h.front
  · exact ⟨readWord?_digit digit _, _, _, rfl, startsAtom_of_isDigit digit⟩
  · exact ⟨readWord?_minus digit _, _, _, rfl, by decide⟩

/-- The phrase is read at the start of a text up to `rest`, while the fuel lasts: every second call
takes a code point. A value has to end there, since it may be a number. -/
def Phrase.IsReadFrom (limit : Option Nat) (levels : Nat) (t : Text) (p : Phrase) (rest : Text) :
    Prop :=
  match p with
  | .value j => EndsNumber rest →
    ∀ fuel, 2 * t.length ≤ fuel → readValue limit levels fuel t = .ok (j, rest)
  | .items js => ∀ fuel done, 2 * t.length + 1 ≤ fuel →
    readItems limit levels fuel t done = .ok (.array (done.reverse ++ js), rest)
  | .object ms => ∀ fuel, 2 * t.length ≤ fuel →
    readValue limit levels fuel t = .ok (.object (Table.ofWrites ms), rest)
  | .member key j => ∃ t' after next, t = CodePoint.ofChar '"' :: t' ∧
    IsString t' key after ∧ skipBlanks after = CodePoint.ofChar ':' :: next ∧
    (EndsNumber rest →
      ∀ fuel, 2 * t.length ≤ fuel + 1 →
        readValue limit levels fuel (skipBlanks next) = .ok (j, rest))
  | .members ms => ∀ fuel done, 2 * t.length ≤ fuel →
    readFields limit levels fuel t done = .ok (.object (Table.update done ms), rest)

theorem exists_fuel_behind {c : CodePoint} {fuel : Nat} (h : 2 * (c :: t).length ≤ fuel) :
    ∃ f, fuel = f + 1 ∧ 2 * t.length + 1 ≤ f := by
  rw [List.length_cons] at h
  exact ⟨fuel - 1, by omega, by omega⟩

/-- The text behind a separator is shorter than what was read before it. -/
theorem length_behind {c : CodePoint} {after next : Text}
    (separator : skipBlanks after = c :: next) (h : after.length < t.length) :
    (skipBlanks next).length + 2 ≤ t.length := by
  have shorter := length_skipBlanks_lt_of_separator separator
  omega

/-- No number goes on behind a blank, nor behind what does not carry it on. -/
theorem endsNumber_of_skipBlanks (h : EndsNumber (skipBlanks t)) : EndsNumber t := by
  cases t with
  | nil => exact nofun
  | cons c t =>
    by_cases blank : isBlank c = true
    · rintro _ ⟨⟩
      simp only [isBlank, Bool.or_eq_true, decide_eq_true_eq] at blank
      rcases blank with ((rfl | rfl) | rfl) | rfl <;> decide
    · rwa [skipBlanks_cons (Bool.eq_false_iff.mpr blank)] at h

theorem endsNumber_of_separator {c : CodePoint} {after next : Text}
    (separator : skipBlanks after = c :: next)
    (h : c.isDigit = false ∧ c ≠ CodePoint.ofChar '.' ∧ c ≠ CodePoint.ofChar 'e' ∧
      c ≠ CodePoint.ofChar 'E') : EndsNumber after := by
  refine endsNumber_of_skipBlanks ?_
  rw [separator]
  rintro _ ⟨⟩
  exact h

/-! A call at the start of each phrase. -/

variable {done : List Json} {fields : Table Text Json} {c : CodePoint} {after next behind : Text}

theorem readValue_string (fuel : Nat) {s : Text} (token : IsString t s rest) :
    readValue limit levels (fuel + 1) (CodePoint.ofChar '"' :: t) = .ok (.string s, rest) := by
  rw [readValue]
  simp only [if_true, (readString_eq_ok_iff _).mpr token]

theorem readValue_emptyArray (fuel : Nat) (close : skipBlanks t = CodePoint.ofChar ']' :: rest) :
    readValue limit (levels + 1) (fuel + 1) (CodePoint.ofChar '[' :: t)
      = .ok (.array [], rest) := by
  have quote : CodePoint.ofChar '[' ≠ CodePoint.ofChar '"' := by decide
  rw [readValue]
  simp only [if_neg quote, if_true, if_neg (Nat.succ_ne_zero levels), close]

theorem readValue_array (fuel : Nat) (front : skipBlanks t = c :: next)
    (more : c ≠ CodePoint.ofChar ']') :
    readValue limit (levels + 1) (fuel + 1) (CodePoint.ofChar '[' :: t) =
      readItems limit levels fuel (skipBlanks t) [] := by
  have quote : CodePoint.ofChar '[' ≠ CodePoint.ofChar '"' := by decide
  rw [readValue]
  simp only [if_neg quote, if_true, if_neg (Nat.succ_ne_zero levels), front, if_neg more,
    Nat.add_sub_cancel]

theorem readValue_emptyObject (fuel : Nat) (close : skipBlanks t = CodePoint.ofChar '}' :: rest) :
    readValue limit (levels + 1) (fuel + 1) (CodePoint.ofChar '{' :: t)
      = .ok (.object [], rest) := by
  have quote : CodePoint.ofChar '{' ≠ CodePoint.ofChar '"' := by decide
  have bracket : CodePoint.ofChar '{' ≠ CodePoint.ofChar '[' := by decide
  rw [readValue]
  simp only [if_neg quote, if_neg bracket, if_true, if_neg (Nat.succ_ne_zero levels), close]

theorem readValue_object (fuel : Nat) (front : skipBlanks t = c :: next)
    (more : c ≠ CodePoint.ofChar '}') :
    readValue limit (levels + 1) (fuel + 1) (CodePoint.ofChar '{' :: t) =
      readFields limit levels fuel (skipBlanks t) [] := by
  have quote : CodePoint.ofChar '{' ≠ CodePoint.ofChar '"' := by decide
  have bracket : CodePoint.ofChar '{' ≠ CodePoint.ofChar '[' := by decide
  rw [readValue]
  simp only [if_neg quote, if_neg bracket, if_true, if_neg (Nat.succ_ne_zero levels), front,
    if_neg more, Nat.add_sub_cancel]

theorem readItems_last (value : readValue limit levels fuel t = .ok (j, after))
    (close : skipBlanks after = CodePoint.ofChar ']' :: rest) :
    readItems limit levels (fuel + 1) t done = .ok (.array (done.reverse ++ [j]), rest) := by
  rw [readItems, value]
  simp only [close, if_true, List.reverse_cons]

theorem readItems_item (value : readValue limit levels fuel t = .ok (j, after))
    (comma : skipBlanks after = CodePoint.ofChar ',' :: next) :
    readItems limit levels (fuel + 1) t done
      = readItems limit levels fuel (skipBlanks next) (j :: done) := by
  have separator : CodePoint.ofChar ',' ≠ CodePoint.ofChar ']' := by decide
  rw [readItems, value]
  simp only [comma, if_neg separator, if_true]

theorem readFields_last {key : Text} (token : IsString t key after)
    (colon : skipBlanks after = CodePoint.ofChar ':' :: next)
    (value : readValue limit levels fuel (skipBlanks next) = .ok (j, behind))
    (close : skipBlanks behind = CodePoint.ofChar '}' :: rest) :
    readFields limit levels (fuel + 1) (CodePoint.ofChar '"' :: t) fields =
      .ok (.object (fields.set key j), rest) := by
  rw [readFields]
  simp only [if_true, (readString_eq_ok_iff _).mpr token, colon, value, close]

theorem readFields_member {key behindComma : Text} (token : IsString t key after)
    (colon : skipBlanks after = CodePoint.ofChar ':' :: next)
    (value : readValue limit levels fuel (skipBlanks next) = .ok (j, behind))
    (comma : skipBlanks behind = CodePoint.ofChar ',' :: behindComma) :
    readFields limit levels (fuel + 1) (CodePoint.ofChar '"' :: t) fields =
      readFields limit levels fuel (skipBlanks behindComma) (fields.set key j) := by
  have separator : CodePoint.ofChar ',' ≠ CodePoint.ofChar '}' := by decide
  rw [readFields]
  simp only [if_true, (readString_eq_ok_iff _).mpr token, colon, value, comma, if_neg separator]

/-- By induction on the derivation. What is left is shorter than what was read, so that the fuel
lasts behind a comma as well. -/
theorem Derives.isReadFrom (h : Derives (.wide limit) levels t p rest) :
    p.IsReadFrom limit levels t rest := by
  induction h with
  | string token =>
    intro _ fuel hf
    obtain ⟨fuel, rfl, _⟩ := exists_fuel_behind hf
    exact readValue_string fuel token
  | @word _ _ word rest value among front =>
    obtain ⟨c, t, rfl, atom⟩ := startsAtom_of_mem_words among
    subst front
    intro _ fuel hf
    obtain ⟨fuel, rfl, _⟩ := exists_fuel_behind hf
    exact readValue_word fuel atom (readWord?_of_mem among rest)
  | @number _ _ number rest value token front =>
    intro ends fuel hf
    have read := token.readNumber ends
    obtain ⟨noWord, c, t, eq, atom⟩ := token.startsAtom rest
    rw [eq] at noWord read front
    subst front
    obtain ⟨fuel, rfl, _⟩ := exists_fuel_behind hf
    rw [readValue_number fuel atom noWord]
    exact read
  | emptyArray close =>
    intro _ fuel hf
    obtain ⟨fuel, rfl, _⟩ := exists_fuel_behind hf
    exact readValue_emptyArray fuel close
  | @array _ t rest items h ih =>
    intro _ fuel hf
    obtain ⟨fuel, rfl, enough⟩ := exists_fuel_behind hf
    have blanks := length_skipBlanks_le t
    obtain ⟨c, t', front, start⟩ := h.starts
    have more : c ≠ CodePoint.ofChar ']' := by
      have other : ¬ Starts words (CodePoint.ofChar ']') := by decide
      rintro rfl
      exact other start
    rw [readValue_array fuel front more]
    exact ih fuel [] (by omega)
  | lastItem h close ih =>
    intro fuel done hf
    obtain ⟨fuel, rfl⟩ : ∃ f, fuel = f + 1 := ⟨fuel - 1, by omega⟩
    exact readItems_last (ih (endsNumber_of_separator close (by decide)) fuel (by omega)) close
  | item h comma more ih later =>
    intro fuel done hf
    obtain ⟨fuel, rfl⟩ : ∃ f, fuel = f + 1 := ⟨fuel - 1, by omega⟩
    have shorter := length_behind comma h.length_lt
    have value := ih (endsNumber_of_separator comma (by decide)) fuel (by omega)
    rw [readItems_item value comma, later fuel _ (by omega), List.reverse_cons, List.append_assoc,
      List.singleton_append]
  | fields h ih => exact fun _ => ih
  | emptyObject close =>
    intro fuel hf
    obtain ⟨fuel, rfl, _⟩ := exists_fuel_behind hf
    exact readValue_emptyObject fuel close
  | @object _ t rest members h ih =>
    intro fuel hf
    obtain ⟨fuel, rfl, enough⟩ := exists_fuel_behind hf
    have blanks := length_skipBlanks_le t
    obtain ⟨c, t', front, rfl⟩ := h.starts
    rw [readValue_object fuel front (by decide)]
    exact ih fuel [] (by omega)
  | member token colon h ih =>
    refine ⟨_, _, _, rfl, token, colon, fun ends fuel hf => ?_⟩
    have shorter := length_behind colon token.length_lt
    rw [List.length_cons] at hf
    exact ih ends fuel (by omega)
  | lastMember h close ih =>
    obtain ⟨t, after, next, rfl, token, colon, read⟩ := ih
    intro fuel done hf
    obtain ⟨fuel, rfl, _⟩ := exists_fuel_behind hf
    have value := read (endsNumber_of_separator close (by decide)) fuel hf
    exact readFields_last token colon value close
  | memberAnd h comma more ih later =>
    obtain ⟨t, after, next, rfl, token, colon, read⟩ := ih
    intro fuel done hf
    obtain ⟨fuel, rfl, _⟩ := exists_fuel_behind hf
    have shorter := length_behind comma h.length_lt
    have value := read (endsNumber_of_separator comma (by decide)) fuel hf
    rw [readFields_member token colon value comma]
    exact later fuel _ (by omega)

/-! ## Whole texts -/

/-- No value starts with a byte order mark, which is no blank either. -/
theorem SpellsWithin.head?_ne (h : SpellsWithin (.wide limit) levels t (.value j)) :
    t.head? ≠ some (CodePoint.ofNat 0xFEFF) := by
  have other : ¬ Starts words (CodePoint.ofNat 0xFEFF) := by decide
  obtain ⟨rest, derived, _⟩ := h
  obtain ⟨c, t', front, start⟩ := derived.starts
  intro mark
  obtain ⟨t, rfl⟩ := List.head?_eq_some_iff.mp mark
  rw [skipBlanks_cons (by decide)] at front
  cases front
  exact other start

/-- Reading with so many levels gives a value exactly where the grammar does with them. -/
theorem readBounded_eq_ok_iff :
    readBounded limit levels t = .ok j ↔ SpellsWithin (.wide limit) levels t (.value j) := by
  constructor
  · intro h
    unfold readBounded at h
    split at h
    · cases h
    split at h
    · cases h
    next value rest found =>
      split at h
      next blanks =>
        cases h
        exact ⟨rest, (sound limit _).value found, blanks⟩
      · cases h
  · intro h
    have mark := h.head?_ne
    obtain ⟨rest, derived, blanks⟩ := h
    have shorter := length_skipBlanks_le t
    have ends : EndsNumber rest := endsNumber_of_skipBlanks (by rw [blanks]; exact nofun)
    rw [readBounded, if_neg mark, derived.isReadFrom ends _ (by omega)]
    simp only [blanks]

/-- Reading gives a value exactly where the grammar does. -/
theorem readWith_eq_ok_iff : readWith limit t = .ok j ↔ Spells (.wide limit) t (.value j) := by
  rw [readWith, readBounded_eq_ok_iff]
  exact ⟨fun h => ⟨_, h⟩, Spells.within_length⟩

theorem read_eq_ok_iff : read t = .ok j ↔ Spells .accepted t (.value j) := readWith_eq_ok_iff

theorem readWithin_eq_ok_iff :
    readWithin levels t = .ok j ↔ SpellsWithin .accepted levels t (.value j) :=
  readBounded_eq_ok_iff

/-- What is read with some levels is read with as many as there may be. -/
theorem read_of_readWithin (h : readWithin levels t = .ok j) : read t = .ok j :=
  read_eq_ok_iff.mpr ⟨levels, readWithin_eq_ok_iff.mp h⟩

/-! ## What is nested too deep -/

theorem skipBlanks_brackets (n : Nat) (rest : Text) :
    skipBlanks (List.replicate (n + 1) (CodePoint.ofChar '[') ++ rest)
      = List.replicate (n + 1) (CodePoint.ofChar '[') ++ rest := by
  rw [List.replicate_succ, List.cons_append, skipBlanks_cons (by decide)]

/-- Each bracket takes a level and two calls, and the last one finds no level left. -/
theorem readValue_brackets (rest : Text) (enough : 2 * levels + 1 ≤ fuel) :
    readValue limit levels fuel (List.replicate (levels + 1) (CodePoint.ofChar '[') ++ rest)
      = .error (.tooDeep .array) := by
  have quote : CodePoint.ofChar '[' ≠ CodePoint.ofChar '"' := by decide
  induction levels generalizing fuel with
  | zero =>
    obtain ⟨fuel, rfl⟩ : ∃ f, fuel = f + 1 := ⟨fuel - 1, by omega⟩
    rw [List.replicate_succ, List.cons_append, readValue]
    simp only [if_neg quote, if_true]
  | succ levels ih =>
    obtain ⟨fuel, rfl⟩ : ∃ f, fuel = f + 2 := ⟨fuel - 2, by omega⟩
    have more : CodePoint.ofChar '[' ≠ CodePoint.ofChar ']' := by decide
    have front := skipBlanks_brackets levels rest
    rw [List.replicate_succ, List.cons_append, readValue_array (fuel + 1) front more, front,
      readItems, ih (by omega)]

/-- A text of more brackets than there may be levels is refused for its depth. -/
theorem readWithin_brackets (levels : Nat) (rest : Text) :
    readWithin levels (List.replicate (levels + 1) (CodePoint.ofChar '[') ++ rest)
      = .error (.tooDeep .array) := by
  have mark : (List.replicate (levels + 1) (CodePoint.ofChar '[') ++ rest).head?
      ≠ some (CodePoint.ofNat 0xFEFF) := by
    rw [List.replicate_succ, List.cons_append, List.head?_cons]
    decide
  have enough : 2 * levels + 1
      ≤ 2 * (List.replicate (levels + 1) (CodePoint.ofChar '[') ++ rest).length + 2 := by
    rw [List.length_append, List.length_replicate]
    omega
  rw [readWithin, readBounded, if_neg mark, skipBlanks_brackets, readValue_brackets rest enough]
  rfl

/-! ## Objects -/

/-- What a text spells that spells an object are the members of the object. -/
theorem spells_object_iff {fields : List (Text × Json)} (usual : d.IsUsual) :
    Spells d t (.value (.object fields)) ↔
      ∃ members, fields = Table.ofWrites members ∧ Spells d t (.object members) := by
  constructor
  · rintro ⟨levels, rest, derived, blanks⟩
    generalize start : skipBlanks t = t' at derived
    cases derived with
    | word among _ =>
      have other := usual.known among
      simp [words] at other
    | number token _ => cases token
    | @fields _ _ _ members h => exact ⟨members, rfl, levels, rest, start ▸ h, blanks⟩
  · rintro ⟨members, rfl, levels, rest, derived, blanks⟩
    exact ⟨levels, rest, .fields derived, blanks⟩

/-- A text spells one value at most, whichever way its integers are limited. -/
theorem Spells.value_unique {d' : Dialect} {j' : Json} (h : Spells d t (.value j))
    (h' : Spells d' t (.value j')) (usual : d.IsUsual) (usual' : d'.IsUsual) : j = j' := by
  obtain ⟨levels, rest, derived, blanks⟩ := h
  obtain ⟨levels', rest', derived', blanks'⟩ := h'
  have read : readWith none t = .ok j :=
    readWith_eq_ok_iff.mpr ⟨levels, rest, derived.unlimited usual, blanks⟩
  have read' : readWith none t = .ok j' :=
    readWith_eq_ok_iff.mpr ⟨levels', rest', derived'.unlimited usual', blanks'⟩
  exact Except.ok.inj (read.symm.trans read')

end PartRelay.Json
