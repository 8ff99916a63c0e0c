import PartRelay.Proofs.Json.Tokens

/-!
# The grammar of JSON

Which texts are JSON, as rules that count the levels of arrays and objects: blanks may stand around
every token, and a number may be cut short where a derivation is not that of a whole text. A phrase
takes some of the text, and none starts with a blank. A text is JSON without a bound on its depth
where it is with some number of levels.
-/

namespace PartRelay.Json

/-! ## Rules -/

/-- What tells one JSON from another: which values are written as words, and how many digits an
integer may have where that is limited. -/
structure Dialect where
  words : List (Text × Json)
  limit : Option Nat
  spelled : ∀ word ∈ words, word.1 ≠ []

namespace Dialect

/-- JSON as the standard has it. -/
def standard : Dialect where
  words := [("null", .null), ("true", .bool true), ("false", .bool false)]
  limit := none
  spelled := by decide

/-- JSON as it is read under a limit of digits. -/
def wide (limit : Option Nat) : Dialect where
  words := Json.words
  limit := limit
  spelled := by decide

/-- JSON as requests are read. -/
def accepted : Dialect := wide (some Integer.digitLimit)

/-- At least the words of the standard, and no others than are read. -/
structure IsUsual (d : Dialect) : Prop where
  standard : Dialect.standard.words ⊆ d.words
  known : d.words ⊆ Json.words

theorem isUsual_standard : standard.IsUsual where
  standard := List.Subset.refl _
  known := List.subset_append_left standard.words _

theorem isUsual_wide (limit : Option Nat) : (wide limit).IsUsual where
  standard := List.subset_append_left standard.words _
  known := List.Subset.refl _

end Dialect

/-- The parts of a text that rules are about. -/
inductive Phrase where
  | value (j : Json)
  /-- The items of an array up to its closing bracket. -/
  | items (items : List Json)
  /-- An object, with every member as it stands there. -/
  | object (members : List (Text × Json))
  | member (key : Text) (value : Json)
  /-- The members of an object up to its closing brace. -/
  | members (members : List (Text × Json))

/-- The text starts with the phrase, which the second text follows, and so many levels are enough
for it. Each array and each object takes one of them. -/
inductive Derives (d : Dialect) : (levels : Nat) → Text → Phrase → Text → Prop where
  | string {levels : Nat} {t s rest : Text} (token : IsString t s rest) :
      Derives d levels (CodePoint.ofChar '"' :: t) (.value (.string s)) rest
  | word {levels : Nat} {t word rest : Text} {value : Json} (among : (word, value) ∈ d.words)
      (front : t = word ++ rest) : Derives d levels t (.value value) rest
  | number {levels : Nat} {t number rest : Text} {value : Json}
      (token : Number d.limit number value) (front : t = number ++ rest) :
      Derives d levels t (.value value) rest
  | emptyArray {levels : Nat} {t rest : Text}
      (close : skipBlanks t = CodePoint.ofChar ']' :: rest) :
      Derives d (levels + 1) (CodePoint.ofChar '[' :: t) (.value (.array [])) rest
  | array {levels : Nat} {t rest : Text} {items : List Json}
      (h : Derives d levels (skipBlanks t) (.items items) rest) :
      Derives d (levels + 1) (CodePoint.ofChar '[' :: t) (.value (.array items)) rest
  | lastItem {levels : Nat} {t after rest : Text} {item : Json}
      (h : Derives d levels t (.value item) after)
      (close : skipBlanks after = CodePoint.ofChar ']' :: rest) :
      Derives d levels t (.items [item]) rest
  | item {levels : Nat} {t after next rest : Text} {item : Json} {items : List Json}
      (h : Derives d levels t (.value item) after)
      (comma : skipBlanks after = CodePoint.ofChar ',' :: next)
      (more : Derives d levels (skipBlanks next) (.items items) rest) :
      Derives d levels t (.items (item :: items)) rest
  /-- Of members with one key the last is the field. -/
  | fields {levels : Nat} {t rest : Text} {members : List (Text × Json)}
      (h : Derives d levels t (.object members) rest) :
      Derives d levels t (.value (.object (Table.ofWrites members))) rest
  | emptyObject {levels : Nat} {t rest : Text}
      (close : skipBlanks t = CodePoint.ofChar '}' :: rest) :
      Derives d (levels + 1) (CodePoint.ofChar '{' :: t) (.object []) rest
  | object {levels : Nat} {t rest : Text} {members : List (Text × Json)}
      (h : Derives d levels (skipBlanks t) (.members members) rest) :
      Derives d (levels + 1) (CodePoint.ofChar '{' :: t) (.object members) rest
  | member {levels : Nat} {t key after next rest : Text} {value : Json}
      (token : IsString t key after) (colon : skipBlanks after = CodePoint.ofChar ':' :: next)
      (h : Derives d levels (skipBlanks next) (.value value) rest) :
      Derives d levels (CodePoint.ofChar '"' :: t) (.member key value) rest
  | lastMember {levels : Nat} {t key after rest : Text} {value : Json}
      (h : Derives d levels t (.member key value) after)
      (close : skipBlanks after = CodePoint.ofChar '}' :: rest) :
      Derives d levels t (.members [(key, value)]) rest
  | memberAnd {levels : Nat} {t key after next rest : Text} {value : Json}
      {members : List (Text × Json)} (h : Derives d levels t (.member key value) after)
      (comma : skipBlanks after = CodePoint.ofChar ',' :: next)
      (more : Derives d levels (skipBlanks next) (.members members) rest) :
      Derives d levels t (.members ((key, value) :: members)) rest

/-- The whole text is the phrase, with blanks around it, and so many levels are enough for it. -/
def SpellsWithin (d : Dialect) (levels : Nat) (t : Text) (p : Phrase) : Prop :=
  ∃ rest, Derives d levels (skipBlanks t) p rest ∧ skipBlanks rest = []

/-- The whole text is the phrase, of whatever depth. -/
def Spells (d : Dialect) (t : Text) (p : Phrase) : Prop := ∃ levels, SpellsWithin d levels t p

variable {d : Dialect} {limit : Option Nat} {levels : Nat} {t rest : Text} {j : Json} {p : Phrase}

/-! ## Blanks -/

theorem skipBlanks_cons {c : CodePoint} (h : isBlank c = false) (t : Text) :
    skipBlanks (c :: t) = c :: t := by
  simp [skipBlanks, h]

theorem skipBlanks_space (t : Text) :
    skipBlanks (CodePoint.ofChar ' ' :: t) = skipBlanks t := by
  have blank : isBlank (CodePoint.ofChar ' ') = true := by decide
  simp [skipBlanks, blank]

theorem length_skipBlanks_le (t : Text) : (skipBlanks t).length ≤ t.length :=
  (List.dropWhile_suffix _).length_le

/-! ## Derivations -/

/-- What a value may start with, where these words are values. -/
def Starts (words : List (Text × Json)) (c : CodePoint) : Prop :=
  c.isDigit = true ∨ c ∈ [CodePoint.ofChar '"', .ofChar '[', .ofChar '{', .ofChar '-'] ∨
    ∃ word ∈ words, word.1.head? = some c

instance (words : List (Text × Json)) (c : CodePoint) : Decidable (Starts words c) :=
  inferInstanceAs (Decidable (_ ∨ _ ∨ _))

/-- No value starts with a blank. -/
theorem Starts.isBlank_eq_false {c : CodePoint} (h : Starts words c) : isBlank c = false := by
  rcases h with digit | among | ⟨word, among, front⟩
  · have ne : ∀ d : Char, (CodePoint.ofChar d).isDigit = false → c ≠ CodePoint.ofChar d :=
      fun d hd => CodePoint.ne_of_isDigit digit hd
    have blank := ne ' ' (by decide)
    have tab := ne '\t' (by decide)
    have line := ne '\n' (by decide)
    have carriage := ne '\r' (by decide)
    simp [isBlank, blank, tab, line, carriage]
  · have all : ∀ c ∈ [CodePoint.ofChar '"', .ofChar '[', .ofChar '{', .ofChar '-'],
        isBlank c = false := by decide
    exact all c among
  · have all : ∀ word ∈ words, ∀ c ∈ word.1.head?, isBlank c = false := by decide
    exact all word among c front

/-- The start of a phrase. -/
def Phrase.StartsWith (words : List (Text × Json)) : Phrase → CodePoint → Prop
  | .value _, c | .items _, c => Starts words c
  | .object _, c => c = CodePoint.ofChar '{'
  | .member .., c | .members _, c => c = CodePoint.ofChar '"'

theorem Derives.starts (h : Derives d levels t p rest) :
    ∃ c t', t = c :: t' ∧ p.StartsWith d.words c := by
  induction h with
  | string token => exact ⟨_, _, rfl, .inr (.inl (by simp))⟩
  | @word _ t word rest value among front =>
    cases word with
    | nil => exact absurd rfl (d.spelled _ among)
    | cons c word => exact ⟨c, word ++ rest, front, .inr (.inr ⟨_, among, rfl⟩)⟩
  | number token front =>
    subst front
    obtain ⟨c, t', digit, rfl | rfl⟩ := token.front
    · exact ⟨c, _, rfl, .inl digit⟩
    · exact ⟨_, _, rfl, .inr (.inl (by simp))⟩
  | emptyArray close => exact ⟨_, _, rfl, .inr (.inl (by simp))⟩
  | array h ih => exact ⟨_, _, rfl, .inr (.inl (by simp))⟩
  | lastItem h close ih => exact ih
  | item h comma more ih _ => exact ih
  | fields h ih =>
    obtain ⟨c, t', eq, brace⟩ := ih
    exact ⟨c, t', eq, .inr (.inl (by simp [show c = _ from brace]))⟩
  | emptyObject close => exact ⟨_, _, rfl, rfl⟩
  | object h ih => exact ⟨_, _, rfl, rfl⟩
  | member token colon h ih => exact ⟨_, _, rfl, rfl⟩
  | lastMember h close ih => exact ih
  | memberAnd h comma more ih _ => exact ih

/-- What stands behind a separator is shorter than the text with the blanks in front of it. -/
theorem length_lt_of_separator {c : CodePoint} {after next : Text}
    (separator : skipBlanks after = c :: next) : next.length < after.length := by
  have shorter := length_skipBlanks_le after
  rw [separator, List.length_cons] at shorter
  exact shorter

theorem length_skipBlanks_lt_of_separator {c : CodePoint} {after next : Text}
    (separator : skipBlanks after = c :: next) : (skipBlanks next).length < after.length :=
  Nat.lt_of_le_of_lt (length_skipBlanks_le next) (length_lt_of_separator separator)

/-- A phrase takes one code point at least. -/
theorem Derives.length_lt (h : Derives d levels t p rest) : rest.length < t.length := by
  induction h with
  | string token => exact Nat.lt_succ_of_lt token.length_lt
  | word among front =>
    rw [front, List.length_append]
    exact Nat.lt_add_of_pos_left (List.length_pos_iff.mpr (d.spelled _ among))
  | number token front =>
    rw [front, List.length_append]
    exact Nat.lt_add_of_pos_left (List.length_pos_iff.mpr token.ne_nil)
  | emptyArray close | emptyObject close =>
    exact Nat.lt_succ_of_lt (length_lt_of_separator close)
  | @array _ t _ _ _ ih | @object _ t _ _ _ ih =>
    exact Nat.lt_succ_of_lt (Nat.lt_of_lt_of_le ih (length_skipBlanks_le t))
  | lastItem _ close ih | lastMember _ close ih =>
    exact Nat.lt_trans (length_lt_of_separator close) ih
  | item _ comma _ ih later | memberAnd _ comma _ ih later =>
    exact Nat.lt_trans later (Nat.lt_trans (length_skipBlanks_lt_of_separator comma) ih)
  | fields h ih => exact ih
  | member token colon _ ih =>
    have behind := Nat.lt_trans ih (length_skipBlanks_lt_of_separator colon)
    exact Nat.lt_succ_of_lt (Nat.lt_trans behind token.length_lt)

/-- Levels that are not used do no harm. -/
theorem Derives.mono (h : Derives d levels t p rest) {more : Nat} (le : levels ≤ more) :
    Derives d more t p rest := by
  have below {levels more : Nat} (le : levels + 1 ≤ more) :
      ∃ n, more = n + 1 ∧ levels ≤ n := ⟨more - 1, by omega, by omega⟩
  induction h generalizing more with
  | string token => exact .string token
  | word among front => exact .word among front
  | number token front => exact .number token front
  | emptyArray close =>
    obtain ⟨n, rfl, _⟩ := below le
    exact .emptyArray close
  | array h ih =>
    obtain ⟨n, rfl, enough⟩ := below le
    exact .array (ih enough)
  | lastItem h close ih => exact .lastItem (ih le) close
  | item h comma more ih later => exact .item (ih le) comma (later le)
  | fields h ih => exact .fields (ih le)
  | emptyObject close =>
    obtain ⟨n, rfl, _⟩ := below le
    exact .emptyObject close
  | object h ih =>
    obtain ⟨n, rfl, enough⟩ := below le
    exact .object (ih enough)
  | member token colon h ih => exact .member token colon (ih le)
  | lastMember h close ih => exact .lastMember (ih le) close
  | memberAnd h comma more ih later => exact .memberAnd (ih le) comma (later le)

/-- As many levels as there are code points are enough: each level takes one. -/
theorem Derives.within_length (h : Derives d levels t p rest) : Derives d t.length t p rest := by
  induction h with
  | string token => exact .string token
  | word among front => exact .word among front
  | number token front => exact .number token front
  | emptyArray close => exact .emptyArray close
  | array h ih => exact .array (ih.mono (length_skipBlanks_le _))
  | lastItem h close ih => exact .lastItem ih close
  | item h comma more ih later =>
    have shorter := Nat.lt_trans (length_skipBlanks_lt_of_separator comma) h.length_lt
    exact .item ih comma (later.mono (Nat.le_of_lt shorter))
  | fields h ih => exact .fields ih
  | emptyObject close => exact .emptyObject close
  | object h ih => exact .object (ih.mono (length_skipBlanks_le _))
  | member token colon h ih =>
    have shorter := Nat.lt_trans (length_skipBlanks_lt_of_separator colon) token.length_lt
    exact .member token colon (ih.mono (Nat.le_of_lt (Nat.lt_succ_of_lt shorter)))
  | lastMember h close ih => exact .lastMember ih close
  | memberAnd h comma more ih later =>
    have shorter := Nat.lt_trans (length_skipBlanks_lt_of_separator comma) h.length_lt
    exact .memberAnd ih comma (later.mono (Nat.le_of_lt shorter))

theorem Spells.within_length (h : Spells d t p) : SpellsWithin d t.length t p := by
  obtain ⟨levels, rest, derived, blanks⟩ := h
  exact ⟨rest, derived.within_length.mono (length_skipBlanks_le t), blanks⟩

/-- No blanks stand before a phrase. -/
theorem Derives.skipBlanks_eq (h : Derives d levels t p rest) (usual : d.IsUsual) :
    skipBlanks t = t := by
  obtain ⟨c, t', rfl, start⟩ := h.starts
  have usual (start : Starts d.words c) : Starts words c :=
    start.imp_right (.imp_right fun ⟨w, among, front⟩ => ⟨w, usual.known among, front⟩)
  refine skipBlanks_cons ?_ t'
  cases p with
  | value j => exact (usual start).isBlank_eq_false
  | items js => exact (usual start).isBlank_eq_false
  | object ms =>
    rw [show c = _ from start]
    decide
  | member key j =>
    rw [show c = _ from start]
    decide
  | members ms =>
    rw [show c = _ from start]
    decide

/-! ## Dialects -/

/-- What one dialect has, another one has that has its words and no limit. -/
theorem Derives.unlimited (h : Derives d levels t p rest) (usual : d.IsUsual) :
    Derives (.wide none) levels t p rest := by
  induction h with
  | string token => exact .string token
  | word among front => exact .word (usual.known among) front
  | number token front => exact .number token.unlimited front
  | emptyArray close => exact .emptyArray close
  | array h ih => exact .array ih
  | lastItem h close ih => exact .lastItem ih close
  | item h comma more ih later => exact .item ih comma later
  | fields h ih => exact .fields ih
  | emptyObject close => exact .emptyObject close
  | object h ih => exact .object ih
  | member token colon h ih => exact .member token colon ih
  | lastMember h close ih => exact .lastMember ih close
  | memberAnd h comma more ih later => exact .memberAnd ih comma later

end PartRelay.Json
