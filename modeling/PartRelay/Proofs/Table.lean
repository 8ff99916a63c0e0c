import PartRelay.Table

/-!
# Keys of tables

Which keys a table has, after writes and erasures too. A table whose keys are distinct keeps them
so, and holds exactly the entries that reading finds.
-/

namespace PartRelay.Table

variable {κ ν : Type} [DecidableEq κ]

/-! ## Keys and reading -/

theorem get?_eq_none_iff {t : Table κ ν} {key : κ} : t.get? key = none ↔ key ∉ t.keys := by
  induction t with
  | nil => simp [keys]
  | cons entry t ih =>
    obtain ⟨k, v⟩ := entry
    by_cases h : k = key
    · simp [get?, keys, h]
    · simpa [get?, keys, h, Ne.symm h] using ih

theorem contains_iff {t : Table κ ν} {key : κ} : t.contains key = true ↔ key ∈ t.keys := by
  rw [contains, Option.isSome_iff_ne_none, ne_eq, get?_eq_none_iff, Decidable.not_not]

theorem exists_of_mem_keys {t : Table κ ν} {key : κ} (h : key ∈ t.keys) :
    ∃ value, t.get? key = some value := by
  rw [← contains_iff, contains, Option.isSome_iff_exists] at h
  exact h

theorem mem_of_get? {t : Table κ ν} {key : κ} {value : ν} (h : t.get? key = some value) :
    (key, value) ∈ t := by
  induction t with
  | nil => simp at h
  | cons entry t ih =>
    obtain ⟨k, v⟩ := entry
    by_cases hk : k = key
    · rw [get?, if_pos hk, Option.some.injEq] at h
      simp [hk, h]
    · rw [get?, if_neg hk] at h
      exact List.mem_cons_of_mem _ (ih h)

theorem get?_append (t s : Table κ ν) (key : κ) :
    get? (t ++ s) key = (get? t key).or (get? s key) := by
  induction t with
  | nil => rfl
  | cons entry t ih =>
    obtain ⟨k, v⟩ := entry
    rw [List.cons_append, get?, get?]
    split
    · rfl
    · exact ih

/-- With distinct keys, reading finds every entry. -/
theorem get?_of_mem {t : Table κ ν} (distinct : t.keys.Nodup) {key : κ} {value : ν}
    (h : (key, value) ∈ t) : t.get? key = some value := by
  induction t with
  | nil => simp at h
  | cons entry t ih =>
    obtain ⟨k, v⟩ := entry
    rw [keys, List.map_cons, List.nodup_cons] at distinct
    rcases List.mem_cons.mp h with same | later
    · cases same
      exact if_pos rfl
    · have ne : k ≠ key := by
        rintro rfl
        exact distinct.1 (List.mem_map.mpr ⟨_, later, rfl⟩)
      rw [get?, if_neg ne]
      exact ih distinct.2 later

theorem get?_iff_mem {t : Table κ ν} (distinct : t.keys.Nodup) {key : κ} {value : ν} :
    t.get? key = some value ↔ (key, value) ∈ t :=
  ⟨mem_of_get?, get?_of_mem distinct⟩

/-- Tables with distinct keys and the same entries read the same, in whatever order. -/
theorem get?_congr_of_mem {t u : Table κ ν} (ht : t.keys.Nodup) (hu : u.keys.Nodup)
    (h : ∀ entry, entry ∈ t ↔ entry ∈ u) (key : κ) : t.get? key = u.get? key := by
  ext value
  rw [get?_iff_mem ht, get?_iff_mem hu, h]

theorem get?_reverse {t : Table κ ν} (distinct : t.keys.Nodup) (key : κ) :
    get? t.reverse key = t.get? key := by
  have distinct' : (keys t.reverse).Nodup := by
    rw [keys, List.map_reverse]
    exact (List.reverse_perm _).nodup_iff.mpr distinct
  exact get?_congr_of_mem distinct' distinct (fun _ => List.mem_reverse) key

/-- Tables read alike at a key if what each entry has for it is alike. -/
theorem get?_cons_congr {t s : Table κ ν} {k key : κ} {value value' : ν}
    (head : k = key → value = value') (tail : t.get? key = s.get? key) :
    get? ((k, value) :: t) key = get? ((k, value') :: s) key := by
  rw [get?, get?, tail]
  split
  next same => rw [head same]
  next => rfl

/-! ## Writing -/

theorem set_of_absent {t : Table κ ν} {key : κ} (h : key ∉ t.keys) (value : ν) :
    t.set key value = t ++ [(key, value)] := by
  induction t with
  | nil => rfl
  | cons entry t ih =>
    obtain ⟨k, v⟩ := entry
    simp only [keys, List.map_cons, List.mem_cons, not_or] at h
    rw [set, if_neg (Ne.symm h.1), ih h.2, List.cons_append]

/-- Behind the entries of a table a new key is written where it stands. -/
theorem append_cons_eq_set {done rest : Table κ ν} {key : κ} {value : ν}
    (distinct : (keys (done ++ (key, value) :: rest)).Nodup) :
    done ++ (key, value) :: rest = done.set key value ++ rest := by
  have fresh : key ∉ Table.keys done := by
    simp only [keys, List.map_append, List.map_cons, List.nodup_append] at distinct
    exact fun h => distinct.2.2 key h key (by simp) rfl
  rw [set_of_absent fresh, List.append_assoc, List.singleton_append]

theorem keys_set_of_present {t : Table κ ν} {key : κ} (h : key ∈ t.keys) (value : ν) :
    (t.set key value).keys = t.keys := by
  induction t with
  | nil => simp [keys] at h
  | cons entry t ih =>
    obtain ⟨k, v⟩ := entry
    by_cases hk : k = key
    · simp [set, keys, hk]
    · have later : key ∈ Table.keys t := by
        rcases List.mem_cons.mp h with same | later
        · exact absurd same.symm hk
        · exact later
      have rest := ih later
      simp only [keys] at rest ⊢
      rw [set, if_neg hk, List.map_cons, List.map_cons, rest]

theorem keys_set_of_absent {t : Table κ ν} {key : κ} (h : key ∉ t.keys) (value : ν) :
    (t.set key value).keys = t.keys ++ [key] := by
  rw [set_of_absent h, keys, List.map_append]
  rfl

theorem mem_keys_set {t : Table κ ν} {key k : κ} {value : ν} :
    k ∈ (t.set key value).keys ↔ k ∈ t.keys ∨ k = key := by
  by_cases h : key ∈ t.keys
  · rw [keys_set_of_present h]
    constructor
    · exact .inl
    · rintro (hk | rfl)
      · exact hk
      · exact h
  · rw [keys_set_of_absent h, List.mem_append, List.mem_singleton]

theorem mem_of_mem_set {t : Table κ ν} {key : κ} {value : ν} {entry : κ × ν}
    (h : entry ∈ t.set key value) : entry ∈ t ∨ entry = (key, value) := by
  induction t with
  | nil => exact .inr (List.mem_singleton.mp h)
  | cons first t ih =>
    rw [set] at h
    split at h
    · rcases List.mem_cons.mp h with rfl | later
      next same => exact .inr (by rw [same])
      · exact .inl (List.mem_cons_of_mem _ later)
    · rcases List.mem_cons.mp h with rfl | later
      · exact .inl List.mem_cons_self
      · exact (ih later).imp_left (List.mem_cons_of_mem _)

theorem nodup_keys_set {t : Table κ ν} (distinct : t.keys.Nodup) (key : κ) (value : ν) :
    (t.set key value).keys.Nodup := by
  by_cases h : key ∈ t.keys
  · rwa [keys_set_of_present h]
  · rw [keys_set_of_absent h, List.nodup_append]
    refine ⟨distinct, by simp, ?_⟩
    rintro k hk _ hkey rfl
    exact h (List.mem_singleton.mp hkey ▸ hk)

/-- Of two writes to a key the second is what stays. -/
theorem set_set (t : Table κ ν) (key : κ) (value value' : ν) :
    (t.set key value).set key value' = t.set key value' := by
  induction t with
  | nil => simp [set]
  | cons entry t ih =>
    obtain ⟨k, v⟩ := entry
    by_cases h : k = key
    · simp [set, h]
    · simp [set, h, ih]

/-- Writes to distinct keys that are not there go to the end. -/
theorem update_of_nodup {t s : Table κ ν} (distinct : (keys (t ++ s)).Nodup) :
    t.update s = t ++ s := by
  induction s generalizing t with
  | nil => exact (List.append_nil t).symm
  | cons entry s ih =>
    obtain ⟨key, value⟩ := entry
    have appended := append_cons_eq_set distinct
    rw [appended] at distinct ⊢
    exact ih distinct

theorem mem_of_mem_update {t s : Table κ ν} {entry : κ × ν} (h : entry ∈ t.update s) :
    entry ∈ t ∨ entry ∈ s := by
  induction s generalizing t with
  | nil => exact .inl h
  | cons write s ih =>
    rcases ih h with before | later
    · rcases mem_of_mem_set before with old | rfl
      · exact .inl old
      · exact .inr List.mem_cons_self
    · exact .inr (List.mem_cons_of_mem _ later)

theorem mem_of_mem_ofWrites {writes : List (κ × ν)} {entry : κ × ν}
    (h : entry ∈ ofWrites writes) : entry ∈ writes :=
  (mem_of_mem_update h).resolve_left List.not_mem_nil

/-- Of the writes to a key the last is what stays. -/
theorem get?_update (t s : Table κ ν) (key : κ) :
    (t.update s).get? key = (get? s.reverse key).or (t.get? key) := by
  induction s generalizing t with
  | nil => rfl
  | cons entry s ih =>
    obtain ⟨k, v⟩ := entry
    have write : (t.set k v).get? key = (get? [(k, v)] key).or (t.get? key) := by
      rw [get?_set, get?, get?_nil]
      split <;> rfl
    rw [List.reverse_cons, get?_append, Option.or_assoc, ← write]
    exact ih (t.set k v)

theorem get?_update_of_absent {t s : Table κ ν} {key : κ} (absent : key ∉ s.keys) :
    (t.update s).get? key = t.get? key := by
  have none : Table.get? s.reverse key = none := by
    rw [get?_eq_none_iff, keys, List.map_reverse, List.mem_reverse]
    exact absent
  rw [get?_update, none, Option.none_or]

/-- What is laid over a table twice does no more than once. -/
theorem get?_update_update (t s : Table κ ν) (key : κ) :
    ((t.update s).update s).get? key = (t.update s).get? key := by
  rw [get?_update, get?_update, ← Option.or_assoc, Option.or_self]

theorem get?_ofWrites (writes : List (κ × ν)) (key : κ) :
    (ofWrites writes).get? key = get? writes.reverse key := by
  rw [ofWrites, ← update, get?_update, get?_nil, Option.or_none]

theorem nodup_keys_update {t : Table κ ν} (distinct : t.keys.Nodup) (s : Table κ ν) :
    (t.update s).keys.Nodup := by
  induction s generalizing t with
  | nil => exact distinct
  | cons entry s ih => exact ih (nodup_keys_set distinct entry.1 entry.2)

/-! ## Mapping -/

section Mapping

variable {μ : Type}

/-- The table with something made of each value. -/
def mapValues (f : ν → μ) (t : Table κ ν) : Table κ μ := t.map fun entry => (entry.1, f entry.2)

theorem get?_mapValues (f : ν → μ) (t : Table κ ν) (key : κ) :
    (t.mapValues f).get? key = (t.get? key).map f := by
  induction t with
  | nil => rfl
  | cons entry t ih =>
    obtain ⟨k, v⟩ := entry
    rw [mapValues, List.map_cons, get?, get?]
    split
    · rfl
    · exact ih

theorem mapValues_set (f : ν → μ) (t : Table κ ν) (key : κ) (value : ν) :
    (t.set key value).mapValues f = (t.mapValues f).set key (f value) := by
  induction t with
  | nil => rfl
  | cons entry t ih =>
    obtain ⟨k, v⟩ := entry
    by_cases same : k = key
    · simp [set, mapValues, same]
    · simpa [set, mapValues, same] using ih

theorem mapValues_update (f : ν → μ) (t s : Table κ ν) :
    (t.update s).mapValues f = (t.mapValues f).update (s.mapValues f) := by
  induction s generalizing t with
  | nil => rfl
  | cons entry s ih =>
    show ((t.set entry.1 entry.2).update s).mapValues f = _
    rw [ih, mapValues_set]
    rfl

end Mapping

/-! ## Erasing -/

theorem mem_keys_erase {t : Table κ ν} {key k : κ} :
    k ∈ (t.erase key).keys ↔ k ∈ t.keys ∧ k ≠ key := by
  rw [← contains_iff, contains, get?_erase, ← contains_iff (t := t), contains]
  by_cases h : key = k
  · simp [h]
  · simp [h, Ne.symm h]

theorem mem_erase {t : Table κ ν} {key : κ} {entry : κ × ν} :
    entry ∈ t.erase key ↔ entry ∈ t ∧ entry.1 ≠ key := by
  induction t with
  | nil => simp [erase]
  | cons head t ih =>
    obtain ⟨k, v⟩ := head
    rw [erase]
    split
    next same =>
      rw [ih, List.mem_cons, and_congr_left_iff]
      intro ne
      constructor
      · exact .inr
      · rintro (rfl | later)
        · exact absurd same ne
        · exact later
    next other =>
      rw [List.mem_cons, List.mem_cons, ih, or_and_right]
      constructor
      · rintro (rfl | later)
        · exact .inl ⟨rfl, other⟩
        · exact .inr later
      · rintro (⟨rfl, _⟩ | later)
        · exact .inl rfl
        · exact .inr later

theorem erase_of_absent {t : Table κ ν} {key : κ} (h : key ∉ t.keys) : t.erase key = t := by
  induction t with
  | nil => rfl
  | cons entry t ih =>
    obtain ⟨k, v⟩ := entry
    simp only [keys, List.map_cons, List.mem_cons, not_or] at h
    rw [erase, if_neg (Ne.symm h.1), ih h.2]

/-- A new entry that is erased again leaves nothing behind. -/
theorem erase_set_of_absent {t : Table κ ν} {key : κ} (h : key ∉ t.keys) (value : ν) :
    (t.set key value).erase key = t := by
  induction t with
  | nil => simp [set, erase]
  | cons entry t ih =>
    obtain ⟨k, v⟩ := entry
    simp only [keys, List.map_cons, List.mem_cons, not_or] at h
    rw [set, if_neg (Ne.symm h.1), erase, if_neg (Ne.symm h.1), ih h.2]

/-- The table without any of these keys. -/
def eraseAll (t : Table κ ν) (gone : List κ) : Table κ ν := gone.foldl erase t

theorem get?_eraseAll_of_not_mem {t : Table κ ν} {gone : List κ} {key : κ} (h : key ∉ gone) :
    (t.eraseAll gone).get? key = t.get? key := by
  induction gone generalizing t with
  | nil => rfl
  | cons other gone ih =>
    rw [List.mem_cons, not_or] at h
    rw [eraseAll, List.foldl_cons, ← eraseAll, ih h.2, get?_erase, if_neg (Ne.symm h.1)]

theorem get?_eraseAll_of_mem {t : Table κ ν} {gone : List κ} {key : κ} (h : key ∈ gone) :
    (t.eraseAll gone).get? key = none := by
  induction gone generalizing t with
  | nil => cases h
  | cons other gone ih =>
    rw [eraseAll, List.foldl_cons, ← eraseAll]
    by_cases later : key ∈ gone
    · exact ih later
    · have here : other = key := ((List.mem_cons.mp h).resolve_right later).symm
      rw [get?_eraseAll_of_not_mem later, get?_erase, if_pos here]

theorem mem_eraseAll {t : Table κ ν} {gone : List κ} {entry : κ × ν} :
    entry ∈ t.eraseAll gone ↔ entry ∈ t ∧ entry.1 ∉ gone := by
  induction gone generalizing t with
  | nil => simp [eraseAll]
  | cons other gone ih =>
    rw [eraseAll, List.foldl_cons, ← eraseAll, ih, mem_erase, List.mem_cons, not_or, and_assoc]

end PartRelay.Table
