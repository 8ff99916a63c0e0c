/-!
# Tables

An association list in order of first insertion: a write to a key that is there keeps its place, a
write to a new one goes to the end. JSON objects, the raw store and the index of open buffers are
all such tables.
-/

namespace PartRelay

abbrev Table (κ ν : Type) := List (κ × ν)

namespace Table

variable {κ ν : Type} [DecidableEq κ]

def get? : Table κ ν → κ → Option ν
  | [], _ => none
  | (k, v) :: t, key => if k = key then some v else get? t key

def contains (t : Table κ ν) (key : κ) : Bool := (t.get? key).isSome

def set : Table κ ν → κ → ν → Table κ ν
  | [], key, value => [(key, value)]
  | (k, v) :: t, key, value => if k = key then (k, value) :: t else (k, v) :: set t key value

def erase : Table κ ν → κ → Table κ ν
  | [], _ => []
  | (k, v) :: t, key => if k = key then erase t key else (k, v) :: erase t key

def keys (t : Table κ ν) : List κ := t.map Prod.fst

/-- The table of a list of writes. -/
def ofWrites (writes : List (κ × ν)) : Table κ ν :=
  writes.foldl (fun t entry => t.set entry.1 entry.2) []

/-- The table with another's entries laid over it. -/
def update (t s : Table κ ν) : Table κ ν := s.foldl (fun t entry => t.set entry.1 entry.2) t

/-! ## Reading after writing -/

@[simp] theorem get?_nil (key : κ) : get? ([] : Table κ ν) key = none := rfl

theorem get?_set (t : Table κ ν) (key key' : κ) (value : ν) :
    (t.set key value).get? key' = if key = key' then some value else t.get? key' := by
  induction t with
  | nil => simp [set, get?]
  | cons entry t ih =>
    obtain ⟨k, v⟩ := entry
    by_cases h : k = key
    · subst h
      by_cases h' : k = key' <;> simp [set, get?, h']
    · by_cases h' : k = key'
      · subst h'
        simp [set, get?, h, Ne.symm h]
      · simp [set, get?, h, h', ih]

@[simp] theorem get?_set_self (t : Table κ ν) (key : κ) (value : ν) :
    (t.set key value).get? key = some value := by
  simp [get?_set]

theorem get?_set_of_ne (t : Table κ ν) {key key' : κ} (value : ν) (h : key ≠ key') :
    (t.set key value).get? key' = t.get? key' := by
  simp [get?_set, h]

theorem get?_erase (t : Table κ ν) (key key' : κ) :
    (t.erase key).get? key' = if key = key' then none else t.get? key' := by
  induction t with
  | nil => simp [erase]
  | cons entry t ih =>
    obtain ⟨k, v⟩ := entry
    by_cases h : k = key
    · subst h
      by_cases h' : k = key'
      · subst h'
        simpa [erase] using ih
      · simpa [erase, get?, h'] using ih
    · by_cases h' : k = key'
      · subst h'
        simp [erase, get?, h, Ne.symm h]
      · simp [erase, get?, h, h', ih]

end Table

end PartRelay
