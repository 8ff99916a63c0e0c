import PartRelay.Files.Directory
import PartRelay.Proofs.Results

/-!
# Files read back

What is written to a path is read from it. A file never takes the place of a directory, so that the
way to it is the same before and after.
-/

namespace PartRelay.Directory

variable {d : Directory} {place : Place} {content : Bytes}

theorem entryAt?_of_isTop (top : place.isTop = true) : d.entryAt? place = some .directory := by
  rw [entryAt?, if_pos top]

theorem entryAt?_set_self (free : d.entryAt? place ≠ some .directory) :
    entryAt? (d.set place (.file content)) place = some (.file content) := by
  rw [entryAt?, if_neg fun top => free (entryAt?_of_isTop top), Table.get?_set_self]

theorem entryAt?_set_of_ne {other : Place} (h : place ≠ other) :
    entryAt? (d.set place (.file content)) other = d.entryAt? other := by
  rw [entryAt?, entryAt?, Table.get?_set_of_ne _ _ h]

/-- A step starts at a directory, which no written file replaces. -/
theorem follow_set (free : d.entryAt? place ≠ some .directory) {start next : Place} {name : Bytes}
    (h : d.follow start name = .ok next) :
    follow (d.set place (.file content)) start name = .ok next := by
  by_cases same : place = start
  · subst same
    rw [follow] at h
    split at h
    · cases h
    · cases h
    next directory => exact absurd directory free
  · rw [follow, entryAt?_set_of_ne same]
    exact h

theorem resolve_set (free : d.entryAt? place ≠ some .directory) {start target : Place}
    {names : List Bytes} (h : d.resolve start names = .ok target) :
    resolve (d.set place (.file content)) start names = .ok target := by
  induction names generalizing start with
  | nil => exact h
  | cons name names ih =>
    rw [resolve] at h ⊢
    cases step : d.follow start name with
    | error e =>
      rw [step] at h
      cases h
    | ok next =>
      rw [step] at h
      rw [follow_set free step]
      exact ih h

theorem placeOf_set (free : d.entryAt? place ≠ some .directory) {p : Path} {target : Place}
    (h : d.placeOf p = .ok target) :
    placeOf (d.set place (.file content)) p = .ok target := by
  unfold placeOf at h ⊢
  split at h
  · cases h
  · split at h
    · cases h
    next fits =>
      rw [if_neg fits, resolve_set free (mapError_eq_ok.mp h)]
      rfl

theorem write_eq_ok {p : Path} {written : Directory} (h : d.write p content = .ok written) :
    ∃ place, d.placeOf p = .ok place ∧ d.entryAt? place ≠ some .directory ∧
      written = d.set place (.file content) := by
  rw [write] at h
  split at h
  · cases h
  next place found =>
    split at h
    · cases h
    next free =>
      cases h
      exact ⟨place, found, free, rfl⟩

/-- Where one content can be written any other can. -/
theorem exists_write {p : Path} {written : Directory} (h : d.write p content = .ok written)
    (content' : Bytes) : ∃ written', d.write p content' = .ok written' := by
  obtain ⟨place, found, free, _⟩ := write_eq_ok h
  rw [write, found]
  dsimp only
  split
  next directory => exact absurd directory free
  · exact ⟨_, rfl⟩

/-- A file that has been written is there. -/
theorem exists?_write {p : Path} {written : Directory} (h : d.write p content = .ok written) :
    written.exists? p = .ok true := by
  obtain ⟨place, found, free, rfl⟩ := write_eq_ok h
  rw [exists?, placeOf_set free found]
  simp only [entryAt?_set_self free, Option.isSome_some]

/-- A file that is open for appending is there, with what it held before. -/
theorem openToAppend_eq_ok {p : Path} {before : Bytes} {opened : Directory}
    (h : d.openToAppend p = .ok (before, opened)) :
    ∃ place, opened.placeOf p = .ok place ∧ opened.entryAt? place = some (.file before) := by
  rw [openToAppend] at h
  split at h
  · cases h
  next place found =>
    split at h
    · cases h
    next content file =>
      cases h
      exact ⟨place, found, file⟩
    next absent =>
      have free : d.entryAt? place ≠ some .directory := by simp [absent]
      cases h
      exact ⟨place, placeOf_set free found, entryAt?_set_self free⟩

theorem read_openToAppend {p : Path} {before : Bytes} {opened : Directory}
    (h : d.openToAppend p = .ok (before, opened)) : opened.read p = .ok before := by
  obtain ⟨place, found, file⟩ := openToAppend_eq_ok h
  simp only [read, found, file]

/-- Into a file that is open for appending anything can be written. -/
theorem write_openToAppend {p : Path} {before : Bytes} {opened : Directory}
    (h : d.openToAppend p = .ok (before, opened)) (content : Bytes) :
    ∃ written, opened.write p content = .ok written := by
  obtain ⟨place, found, file⟩ := openToAppend_eq_ok h
  simp only [write, found, file]
  exact ⟨_, rfl⟩

theorem nameError?_of_placeOf {p : Path} (h : d.placeOf p = .ok place) :
    p.nameError? = none := by
  rw [placeOf] at h
  split at h
  · cases h
  next fine => exact fine

/-- A file holds what has been written to it. -/
theorem read_write {p : Path} {written : Directory} (h : d.write p content = .ok written) :
    written.read p = .ok content := by
  obtain ⟨place, found, free, rfl⟩ := write_eq_ok h
  rw [read, placeOf_set free found]
  simp only [entryAt?_set_self free]

end PartRelay.Directory
