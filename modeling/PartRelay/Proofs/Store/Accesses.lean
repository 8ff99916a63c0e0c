import Mathlib.Data.List.Induction
import PartRelay.Proofs.Store.Views

/-!
# The store as a map

Views write, read and erase in one store. What a view reads is what was last written under the same
full path and version, whichever view wrote it, unless it was erased since. Two keys have one place
in the store exactly when their full paths and their versions agree, so that views whose chains of
names part ways never meet.
-/

namespace PartRelay

namespace View

/-! ## Places -/

/-- The path of a view and the key below it, as one text. -/
def fullPath (v : View) (key : Text) : Text := v.path ++ key

theorem not_mem_ofInt (n : Int) : CodePoint.ofChar 'v' ∉ Text.ofInt n := by
  have digits : CodePoint.ofChar 'v' ∉ Text.ofNat n.natAbs := fun h =>
    absurd (Text.isDigit_of_mem_ofNat h) (by decide)
  rw [Text.ofInt]
  split
  · rw [List.mem_cons, not_or]
    exact ⟨by decide, digits⟩
  · exact digits

/-- No version holds the letter before it, so that the last of these letters parts a raw key. -/
theorem rawKey_eq_iff {v v' : View} {key key' : Text} {version version' : Int} :
    v.rawKey key version = v'.rawKey key' version' ↔
      v.fullPath key = v'.fullPath key' ∧ version = version' := by
  have backward : ∀ (w : View) (k : Text) (n : Int), (w.rawKey k n).reverse
      = (Text.ofInt n).reverse ++ CodePoint.ofChar 'v' ::
          CodePoint.ofChar '_' :: (w.fullPath k).reverse := by
    intro w k n
    have mark : (Text.ofString "_v").reverse = [CodePoint.ofChar 'v', CodePoint.ofChar '_'] := rfl
    rw [rawKey, List.reverse_append, List.reverse_append, mark]
    rfl
  constructor
  · intro same
    have eq := congrArg List.reverse same
    rw [backward, backward] at eq
    have versions := congrArg (List.takeWhile (· != CodePoint.ofChar 'v')) eq
    rw [takeWhile_step (mt List.mem_reverse.mp (not_mem_ofInt version)),
      takeWhile_step (mt List.mem_reverse.mp (not_mem_ofInt version')),
      List.reverse_inj] at versions
    rw [versions] at eq
    have paths := List.append_cancel_left eq
    rw [List.cons.injEq, List.cons.injEq, List.reverse_inj] at paths
    exact ⟨paths.2.2, Text.ofInt_injective versions⟩
  · rintro ⟨paths, rfl⟩
    rw [fullPath, fullPath] at paths
    rw [rawKey, rawKey, paths]

/-! ## Chains of names -/

/-- The view that a chain of names leads to. -/
def descend (v : View) : List Text → Except NameError View
  | [] => .ok v
  | name :: names =>
    match v.child name with
    | .error e => .error e
    | .ok child => child.descend names

theorem descend_cons_eq_ok {v w : View} {name : Text} {names : List Text}
    (h : v.descend (name :: names) = .ok w) :
    ∃ child, v.child name = .ok child ∧ child.descend names = .ok w := by
  rw [descend] at h
  split at h
  · cases h
  next child step => exact ⟨child, step, h⟩

/-- A chain adds each of its names and a slash to the path. -/
theorem path_descend {v w : View} {names : List Text} (h : v.descend names = .ok w) :
    w.path = v.path ++ names.flatMap (· ++ [CodePoint.ofChar '/']) := by
  induction names generalizing v with
  | nil =>
    cases h
    simp
  | cons name names ih =>
    obtain ⟨child, step, rest⟩ := descend_cons_eq_ok h
    rw [ih rest, (child_eq_ok step).1, List.flatMap_cons, List.append_assoc]

/-- What stands below a view stands, under a longer key, in the view that the chain began with. -/
theorem rawKey_descend {v w : View} {names : List Text} (h : v.descend names = .ok w) (key : Text)
    (version : Int) : w.rawKey key version
      = v.rawKey (names.flatMap (· ++ [CodePoint.ofChar '/']) ++ key) version := by
  rw [rawKey, rawKey, path_descend h]
  simp only [List.append_assoc]

/-- Chains of which neither goes on from the other lead to views that share no place. -/
theorem rawKey_ne_of_apart {v w w' : View} {names names' : List Text}
    (h : v.descend names = .ok w) (h' : v.descend names' = .ok w') (apart : ¬ names <+: names')
    (apart' : ¬ names' <+: names) (key key' : Text) (version version' : Int) :
    w.rawKey key version ≠ w'.rawKey key' version' := by
  induction names generalizing v names' with
  | nil => exact absurd (List.nil_prefix) apart
  | cons name names ih =>
    cases names' with
    | nil => exact absurd (List.nil_prefix) apart'
    | cons name' names' =>
      obtain ⟨child, step, rest⟩ := descend_cons_eq_ok h
      obtain ⟨child', step', rest'⟩ := descend_cons_eq_ok h'
      by_cases same : name = name'
      · -- As long as the names agree the two chains go through the same views.
        subst same
        rw [step, Except.ok.injEq] at step'
        subst step'
        rw [List.cons_prefix_cons, and_iff_right rfl] at apart apart'
        exact ih rest rest' apart apart'
      · rw [rawKey_descend rest, rawKey_descend rest']
        exact rawKey_ne_of_name_ne step step' same _ _ _ _

end View

/-! ## Accesses -/

/-- What is done to a store through a view. A write has its own time. -/
inductive Access where
  | set (view : View) (now : Int) (key : Text) (version : Int) (data : Bytes)
  | get (view : View) (key : Text) (version : Int)
  | delete (view : View) (key : Text) (version : Int)

namespace Access

/-- Whether time and version of what is written can be. -/
def IsWritable : Access → Prop
  | .set _ now _ version _ =>
    Integer.isWritable now = true ∧ Integer.isWritable version = true
  | _ => True

/-- Whether the access writes a record under a full path. -/
def Writes (path : Text) (record : Record) : Access → Prop
  | .set view now key version data => view.fullPath key = path ∧ record = ⟨version, now, data⟩
  | _ => False

/-- Whether the access writes or erases under a full path and a version. -/
def Changes (path : Text) (version : Int) : Access → Prop
  | .set view _ key v _ => view.fullPath key = path ∧ v = version
  | .get .. => False
  | .delete view key v => view.fullPath key = path ∧ v = version

/-- The store after an access. -/
def apply (store : Store) : Access → Except Integer.WriteError Store
  | .set view now key version data => view.set store now key version data
  | .get .. => .ok store
  | .delete view key version => .ok (view.delete store key version)

end Access

/-- The store after one access after the other, unless a write fails. -/
def Store.after (store : Store) (accesses : List Access) : Except Integer.WriteError Store :=
  accesses.foldlM Access.apply store

/-- Whether a record is the latest one under its full path and version: it was written, and nothing
has been written or erased there since. -/
def IsLatest (accesses : List Access) (path : Text) (record : Record) : Prop :=
  ∃ before access later, accesses = before ++ access :: later ∧ access.Writes path record ∧
    ∀ next ∈ later, ¬ next.Changes path record.version

variable {accesses : List Access} {access : Access} {path : Text} {record : Record}

theorem Access.Writes.changes (h : access.Writes path record) :
    access.Changes path record.version := by
  cases access with
  | set view now key version data =>
    obtain ⟨same, rfl⟩ := h
    exact ⟨same, rfl⟩
  | get view key version => cases h
  | delete view key version => cases h

theorem not_isLatest_nil : ¬ IsLatest [] path record := by
  rintro ⟨before, access, later, eq, _⟩
  cases before <;> cases eq

/-- The latest record after one more access is what that writes, or the one before it. -/
theorem isLatest_append_iff : IsLatest (accesses ++ [access]) path record ↔
    access.Writes path record ∨
      (¬ access.Changes path record.version ∧ IsLatest accesses path record) := by
  constructor
  · rintro ⟨before, written, later, eq, writes, kept⟩
    rcases List.eq_nil_or_concat later with rfl | ⟨front, last, rfl⟩
    · obtain ⟨_, same⟩ := List.append_inj' eq rfl
      cases same
      exact .inl writes
    · rw [List.concat_eq_append, ← List.cons_append, ← List.append_assoc] at eq
      obtain ⟨rfl, same⟩ := List.append_inj' eq rfl
      cases same
      refine .inr ⟨kept access (by simp), before, written, front, rfl, writes, ?_⟩
      exact fun next hn => kept next (by simp [hn])
  · rintro (writes | ⟨unchanged, before, written, later, rfl, writes, kept⟩)
    · exact ⟨accesses, access, [], rfl, writes, fun _ none => absurd none List.not_mem_nil⟩
    · refine ⟨before, written, later ++ [access], by simp, writes, fun next hn => ?_⟩
      rcases List.mem_append.mp hn with old | new
      · exact kept next old
      · rw [List.mem_singleton.mp new]
        exact unchanged

/-! ## Stores that mirror accesses -/

/-- A store with one entry for each latest record, and no others. -/
structure Store.Mirrors (store : Store) (accesses : List Access) : Prop where
  present : ∀ (view : View) key record, IsLatest accesses (view.fullPath key) record →
    ∃ bs, record.encode = .ok bs ∧
      Table.get? store (view.rawKey key record.version) = some bs
  absent : ∀ (view : View) key version,
    (∀ record : Record, record.version = version →
      ¬ IsLatest accesses (view.fullPath key) record) →
    Table.get? store (view.rawKey key version) = none

namespace Store.Mirrors

variable {store next : Store}

theorem nil : Mirrors [] [] where
  present := fun _ _ _ latest => absurd latest not_isLatest_nil
  absent := fun _ _ _ _ => rfl

/-- A place that the access does not change mirrors what it mirrored before. -/
theorem of_unchanged (h : store.Mirrors accesses)
    (kept : ∀ (view : View) key version, ¬ access.Changes (view.fullPath key) version →
      Table.get? next (view.rawKey key version) = Table.get? store (view.rawKey key version))
    (written : ∀ (view : View) key record, access.Writes (view.fullPath key) record →
      ∃ bs, record.encode = .ok bs ∧ Table.get? next (view.rawKey key record.version) = some bs)
    (erased : ∀ (view : View) key version, access.Changes (view.fullPath key) version →
      (∀ record : Record, record.version = version → ¬ access.Writes (view.fullPath key) record) →
      Table.get? next (view.rawKey key version) = none) :
    next.Mirrors (accesses ++ [access]) where
  present := by
    intro view key record latest
    rcases isLatest_append_iff.mp latest with writes | ⟨unchanged, before⟩
    · exact written view key record writes
    · rw [kept view key record.version unchanged]
      exact h.present view key record before
  absent := by
    intro view key version none
    by_cases changes : access.Changes (view.fullPath key) version
    · refine erased view key version changes fun record same writes => ?_
      exact none record same (isLatest_append_iff.mpr (.inl writes))
    · rw [kept view key version changes]
      refine h.absent view key version fun record same latest => none record same ?_
      exact isLatest_append_iff.mpr (.inr ⟨same ▸ changes, latest⟩)

theorem apply (h : store.Mirrors accesses) (writable : access.IsWritable) :
    ∃ next, access.apply store = .ok next ∧ next.Mirrors (accesses ++ [access]) := by
  cases access with
  | set v now k version data =>
    obtain ⟨next, done⟩ := View.set_ok v store k data writable.2 writable.1
    obtain ⟨bs, encoded, rfl⟩ := View.set_eq_ok done
    refine ⟨_, done, h.of_unchanged (fun view key n apart => ?_) (fun view key record writes => ?_)
      (fun view key n changes silent => ?_)⟩
    · refine Table.get?_set_of_ne _ _ fun same => apart ?_
      exact View.rawKey_eq_iff.mp same
    · obtain ⟨same, rfl⟩ := writes
      rw [View.rawKey_eq_iff.mpr ⟨same.symm, rfl⟩]
      exact ⟨bs, encoded, Table.get?_set_self ..⟩
    · exact absurd ⟨changes.1, rfl⟩ (silent ⟨version, now, data⟩ changes.2)
  | get v k version =>
    exact ⟨store, rfl, h.of_unchanged (fun _ _ _ _ => rfl) (fun _ _ _ writes => writes.elim)
      (fun _ _ _ changes => changes.elim)⟩
  | delete v k version =>
    refine ⟨_, rfl, h.of_unchanged (fun view key n apart => ?_) (fun _ _ _ writes => writes.elim)
      (fun view key n changes _ => ?_)⟩
    · rw [View.delete, Table.get?_erase, if_neg (fun same => apart (View.rawKey_eq_iff.mp same))]
    · rw [View.delete, Table.get?_erase, if_pos (View.rawKey_eq_iff.mpr changes)]

/-- A view reads the latest record, and says that there is none where there is none. -/
theorem get_iff (h : store.Mirrors accesses) (view : View) (key : Text) (version : Int) :
    (∀ record, view.get store key version = .ok record ↔
      record.version = version ∧ IsLatest accesses (view.fullPath key) record) ∧
    ((∀ record : Record, record.version = version →
        ¬ IsLatest accesses (view.fullPath key) record) →
      view.get store key version = .error (.absent (view.rawKey key version))) := by
  have found : ∀ record : Record, record.version = version →
      IsLatest accesses (view.fullPath key) record → view.get store key version = .ok record := by
    rintro record rfl latest
    obtain ⟨bs, encoded, entry⟩ := h.present view key record latest
    exact View.get_of_encoded encoded rfl entry
  have missing : (∀ record : Record, record.version = version →
      ¬ IsLatest accesses (view.fullPath key) record) →
      view.get store key version = .error (.absent (view.rawKey key version)) :=
    fun none => View.get_of_absent (h.absent view key version none)
  refine ⟨fun record => ⟨fun read => ?_, fun latest => found record latest.1 latest.2⟩, missing⟩
  -- Were there no latest record nothing would have been read; what is read is that record.
  by_cases latest : ∃ r : Record, r.version = version ∧ IsLatest accesses (view.fullPath key) r
  · obtain ⟨r, same, isLatest⟩ := latest
    rw [found r same isLatest, Except.ok.injEq] at read
    exact read ▸ ⟨same, isLatest⟩
  · rw [missing fun r same isLatest => latest ⟨r, same, isLatest⟩] at read
    cases read

end Store.Mirrors

/-- Whatever is done first, the accesses lead to a store that mirrors them. -/
theorem Store.mirrors_after (writable : ∀ access ∈ accesses, access.IsWritable) :
    ∃ store, Store.after [] accesses = .ok store ∧ store.Mirrors accesses := by
  induction accesses using List.reverseRecOn with
  | nil => exact ⟨[], rfl, .nil⟩
  | append_singleton accesses access ih =>
    obtain ⟨store, done, mirrors⟩ := ih fun a ha => writable a (by simp [ha])
    obtain ⟨next, step, mirrors'⟩ := mirrors.apply (writable access (by simp))
    refine ⟨next, ?_, mirrors'⟩
    rw [Store.after] at done ⊢
    rw [List.foldlM_append, done]
    show List.foldlM Access.apply store [access] = .ok next
    rw [List.foldlM_cons, step]
    rfl

/-! ## Views over one store -/

/-- No access fails, and after all of them each view reads the latest record under the full path and
the version, if there is one, and else finds the key absent. Places are shared by equal full paths
and versions only, and so by no two views below `root` whose chains part ways. -/
theorem store_is_map (root : View) (writable : ∀ access ∈ accesses, access.IsWritable) :
    (∃ store, Store.after [] accesses = .ok store ∧ ∀ (view : View) key version,
      (∀ record, view.get store key version = .ok record ↔
        record.version = version ∧ IsLatest accesses (view.fullPath key) record) ∧
      ((∀ record : Record, record.version = version →
          ¬ IsLatest accesses (view.fullPath key) record) →
        view.get store key version = .error (.absent (view.rawKey key version)))) ∧
    (∀ (view view' : View) key key' version version',
      view.rawKey key version = view'.rawKey key' version' ↔
        view.fullPath key = view'.fullPath key' ∧ version = version') ∧
    ∀ names names' view view', root.descend names = .ok view → root.descend names' = .ok view' →
      view.path = root.path ++ names.flatMap (· ++ [CodePoint.ofChar '/']) ∧
      (¬ names <+: names' → ¬ names' <+: names → ∀ key key' version version',
        view.rawKey key version ≠ view'.rawKey key' version') := by
  obtain ⟨store, done, mirrors⟩ := Store.mirrors_after writable
  refine ⟨⟨store, done, fun view key version => mirrors.get_iff view key version⟩,
    fun _ _ _ _ _ _ => View.rawKey_eq_iff, fun names names' view view' h h' => ?_⟩
  exact ⟨View.path_descend h, View.rawKey_ne_of_apart h h'⟩

def View.left : View := { View.shallow with path := "left/" }

def View.right : View := { View.shallow with path := "right/" }

/-- One key, written through the view above and then through its own view, and another version of it
that comes and goes. -/
def overwritten : List Access :=
  [.set View.shallow 5 "left/key" 0 [1], .set View.left 7 "key" 0 [0, 255], .get View.right "key" 0,
   .set View.left 9 "key" (-1) [2], .delete View.left "key" (-1)]

theorem store_is_map_overwritten :
    (∀ access ∈ overwritten, access.IsWritable) ∧
    (∃ store, Store.after [] overwritten = .ok store ∧
      View.shallow.get store "left/key" 0 = .ok ⟨0, 7, [0, 255]⟩ ∧
      View.left.get store "key" (-1) = .error (.absent "left/key_v-1")) ∧
    ∀ key key' version version',
      View.left.rawKey key version ≠ View.right.rawKey key' version' := by
  have small : ∀ n : Int, 0 ≤ n → n < 10 → Integer.isWritable n = true := fun n nonneg below =>
    Integer.isWritable_of_lt nonneg (by omega)
  have minusOne : Integer.isWritable (-1) = true := Integer.isWritable_iff.mpr
    (Integer.isWritable_iff.mp (small 1 (by decide) (by decide)))
  have writable : ∀ access ∈ overwritten, access.IsWritable := by
    simp only [overwritten, List.forall_mem_cons, Access.IsWritable]
    exact ⟨⟨small 5 (by decide) (by decide), small 0 (by decide) (by decide)⟩,
      ⟨small 7 (by decide) (by decide), small 0 (by decide) (by decide)⟩, trivial,
      ⟨small 9 (by decide) (by decide), minusOne⟩, trivial, fun _ none => nomatch none⟩
  obtain ⟨⟨store, done, reads⟩, _, apart⟩ := store_is_map View.shallow writable
  refine ⟨writable, ⟨store, done, ?_, ?_⟩, ?_⟩
  · refine ((reads View.shallow "left/key" 0).1 _).mpr ⟨rfl, [_], _, _, rfl, ⟨rfl, rfl⟩, ?_⟩
    simp [Access.Changes]
  · refine (reads View.left "key" (-1)).2 fun record version latest => ?_
    -- The deletion is the last access, and nothing is the latest there that it changes.
    have split : overwritten = overwritten.dropLast ++ [.delete View.left "key" (-1)] := rfl
    rw [split, isLatest_append_iff] at latest
    rcases latest with writes | ⟨unchanged, _⟩
    · exact writes
    · exact unchanged ⟨rfl, version.symm⟩
  · exact (apart ["left"] ["right"] _ _ rfl rfl).2 (by decide) (by decide)

end PartRelay
