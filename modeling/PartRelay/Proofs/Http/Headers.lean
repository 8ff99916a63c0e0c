import PartRelay.Proofs.Http.Runs
import PartRelay.Proofs.Text.Fields
import PartRelay.Proofs.Text.Numerals

/-!
# A body with its length in a header

A post whose only header tells the length of its body is received whole: the header is read back as
it was written, and the body starts behind the empty line.
-/

namespace PartRelay.Http

/-! ## One line of headers -/

section Line

variable {line : Text} (plain : ∀ c ∈ line, c ≠ CodePoint.ofChar '\n' ∧ c ≠ CodePoint.ofChar '\r')

include plain

/-- Inside a line no empty line is found. -/
theorem cutAtEmptyLine_inside (t done : Text) :
    cutAtEmptyLine (line ++ lineEnd ++ t) false done
      = cutAtEmptyLine t true ((line ++ lineEnd).reverse ++ done) := by
  induction line generalizing done with
  | nil => simp [lineEnd, Text.ofString, cutAtEmptyLine]
  | cons c line ih =>
    have here := plain c List.mem_cons_self
    have rest := ih (fun d hd => plain d (List.mem_cons_of_mem _ hd)) (c :: done)
    rw [List.cons_append, List.cons_append, cutAtEmptyLine, decide_eq_false here.1]
    simpa using rest

theorem cutAtEmptyLine_line (nonempty : line ≠ []) :
    cutAtEmptyLine (line ++ lineEnd ++ lineEnd) true [] = (line ++ lineEnd, []) := by
  cases line with
  | nil => exact absurd rfl nonempty
  | cons c line =>
    have here := plain c List.mem_cons_self
    have rest := cutAtEmptyLine_inside (fun d hd => plain d (List.mem_cons_of_mem _ hd)) lineEnd [c]
    rw [List.cons_append, List.cons_append, cutAtEmptyLine, decide_eq_false here.1,
      decide_eq_false here.2]
    simp only [Bool.and_false, Bool.false_and, Bool.false_eq_true, if_false, rest]
    simp [lineEnd, Text.ofString, cutAtEmptyLine]

theorem linesWithEnds_line (before : Text) :
    linesWithEnds (line ++ lineEnd) before = [before.reverse ++ line ++ lineEnd] := by
  induction line generalizing before with
  | nil => simp [lineEnd, Text.ofString, linesWithEnds]
  | cons c line ih =>
    have here := plain c List.mem_cons_self
    have rest := ih (fun d hd => plain d (List.mem_cons_of_mem _ hd)) (c :: before)
    rw [List.cons_append, linesWithEnds, decide_eq_false here.1, decide_eq_false here.2]
    simpa using rest

end Line

/-! ## The length of a body -/

/-- The header that tells the length of a body. -/
def lengthHeader (n : Nat) : Header := ("Content-Length", Text.ofNat n)

/-- Its line. -/
def lengthLine (n : Nat) : Text := "Content-Length: " ++ Text.ofNat n

theorem lengthLine_plain (n : Nat) :
    ∀ c ∈ lengthLine n, c ≠ CodePoint.ofChar '\n' ∧ c ≠ CodePoint.ofChar '\r' := by
  intro c hc
  rcases List.mem_append.mp hc with name | value
  · have all : ∀ c ∈ Text.ofString "Content-Length: ",
        c ≠ CodePoint.ofChar '\n' ∧ c ≠ CodePoint.ofChar '\r' := by decide
    exact all c name
  · have digit := Text.isDigit_of_mem_ofNat value
    exact ⟨CodePoint.ne_of_isDigit digit (by decide), CodePoint.ne_of_isDigit digit (by decide)⟩

/-- The blank before the number is not part of the value. -/
theorem dropWhile_isMargin_ofNat (n : Nat) (t : Text) :
    (CodePoint.ofChar ' ' :: (Text.ofNat n ++ t)).dropWhile isMargin = Text.ofNat n ++ t := by
  obtain ⟨c, rest, eq, digit⟩ := Text.ofNat_eq_cons n
  have digitStays : isMargin c = false := by
    simp [isMargin, CodePoint.ne_of_isDigit digit (d := .ofChar ' ') (by decide),
      CodePoint.ne_of_isDigit digit (d := .ofChar '\t') (by decide)]
  have blankGoes : isMargin (CodePoint.ofChar ' ') = true := rfl
  rw [eq, List.cons_append, List.dropWhile_cons_of_pos blankGoes, List.dropWhile_cons_of_neg]
  rw [digitStays]
  exact Bool.false_ne_true

/-- Neither is the line end behind it. -/
theorem finished_ofNat (name : Text) (n : Nat) :
    finished (some (name, Text.ofNat n ++ lineEnd)) = [(name, Text.ofNat n)] := by
  have last : ∀ c ∈ Text.ofNat n, (decide (c = CodePoint.ofChar '\r') ||
      decide (c = CodePoint.ofChar '\n')) = false := by
    intro c hc
    have digit := Text.isDigit_of_mem_ofNat hc
    rw [decide_eq_false (CodePoint.ne_of_isDigit digit (by decide)),
      decide_eq_false (CodePoint.ne_of_isDigit digit (by decide))]
    rfl
  have stays : ((Text.ofNat n).reverse.dropWhile fun (c : CodePoint) => c = '\r' || c = '\n')
      = (Text.ofNat n).reverse := by
    cases reversed : (Text.ofNat n).reverse with
    | nil => rfl
    | cons c rest =>
      have among : c ∈ Text.ofNat n :=
        List.mem_reverse.mp (reversed ▸ List.mem_cons_self)
      rw [List.dropWhile_cons_of_neg]
      rw [last c among]
      exact Bool.false_ne_true
  simp [finished, lineEnd, Text.ofString, stays]

theorem readHeaders_lengthLine (n : Nat) :
    readHeaders (lengthLine n ++ lineEnd) = [lengthHeader n] := by
  have cut : (lengthLine n ++ lineEnd).cutFirst? ':'
      = some (Text.ofString "Content-Length", CodePoint.ofChar ' ' :: (Text.ofNat n ++ lineEnd)) :=
    rfl
  have header : isHeaderLine (lengthLine n ++ lineEnd) = true := rfl
  have new : (lengthLine n ++ lineEnd).head?.any isMargin = false := rfl
  have noEnvelope : (lengthLine n ++ lineEnd).startsWith envelopeStart = false := rfl
  rw [readHeaders, linesWithEnds_line (lengthLine_plain n), List.reverse_nil, List.nil_append,
    List.takeWhile_cons_of_pos header, List.takeWhile_nil, readLines, new, noEnvelope, cut]
  show finished none ++ finished (some (_, List.dropWhile isMargin _)) = _
  rw [dropWhile_isMargin_ofNat, finished_ofNat]
  rfl

/-! ## Posts -/

/-- A request that posts a body to the route for parts. -/
def Request.posting (body : Bytes) : Request where
  method := "POST"
  target := "/api/parts"
  headers := [lengthHeader body.length]
  body

/-- The head of such a request is one line, and nothing but the body follows it. -/
theorem cut_posting (body : Bytes) :
    (Request.posting body).cut = (lengthLine body.length ++ lineEnd, []) := by
  have written : writeHeaders [lengthHeader body.length]
      = lengthLine body.length ++ lineEnd ++ lineEnd := by
    simp [writeHeaders, lengthHeader, lengthLine, Text.join, Text.ofString]
  have nonempty : lengthLine body.length ≠ [] := List.cons_ne_nil _ _
  rw [← cutAtEmptyLine_line (lengthLine_plain _) nonempty, ← written]
  rfl

theorem received_posting (body : Bytes) :
    (Request.posting body).received = ⟨[lengthHeader body.length], body⟩ := by
  rw [Request.received, cut_posting]
  simp only [readHeaders_lengthLine, List.map_nil, List.nil_append]
  rfl

/-- The line that tells a length is a short one. -/
theorem fault?_posting {body : Bytes} (bound : (body.length : Int) < Memory.lengthLimit) :
    (Request.posting body).fault? = none := by
  have start : ¬ (Request.posting body).line.length > lineLimit :=
    show ¬ (Request.posting []).line.length > lineLimit by decide
  have digits : (Text.ofNat body.length).length ≤ 20 := by
    refine (Text.length_ofNat_le_iff (by decide)).mpr (Int.ofNat_lt.mp (Int.lt_trans bound ?_))
    decide
  have feed : CodePoint.ofChar '\n' ∉ lengthLine body.length ++ [CodePoint.ofChar '\r'] := by
    rw [List.mem_append, List.mem_singleton]
    rintro (inside | last)
    · exact (lengthLine_plain _ _ inside).1 rfl
    · exact absurd last (by decide)
  have lines : Text.splitOn '\n' (lengthLine body.length ++ lineEnd)
      = [lengthLine body.length ++ [CodePoint.ofChar '\r'], []] := by
    rw [← Text.splitOn_append_singleton feed, List.append_assoc]
    rfl
  have short : (lengthLine body.length).length + 1 + 1 ≤ lineLimit := by
    have name : (Text.ofString "Content-Length: ").length = 16 := rfl
    rw [lengthLine, List.length_append, name, lineLimit]
    omega
  have line : ¬ (lengthLine body.length ++ [CodePoint.ofChar '\r']).length + 1 > lineLimit := by
    rw [List.length_append, List.length_singleton]
    exact Nat.not_lt.mpr short
  rw [Request.fault?, if_neg start, cut_posting, headFault?, lines]
  simp only [List.dropLast_cons_cons, List.dropLast_singleton, List.take_succ_cons, List.take_nil,
    List.any_cons, List.any_nil, decide_eq_false line, Bool.or_false, Bool.false_eq_true, if_false,
    List.length_singleton, countLimit, Nat.reduceAdd, Nat.reduceGT, Option.map_none]

theorem declaredLength_lengthHeader {n : Nat} (h : (n : Int) < Memory.lengthLimit) :
    declaredLength [lengthHeader n] = .ok n := by
  have found : header? [lengthHeader n] "content-length" = some (Text.ofNat n) := by
    have lower : Text.lower "Content-Length" = Text.ofString "content-length" := by decide
    simp [header?, lengthHeader, lower]
  have number : Text.ofInt n = Text.ofNat n := by
    rw [Text.ofInt, if_neg (by omega), Int.natAbs_natCast]
  have writable : Integer.isWritable n = true :=
    Integer.isWritable_of_lt (by omega) (Int.lt_trans h (by decide))
  obtain ⟨c, rest, eq, _⟩ := Text.ofNat_eq_cons n
  rw [declaredLength, found, eq]
  show Integer.read (c :: rest) = _
  rw [← eq, ← number, Integer.read_ofInt writable]

/-- What can be asked for is a length. -/
theorem Source.lt_of_grants {source : Source} {count : Int} (h : source.grants count = true) :
    count < Memory.lengthLimit := by
  cases source with
  | connection memory =>
    have room : count ≤ memory.size := Memory.grants_iff.mp h
    exact Int.lt_of_le_of_lt room (Int.lt_trans memory.size_lt (by decide))
  | atHand => exact of_decide_eq_true h

/-- A request that brings a body to the route for parts whole. -/
structure Server.Takes (server : Server) (q : Request) (body : Bytes) : Prop where
  asks : server.Asks q body.length
  granted : server.source.grants body.length = true
  whole : q.taken body.length = body

/-- A body within the limits of a server can be posted to it. -/
theorem takes_posting {server : Server} {body : Bytes} (fits : body.length ≤ server.maxBodyBytes)
    (granted : server.source.grants body.length = true) : server.Takes (.posting body) body where
  asks :=
    { framed := fault?_posting (Source.lt_of_grants granted)
      method := rfl
      routed := rfl
      declared := by
        rw [received_posting]
        exact declaredLength_lengthHeader (Source.lt_of_grants granted)
      fits }
  granted
  whole := by
    rw [Request.taken, received_posting, Int.toNat_natCast]
    exact List.take_length

end PartRelay.Http
