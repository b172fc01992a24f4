import TellyDB.Resp.Parsing

/-!
Owns the bytes the stages of a RESP array took: its count and its lengths as they
were written, beside its strings. A literal is read twice: as the number it denotes,
and as the number of 32 bits that the loops of the parsers make of it.
-/

namespace TellyDB.Resp

/-! ## Literals -/

/-- The digits of a count or of a length. -/
structure IsLiteral (literal : Bytes) : Prop where
  nonempty : literal ≠ []
  digits : ∀ byte ∈ literal, isDigitByte byte = true

/-- The number a literal denotes. -/
def literalValue (literal : Bytes) : Nat :=
  literal.foldl (fun value byte => value * 10 + (byte.toNat - 0x30)) 0

/-- The number the loops of the parsers make of a literal. -/
def parsedNumber (literal : Bytes) : Nat := literal.foldl addDigit 0

theorem parsedNumber_eq (literal : Bytes) :
    parsedNumber literal = literalValue literal % UInt32.size := by
  have same : ∀ value, literal.foldl addDigit (value % UInt32.size) =
      literal.foldl (fun value byte => value * 10 + (byte.toNat - 0x30)) value % UInt32.size := by
    induction literal with
    | nil => exact fun _ => rfl
    | cons byte rest inductionHypothesis =>
        intro value
        rw [List.foldl_cons, List.foldl_cons, ← inductionHypothesis, addDigit]
        congr 1
        rw [Nat.add_mod, Nat.mul_mod, Nat.mod_mod, ← Nat.mul_mod, ← Nat.add_mod]
  exact same 0

theorem parsedNumber_lt (literal : Bytes) : parsedNumber literal < UInt32.size := by
  rw [parsedNumber_eq]
  exact Nat.mod_lt _ (by decide)

theorem IsLiteral.first {byte : UInt8} (digit : isDigitByte byte = true) : IsLiteral [byte] := by
  refine ⟨List.cons_ne_nil _ _, fun other member => ?_⟩
  rw [List.mem_singleton.mp member]
  exact digit

theorem IsLiteral.more {literal : Bytes} {byte : UInt8} (isLiteral : IsLiteral literal)
    (digit : isDigitByte byte = true) : IsLiteral (literal ++ [byte]) := by
  refine ⟨List.append_ne_nil_of_left_ne_nil isLiteral.nonempty _, fun other member => ?_⟩
  rcases List.mem_append.mp member with before | last
  · exact isLiteral.digits other before
  · rw [List.mem_singleton.mp last]
    exact digit

theorem parsedNumber_more (literal : Bytes) (byte : UInt8) :
    parsedNumber (literal ++ [byte]) = addDigit (parsedNumber literal) byte := by
  rw [parsedNumber, List.foldl_append]
  rfl

theorem literalValue_more (literal : Bytes) (byte : UInt8) :
    literalValue (literal ++ [byte]) = literalValue literal * 10 + (byte.toNat - 0x30) := by
  rw [literalValue, List.foldl_append]
  rfl

theorem isLiteral_decimal (value : Nat) : IsLiteral (decimal value) :=
  ⟨decimal_ne_nil value, decimal_digits value⟩

/-- The text of a number denotes it. -/
theorem literalValue_decimal (value : Nat) : literalValue (decimal value) = value := by
  have digit : ∀ remainder < 10, (digitByte remainder).toNat - 0x30 = remainder := by decide
  induction value using Nat.strongRecOn with
  | ind value inductionHypothesis =>
      rcases Nat.lt_or_ge value 10 with small | large
      · rw [decimal_small small, literalValue, List.foldl_cons, List.foldl_nil, digit value small]
        omega
      · rw [decimal_large large, literalValue_more, inductionHypothesis (value / 10) (by omega),
          digit _ (Nat.mod_lt _ (by decide))]
        omega

/-- A literal ends where its CR is. -/
theorem IsLiteral.ends {first second firstRest secondRest : Bytes} (isFirst : IsLiteral first)
    (isSecond : IsLiteral second) (same : first ++ 0x0d :: firstRest = second ++ 0x0d :: secondRest) :
    first = second ∧ firstRest = secondRest := by
  have digits : ∀ first second : Bytes, (∀ byte ∈ first, isDigitByte byte = true) →
      (∀ byte ∈ second, isDigitByte byte = true) →
      first ++ 0x0d :: firstRest = second ++ 0x0d :: secondRest →
      first = second ∧ firstRest = secondRest := by
    intro first
    have noDigit : ∀ {byte : UInt8}, isDigitByte byte = true → byte ≠ 0x0d := by
      rintro _ digit rfl
      revert digit
      decide
    induction first with
    | nil =>
        intro second _ digits same
        cases second with
        | nil => exact ⟨rfl, (List.cons.inj same).2⟩
        | cons byte rest =>
            exact absurd (List.cons.inj same).1.symm
              (noDigit (digits byte (List.mem_cons_self ..)))
    | cons byte rest inductionHypothesis =>
        intro second digitsFirst digits same
        cases second with
        | nil =>
            exact absurd (List.cons.inj same).1
              (noDigit (digitsFirst byte (List.mem_cons_self ..)))
        | cons other others =>
            obtain ⟨rfl, sameRest⟩ := List.cons.inj same
            obtain ⟨rfl, ended⟩ := inductionHypothesis others
              (fun byte member => digitsFirst byte (List.mem_cons_of_mem _ member))
              (fun byte member => digits byte (List.mem_cons_of_mem _ member)) sameRest
            exact ⟨rfl, ended⟩
  exact digits first second isFirst.digits isSecond.digits same

/-- An array with these elements. -/
def respArray (elements : List Bytes) : Bytes :=
  text "*" ++ decimal elements.length ++ crlf ++ elements.flatten

/-! ## Frames -/

/-- A bulk string, with its length as it was written. -/
structure Written where
  literal : Bytes
  string : Bytes

def Written.bytes (written : Written) : Bytes :=
  0x24 :: (written.literal ++ 0x0d :: 0x0a :: (written.string ++ crlf))

/-- An array of bulk strings, with its count as it was written. -/
structure Frame where
  count : Bytes
  strings : List Written

namespace Frame

def bytes (frame : Frame) : Bytes :=
  0x2a :: (frame.count ++ 0x0d :: 0x0a :: frame.strings.flatMap Written.bytes)

def literals (frame : Frame) : List Bytes := frame.count :: frame.strings.map Written.literal

/-- The literals, read by `number`, are `total` and the lengths of the strings. -/
structure Counts (number : Bytes → Nat) (frame : Frame) (total : Nat) : Prop where
  literals : ∀ literal ∈ frame.literals, IsLiteral literal
  count : number frame.count = total
  lengths : ∀ written ∈ frame.strings, number written.literal = written.string.length

/-- A frame with one more string. -/
def push (frame : Frame) (written : Written) : Frame :=
  { frame with strings := frame.strings ++ [written] }

theorem bytes_push (frame : Frame) (written : Written) :
    (frame.push written).bytes = frame.bytes ++ written.bytes := by
  simp [bytes, push]

theorem Counts.push {number : Bytes → Nat} {frame : Frame} {total : Nat} {written : Written}
    (counts : frame.Counts number total) (isLiteral : IsLiteral written.literal)
    (length : number written.literal = written.string.length) :
    (frame.push written).Counts number total where
  literals literal member := by
    rw [Frame.literals, Frame.push, List.map_append, ← List.cons_append] at member
    rcases List.mem_append.mp member with before | last
    · exact counts.literals literal before
    · rw [List.mem_singleton.mp last]
      exact isLiteral
  count := counts.count
  lengths other member := by
    rcases List.mem_append.mp member with before | last
    · exact counts.lengths other before
    · rw [List.mem_singleton.mp last]
      exact length

/-- The literals of 32 bits are read as the numbers they denote. -/
theorem Counts.iff {frame : Frame} {total : Nat} (counts : frame.Counts parsedNumber total) :
    frame.Counts literalValue total ↔
      ∀ literal ∈ frame.literals, literalValue literal < UInt32.size := by
  constructor
  · intro exact_ literal member
    rcases List.mem_cons.mp member with rfl | inStrings
    · rw [exact_.count, ← counts.count]
      exact parsedNumber_lt _
    · obtain ⟨written, inside, rfl⟩ := List.mem_map.mp inStrings
      rw [exact_.lengths written inside, ← counts.lengths written inside]
      exact parsedNumber_lt _
  · intro small
    have same : ∀ literal ∈ frame.literals, literalValue literal = parsedNumber literal := by
      intro literal member
      rw [parsedNumber_eq, Nat.mod_eq_of_lt (small literal member)]
    refine ⟨counts.literals, ?_, fun written member => ?_⟩
    · rw [same _ (List.mem_cons_self ..)]
      exact counts.count
    · rw [same _ (List.mem_cons_of_mem _ (List.mem_map_of_mem member))]
      exact counts.lengths written member

theorem strings_unique {first second : List Written}
    (literalsFirst : ∀ written ∈ first, IsLiteral written.literal)
    (literalsSecond : ∀ written ∈ second, IsLiteral written.literal)
    (strings : first.map Written.string = second.map Written.string)
    (bytes : first.flatMap Written.bytes = second.flatMap Written.bytes) : first = second := by
  induction first generalizing second with
  | nil => exact (List.map_eq_nil_iff.mp strings.symm).symm
  | cons written rest inductionHypothesis =>
      cases second with
      | nil => cases strings
      | cons other others =>
          obtain ⟨string, sameStrings⟩ := List.cons.inj strings
          simp only [List.flatMap_cons, Written.bytes, List.cons_append, List.append_assoc] at bytes
          obtain ⟨literal, behind⟩ := (literalsFirst written (List.mem_cons_self ..)).ends
            (literalsSecond other (List.mem_cons_self ..)) (List.cons.inj bytes).2
          rw [string] at behind
          have sameBytes := List.append_cancel_left
            (List.append_cancel_left (List.cons.inj behind).2)
          have later := inductionHypothesis
            (fun written member => literalsFirst written (List.mem_cons_of_mem _ member))
            (fun written member => literalsSecond written (List.mem_cons_of_mem _ member))
            sameStrings sameBytes
          rw [later]
          congr 1
          cases written
          cases other
          cases literal
          cases string
          rfl

/-- Bytes are the frame of given strings in one way at most. -/
theorem unique {first second : Frame} (literalsFirst : ∀ literal ∈ first.literals, IsLiteral literal)
    (literalsSecond : ∀ literal ∈ second.literals, IsLiteral literal)
    (strings : first.strings.map Written.string = second.strings.map Written.string)
    (bytes : first.bytes = second.bytes) : first = second := by
  obtain ⟨count, behind⟩ := (literalsFirst _ (List.mem_cons_self ..)).ends
    (literalsSecond _ (List.mem_cons_self ..)) (List.cons.inj bytes).2
  have same := strings_unique
    (fun written member => literalsFirst _ (List.mem_cons_of_mem _ (List.mem_map_of_mem member)))
    (fun written member => literalsSecond _ (List.mem_cons_of_mem _ (List.mem_map_of_mem member)))
    strings (List.cons.inj behind).2
  cases first
  cases second
  cases count
  cases same
  rfl

end Frame

/-- The bytes are a frame of the strings, with a count and lengths that `number` reads as
theirs. -/
def Declares (number : Bytes → Nat) (strings : List Bytes) (bytes : Bytes) : Prop :=
  ∃ frame : Frame, frame.bytes = bytes ∧ frame.strings.map Written.string = strings ∧
    frame.Counts number strings.length

/-- What the parsers accept declares its strings when all its literals are of 32 bits. -/
theorem declares_iff {frame : Frame} {strings : List Bytes}
    (same : frame.strings.map Written.string = strings)
    (counts : frame.Counts parsedNumber strings.length) :
    Declares literalValue strings frame.bytes ↔
      ∀ literal ∈ frame.literals, literalValue literal < UInt32.size := by
  rw [← counts.iff]
  constructor
  · rintro ⟨other, bytes, otherStrings, exact_⟩
    have unique := Frame.unique exact_.literals counts.literals (otherStrings.trans same.symm) bytes
    rw [← unique]
    exact exact_
  · exact fun exact_ => ⟨frame, rfl, same, exact_⟩

/-! ## What the stages took -/

/-- The bulk strings that are done, where `read` gives the bytes of a range, and those to do
are the ones the count promised. -/
structure Opened (read : Range → Bytes) (frame : Frame) (todo : Nat) (done : List Range) : Prop where
  undone : todo ≠ 0
  strings : frame.strings.map Written.string = done.map read
  counts : frame.Counts parsedNumber (todo + done.length)

/-- The `$` and the length of the string to do are behind those that are done. -/
def Measured (read : Range → Bytes) (took : Bytes) (todo : Nat) (done : List Range) (length : Nat)
    (behind : Bytes) : Prop :=
  ∃ frame literal, Opened read frame todo done ∧ IsLiteral literal ∧
    parsedNumber literal = length ∧ took = frame.bytes ++ 0x24 :: (literal ++ behind)

/-- The bytes a stage has behind it, from the `*` on. -/
def Stage.Took (read : Range → Bytes) (took : Bytes) : Stage → Prop
  | .count none => took = [0x2a]
  | .count (some value) =>
      ∃ literal, IsLiteral literal ∧ parsedNumber literal = value ∧ took = 0x2a :: literal
  | .countLf value =>
      ∃ literal, IsLiteral literal ∧ parsedNumber literal = value ∧
        took = 0x2a :: (literal ++ [0x0d])
  | .bulkType todo done => ∃ frame, Opened read frame todo done ∧ took = frame.bytes
  | .bulkLength todo done none =>
      ∃ frame, Opened read frame todo done ∧ took = frame.bytes ++ [0x24]
  | .bulkLength todo done (some value) => Measured read took todo done value []
  | .bulkLf todo done length => Measured read took todo done length [0x0d]
  | .bulkData todo done length => Measured read took todo done length crlf
  | .bulkEnd todo done =>
      ∃ before range, done = before ++ [range] ∧
        Measured read took todo before (read range).length (crlf ++ read range)
  | _ => False

/-- The bytes a parser took, once a stage made something of them. -/
def Parsed.Took (read : Range → Bytes) (took : Bytes) : Parsed → Prop
  | .more stage => stage.Took read took
  | .command name args inline =>
      inline = false ∧ ∃ frame : Frame, frame.bytes = took ∧
        frame.strings.map Written.string = (name :: args).map read ∧
        frame.Counts parsedNumber (name :: args).length
  | .failed => True
  | .overflow => False

section Stages

variable {read : Range → Bytes} {took : Bytes} {todo length : Nat} {done : List Range}

/-- A digit, or the CR behind the digits. -/
theorem digitOrCr_took (front : Bytes) {value : Option Nat} {byte : UInt8}
    {digit cr : Nat → Parsed}
    (literal : (value = none ∧ took = front) ∨
      ∃ literal, IsLiteral literal ∧ value = some (parsedNumber literal) ∧ took = front ++ literal)
    (digits : ∀ literal, IsLiteral literal →
      (digit (parsedNumber literal)).Took read (front ++ literal))
    (ends : ∀ literal, IsLiteral literal →
      (cr (parsedNumber literal)).Took read (front ++ literal ++ [0x0d])) :
    (digitOrCr value byte digit cr).Took read (took ++ [byte]) := by
  rcases literal with ⟨rfl, rfl⟩ | ⟨literal, isLiteral, rfl, rfl⟩
  · rw [digitOrCr]
    split
    · rename_i isDigit
      exact digits [byte] (.first isDigit)
    · trivial
  · rw [digitOrCr]
    split
    · rename_i isDigit
      rw [← parsedNumber_more, List.append_assoc]
      exact digits _ (isLiteral.more isDigit)
    · split
      · rename_i isCr
        rw [isCr]
        exact ends literal isLiteral
      · trivial

/-- The array is opened behind its count. -/
theorem opened_count {literal : Bytes} (isLiteral : IsLiteral literal)
    (some_ : parsedNumber literal ≠ 0) :
    Opened read ⟨literal, []⟩ (parsedNumber literal) [] where
  undone := some_
  strings := rfl
  counts := {
    literals := fun other member => by
      rw [List.mem_singleton.mp member]
      exact isLiteral
    count := rfl
    lengths := fun written member => by cases member }

/-- A string is done behind its CRLF. -/
theorem measured_done {range : Range}
    (measured : Measured read took todo done (read range).length (crlf ++ read range)) :
    ∃ frame : Frame, took ++ crlf = frame.bytes ∧ todo ≠ 0 ∧
      frame.strings.map Written.string = (done ++ [range]).map read ∧
      frame.Counts parsedNumber (todo + done.length) := by
  obtain ⟨frame, literal, opened, isLiteral, number, rfl⟩ := measured
  refine ⟨frame.push ⟨literal, read range⟩, ?_, opened.undone, ?_,
    opened.counts.push isLiteral number⟩
  · rw [Frame.bytes_push, Written.bytes]
    simp [crlf]
  · rw [Frame.push, List.map_append, List.map_append, opened.strings]
    rfl

theorem bulkParsed_took {range : Range}
    (measured : Measured read took todo done (read range).length (crlf ++ read range)) :
    (bulkParsed todo (done ++ [range])).Took read (took ++ crlf) := by
  obtain ⟨frame, bytes, undone, strings, counts⟩ := measured_done measured
  have length : (done ++ [range]).length = done.length + 1 := by simp
  rw [bulkParsed.eq_def]
  split
  · rename_i last
    rw [last, Nat.add_comm, ← length] at counts
    cases ranges : done ++ [range] with
    | nil => exact absurd ranges (by simp)
    | cons name args =>
        rw [ranges] at strings counts
        exact ⟨rfl, frame, bytes.symm, strings, counts⟩
  · rename_i more
    refine ⟨frame, ⟨by omega, strings, ?_⟩, bytes⟩
    have same : todo - 1 + (done ++ [range]).length = todo + done.length := by omega
    rw [same]
    exact counts

/-- What a stage made of the byte it took. -/
theorem Stage.nextByte_took {stage : Stage} {offset position size : Nat} {byte : UInt8}
    (behind : stage.Took read took) :
    (stage.nextByte offset position size byte).Took read (took ++ [byte]) := by
  cases stage with
  | count value =>
      rw [Stage.nextByte]
      refine digitOrCr_took [0x2a] ?_ (fun literal isLiteral => ?_) fun literal isLiteral => ?_
      · cases value with
        | none => exact .inl ⟨rfl, behind⟩
        | some value =>
            obtain ⟨literal, isLiteral, rfl, rfl⟩ := behind
            exact .inr ⟨literal, isLiteral, rfl, rfl⟩
      · exact ⟨literal, isLiteral, rfl, rfl⟩
      · exact ⟨literal, isLiteral, rfl, rfl⟩
  | countLf value =>
      obtain ⟨literal, isLiteral, rfl, rfl⟩ := behind
      rw [Stage.nextByte]
      split
      · rename_i accepted
        obtain ⟨rfl, some_⟩ := accepted
        refine ⟨_, opened_count isLiteral some_, ?_⟩
        simp [Frame.bytes]
      · trivial
  | bulkType todo done =>
      obtain ⟨frame, opened, rfl⟩ := behind
      rw [Stage.nextByte]
      split
      · rename_i dollar
        rw [dollar]
        exact ⟨frame, opened, rfl⟩
      · trivial
  | bulkLength todo done value =>
      obtain ⟨frame, opened, literal⟩ : ∃ frame, Opened read frame todo done ∧
          ((value = none ∧ took = frame.bytes ++ [0x24]) ∨
            ∃ literal, IsLiteral literal ∧ value = some (parsedNumber literal) ∧
              took = frame.bytes ++ [0x24] ++ literal) := by
        cases value with
        | none =>
            obtain ⟨frame, opened, rfl⟩ := behind
            exact ⟨frame, opened, .inl ⟨rfl, rfl⟩⟩
        | some value =>
            obtain ⟨frame, literal, opened, isLiteral, rfl, rfl⟩ := behind
            exact ⟨frame, opened, .inr ⟨literal, isLiteral, rfl, by simp⟩⟩
      rw [Stage.nextByte]
      refine digitOrCr_took _ literal (fun literal isLiteral => ?_) fun literal isLiteral => ?_
      · exact ⟨frame, literal, opened, isLiteral, rfl, by simp⟩
      · exact ⟨frame, literal, opened, isLiteral, rfl, by simp⟩
  | bulkLf todo done length =>
      obtain ⟨frame, literal, opened, isLiteral, number, rfl⟩ := behind
      rw [Stage.nextByte]
      split
      · rename_i lf
        rw [lf]
        exact ⟨frame, literal, opened, isLiteral, number, by simp [crlf]⟩
      · trivial
  | bulkData | bulkEnd => trivial
  | type | leadingLf | leadingCr | inlineName | inlineNameEnd | inlineArgument | inlineRest
  | inlineArgumentEnd => exact behind.elim

/-- What a stage made of the bytes it took. -/
theorem Stage.next_took {stage : Stage} {offset position size : Nat}
    (behind : stage.Took read took)
    (length : (read ⟨offset, stage.request⟩).length = stage.request) :
    (stage.next offset position size (some (read ⟨offset, stage.request⟩))).Took read
      (took ++ read ⟨offset, stage.request⟩) := by
  have oneByte : stage.request = 1 →
      (∀ byte, stage.next offset position size (some [byte]) =
        stage.nextByte offset position size byte) →
      (stage.next offset position size (some (read ⟨offset, stage.request⟩))).Took read
        (took ++ read ⟨offset, stage.request⟩) := by
    intro one next
    obtain ⟨byte, single⟩ := List.length_eq_one_iff.mp (length.trans one)
    rw [single, next]
    exact Stage.nextByte_took behind
  cases stage with
  | bulkData todo done count =>
      obtain ⟨frame, literal, opened, isLiteral, number, rfl⟩ := behind
      refine ⟨done, ⟨offset, count⟩, rfl, frame, literal, opened, isLiteral, ?_, ?_⟩
      · rw [number]
        exact length.symm
      · simp [Stage.request]
  | bulkEnd todo done =>
      obtain ⟨before, range, rfl, measured⟩ := behind
      change (if read ⟨offset, 2⟩ = crlf then bulkParsed todo (before ++ [range])
        else .failed).Took read (took ++ read ⟨offset, 2⟩)
      split
      · rename_i ended
        rw [ended]
        exact bulkParsed_took measured
      · trivial
  | inlineNameEnd | inlineArgumentEnd => exact behind.elim
  | _ => exact oneByte rfl fun _ => rfl

end Stages

end TellyDB.Resp
