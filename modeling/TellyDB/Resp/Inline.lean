import TellyDB.Resp.Parser

/-!
Owns inline commands: lines of tokens with single spaces between them, and the ranges that
`parse_name` and `parse_arguments` cut out of the bytes in front of the place where they stop.
-/

namespace TellyDB.Resp

/-! ## Lines -/

/-- Bytes without a space, CR or LF. -/
def IsToken (token : Bytes) : Prop :=
  token ≠ [] ∧ ∀ byte ∈ token, byte ≠ 0x20 ∧ byte ≠ 0x0d ∧ byte ≠ 0x0a

instance : DecidablePred IsToken := fun _ => inferInstanceAs (Decidable (_ ∧ _))

structure InlineLine where
  name : Bytes
  args : List Bytes
  begins : name.head?.any isAlnum = true
  tokens : ∀ token ∈ name :: args, IsToken token

/-- Tokens, each behind a space. -/
def spaced (tokens : List Bytes) : Bytes := tokens.flatMap fun token => 0x20 :: token

namespace InlineLine

/-- The command of a line. -/
def command (line : InlineLine) : CommandData := (line.name, line.args)

/-- The line without its CRLF. -/
def joined (line : InlineLine) : Bytes := line.name ++ spaced line.args

def bytes (line : InlineLine) : Bytes := line.joined ++ crlf

/-- The bytes of a line are a first byte, others, and a CRLF. -/
theorem exists_bytes (line : InlineLine) :
    ∃ byte token, isAlnum byte = true ∧ line.name = byte :: token ∧
      (∀ other ∈ token, other ≠ 0x20) ∧
      line.bytes = (byte :: (token ++ spaced line.args)) ++ crlf := by
  obtain ⟨byte, token, name⟩ := List.exists_cons_of_ne_nil
    (line.tokens line.name List.mem_cons_self).1
  have begins := line.begins
  have plain := (line.tokens line.name List.mem_cons_self).2
  rw [name] at begins plain
  refine ⟨byte, token, begins, name, fun other member => ?_, ?_⟩
  · exact (plain other (List.mem_cons_of_mem _ member)).1
  · rw [InlineLine.bytes, InlineLine.joined, name]
    rfl

end InlineLine

theorem length_flatMap_bytes_pos {lines : List InlineLine} (some_ : lines ≠ []) :
    0 < (lines.flatMap InlineLine.bytes).length := by
  obtain ⟨line, rest, rfl⟩ := List.exists_cons_of_ne_nil some_
  obtain ⟨byte, token, _, _, _, bytes⟩ := line.exists_bytes
  rw [List.flatMap_cons, bytes]
  exact Nat.succ_pos _

/-- The bytes of lines start with an alphanumeric byte and end with a CRLF. -/
theorem exists_flatMap_bytes (line : InlineLine) (rest : List InlineLine) :
    ∃ byte bytes, isAlnum byte = true ∧
      (line :: rest).flatMap InlineLine.bytes = byte :: (bytes ++ crlf) := by
  induction rest generalizing line with
  | nil =>
      obtain ⟨byte, token, alnum, _, _, bytes⟩ := line.exists_bytes
      refine ⟨byte, token ++ spaced line.args, alnum, ?_⟩
      rw [List.flatMap_singleton, bytes]
      rfl
  | cons next rest inductionHypothesis =>
      obtain ⟨byte, token, alnum, _, _, bytes⟩ := line.exists_bytes
      obtain ⟨first, others, _, whole⟩ := inductionHypothesis next
      refine ⟨byte, token ++ spaced line.args ++ crlf ++ first :: others, alnum, ?_⟩
      rw [List.flatMap_cons, bytes, whole]
      simp
/-! ## Ranges -/

/-- The arguments that `parse_arguments` finds from an offset on; `current` is the one it is
in. -/
def argumentRanges : Option Range → Nat → Bytes → List Range
  | current, _, [] => current.toList
  | none, offset, byte :: rest =>
      if byte = 0x20 then ⟨offset, 1⟩ :: argumentRanges none (offset + 1) rest
      else argumentRanges (some ⟨offset, 1⟩) (offset + 1) rest
  | some argument, offset, byte :: rest =>
      if byte = 0x20 then argument :: argumentRanges none (offset + 1) rest
      else argumentRanges (some { argument with length := argument.length + 1 }) (offset + 1) rest

/-- The name that `parse_name` finds, and the arguments behind it. -/
def inlineRanges (name : Range) (offset : Nat) : Bytes → Range × List Range
  | [] => (name, [])
  | byte :: rest =>
      if byte = 0x20 then (name, argumentRanges none (offset + 1) rest)
      else inlineRanges { name with length := name.length + 1 } (offset + 1) rest

/-- Strings with one byte between them. -/
def spacedRanges : Nat → List Bytes → List Range
  | _, [] => []
  | offset, token :: rest =>
      ⟨offset, token.length⟩ :: spacedRanges (offset + token.length + 1) rest

theorem length_spacedRanges (offset : Nat) (tokens : List Bytes) :
    (spacedRanges offset tokens).length = tokens.length := by
  induction tokens generalizing offset with
  | nil => rfl
  | cons token rest inductionHypothesis =>
      rw [spacedRanges, List.length_cons, inductionHypothesis, List.length_cons]

/-- The byte behind a string. -/
def Range.behind (range : Range) : Nat := range.offset + range.length

/-! ### How many there are -/

/-- A space that is not the last byte opens an argument. -/
theorem count_dropLast_cons (byte : UInt8) {rest : Bytes} (some_ : rest ≠ []) :
    (byte :: rest).dropLast.count 0x20 =
      (if byte = 0x20 then 1 else 0) + rest.dropLast.count 0x20 := by
  rw [List.dropLast_cons_of_ne_nil some_, List.count_cons]
  simp [Nat.add_comm]

theorem length_argumentRanges (current : Option Range) (offset : Nat) (bytes : Bytes)
    (some_ : current = none → bytes ≠ []) :
    (argumentRanges current offset bytes).length = 1 + bytes.dropLast.count 0x20 := by
  induction bytes generalizing current offset with
  | nil =>
      cases current with
      | none => exact absurd rfl (some_ rfl)
      | some argument => rfl
  | cons byte rest inductionHypothesis =>
      by_cases last : rest = []
      · subst last
        cases current <;> simp only [argumentRanges] <;> split <;> rfl
      · rw [count_dropLast_cons byte last]
        have opened : ∀ offset, (argumentRanges none offset rest).length =
            1 + rest.dropLast.count 0x20 :=
          fun offset => inductionHypothesis none offset fun _ => last
        have goesOn : ∀ argument offset, (argumentRanges (some argument) offset rest).length =
            1 + rest.dropLast.count 0x20 :=
          fun argument offset => inductionHypothesis (some argument) offset nofun
        cases current <;> simp only [argumentRanges] <;> split <;> simp [opened, goesOn, Nat.add_comm]

theorem length_inlineRanges (name : Range) (offset : Nat) (bytes : Bytes) :
    (inlineRanges name offset bytes).2.length = bytes.dropLast.count 0x20 := by
  induction bytes generalizing name offset with
  | nil => rfl
  | cons byte rest inductionHypothesis =>
      by_cases last : rest = []
      · subst last
        rw [inlineRanges]
        split <;> rfl
      · rw [count_dropLast_cons byte last, inlineRanges]
        split
        · exact length_argumentRanges none _ _ fun _ => last
        · rw [inductionHypothesis, Nat.zero_add]

/-! ### Where they end -/

theorem argumentRanges_behind (current : Option Range) {offset : Nat} {bytes : Bytes}
    (before : ∀ argument, current = some argument → argument.behind = offset) :
    ∀ range ∈ argumentRanges current offset bytes, range.behind ≤ offset + bytes.length := by
  induction bytes generalizing current offset with
  | nil =>
      intro range member
      have same : current = some range := by simpa [argumentRanges] using member
      exact Nat.le_of_eq (before range same)
  | cons byte rest inductionHypothesis =>
      have later : offset + (byte :: rest).length = offset + 1 + rest.length := by
        rw [List.length_cons]
        omega
      have opened : ∀ range ∈ argumentRanges none (offset + 1) rest,
          range.behind ≤ offset + 1 + rest.length := inductionHypothesis none nofun
      have goesOn : ∀ argument : Range, argument.behind = offset + 1 →
          ∀ range ∈ argumentRanges (some argument) (offset + 1) rest,
            range.behind ≤ offset + 1 + rest.length := by
        intro argument ends
        apply inductionHypothesis
        intro other same
        rw [← Option.some.inj same, ends]
      rw [later]
      cases current with
      | none =>
          rw [argumentRanges]
          split
          · exact List.forall_mem_cons.mpr ⟨Nat.le_add_right _ _, opened⟩
          · exact goesOn _ rfl
      | some argument =>
          have ends := before argument rfl
          rw [argumentRanges]
          split
          · exact List.forall_mem_cons.mpr ⟨by omega, opened⟩
          · exact goesOn _ (congrArg Nat.succ ends)

theorem inlineRanges_behind {name : Range} {offset : Nat} {bytes : Bytes}
    (before : name.behind = offset) :
    ∀ range ∈ (inlineRanges name offset bytes).1 :: (inlineRanges name offset bytes).2,
      range.behind ≤ offset + bytes.length := by
  induction bytes generalizing name offset with
  | nil =>
      intro range member
      rw [List.mem_singleton.mp member]
      exact Nat.le_of_eq before
  | cons byte rest inductionHypothesis =>
      have later : offset + (byte :: rest).length = offset + 1 + rest.length := by
        rw [List.length_cons]
        omega
      rw [later, inlineRanges]
      split
      · have inside : name.behind ≤ offset + 1 + rest.length := by omega
        exact List.forall_mem_cons.mpr ⟨inside, argumentRanges_behind none nofun⟩
      · exact inductionHypothesis (congrArg Nat.succ before)

/-! ### The ranges of a line -/

theorem argumentRanges_append (argument : Range) (offset : Nat) {token : Bytes} (rest : Bytes)
    (unspaced : ∀ byte ∈ token, byte ≠ 0x20) :
    argumentRanges (some argument) offset (token ++ rest) =
      argumentRanges (some { argument with length := argument.length + token.length })
        (offset + token.length) rest := by
  induction token generalizing argument offset with
  | nil => rfl
  | cons byte token inductionHypothesis =>
      have longer : argument.length + (token.length + 1) = argument.length + 1 + token.length := by
        omega
      have further : offset + (token.length + 1) = offset + 1 + token.length := by omega
      rw [List.cons_append, argumentRanges, if_neg (unspaced byte List.mem_cons_self),
        inductionHypothesis _ _ fun other member => unspaced other (List.mem_cons_of_mem _ member),
        List.length_cons, longer, further]

theorem spaced_cons (token : Bytes) (rest : List Bytes) :
    spaced (token :: rest) = 0x20 :: (token ++ spaced rest) := rfl

theorem argumentRanges_spaced (offset : Nat) {token : Bytes} {rest : List Bytes}
    (tokens : ∀ other ∈ token :: rest, IsToken other) :
    argumentRanges none offset (token ++ spaced rest) = spacedRanges offset (token :: rest) := by
  induction rest generalizing token offset with
  | nil =>
      obtain ⟨some_, plain⟩ := tokens token List.mem_cons_self
      obtain ⟨first, token, rfl⟩ := List.exists_cons_of_ne_nil some_
      obtain ⟨unspaced, others⟩ := List.forall_mem_cons.mp plain
      rw [List.cons_append, argumentRanges, if_neg unspaced.1,
        argumentRanges_append _ _ _ fun byte member => (others byte member).1]
      simp [spaced, argumentRanges, spacedRanges, Nat.add_comm]
  | cons next rest inductionHypothesis =>
      obtain ⟨⟨some_, plain⟩, later⟩ := List.forall_mem_cons.mp tokens
      obtain ⟨first, token, rfl⟩ := List.exists_cons_of_ne_nil some_
      obtain ⟨unspaced, others⟩ := List.forall_mem_cons.mp plain
      rw [List.cons_append, argumentRanges, if_neg unspaced.1,
        argumentRanges_append _ _ _ fun byte member => (others byte member).1, spaced_cons,
        argumentRanges, if_pos rfl, inductionHypothesis _ later]
      simp [spacedRanges, Nat.add_assoc, Nat.add_comm 1]

/-- The name of a line, and its arguments in their order. -/
theorem inlineRanges_spaced (name : Range) (offset : Nat) {token : Bytes} {args : List Bytes}
    (unspaced : ∀ byte ∈ token, byte ≠ 0x20) (tokens : ∀ other ∈ args, IsToken other) :
    inlineRanges name offset (token ++ spaced args) =
      ({ name with length := name.length + token.length },
        spacedRanges (offset + token.length + 1) args) := by
  induction token generalizing name offset with
  | nil =>
      cases args with
      | nil => rfl
      | cons first rest =>
          rw [List.nil_append, spaced_cons, inlineRanges, if_pos rfl,
            argumentRanges_spaced _ tokens]
          rfl
  | cons byte token inductionHypothesis =>
      rw [List.cons_append, inlineRanges, if_neg (unspaced byte List.mem_cons_self),
        inductionHypothesis _ _ fun other member => unspaced other (List.mem_cons_of_mem _ member),
        List.length_cons]
      simp [Nat.add_assoc, Nat.add_comm 1]

end TellyDB.Resp
