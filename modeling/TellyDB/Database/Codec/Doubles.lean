import TellyDB.Database.Codec.Digits

/-!
Owns the double codec: which doubles `collect_double` reads back from what
`generate_double_value` writes. The others are read as something else, or make
the writer read or the reader write outside its text.
-/

namespace TellyDB.Database.Codec

open Resp Utils Lib.Positional Lib.ByteSource Lib.Slices File Read

variable {σ : Type} (source : Source σ UInt8) {limit : Nat}

/-! ## The text the reader prints -/

/-- What the turns of the printing loop leave: the characters of each byte, and the NUL behind
the last one where its turn wrote one. -/
def printed (piece : Nat → UInt8 → Bytes) (ending : Nat → Bytes) : Nat → Bytes → Bytes
  | _, [] => []
  | i, [byte] => piece i byte ++ ending i
  | i, byte :: rest => piece i byte ++ printed piece ending (i + 1) rest

section Printing

variable {print : Bytes → Nat → UInt8 → Option Bytes} (offset : Nat → Nat)
  {piece : Nat → UInt8 → Bytes} {ending : Nat → Bytes}

theorem store_eq_some {hex characters : Bytes} {start : Nat}
    (inside : start + characters.length ≤ hex.length) :
    store hex start characters = some (splice hex start characters) := by
  rw [store, copy_eq_some inside (by omega), slice, List.drop_zero, List.take_length]

theorem store_eq_none {hex characters : Bytes} {start : Nat}
    (outside : hex.length < start + characters.length) : store hex start characters = none :=
  if_neg fun both => absurd both.1 (Nat.not_le_of_lt outside)

theorem printed_cons (i : Nat) (byte second : UInt8) (rest : Bytes) :
    printed piece ending i (byte :: second :: rest) =
      piece i byte ++ printed piece ending (i + 1) (second :: rest) := rfl

theorem printed_pos (written : ∀ i byte, 1 ≤ (piece i byte).length) (i : Nat) (byte : UInt8)
    (rest : Bytes) : 1 ≤ (printed piece ending i (byte :: rest)).length := by
  have own := written i byte
  cases rest with
  | nil =>
      rw [printed, List.length_append]
      omega
  | cons second rest =>
      rw [printed_cons, List.length_append]
      omega

/-- Where the turns follow each other in the buffer, the loop prints the text they compose. -/
theorem printBytes_eq
    (each : ∀ hex i byte, print hex i byte = store hex (offset i) (piece i byte ++ ending i))
    (follows : ∀ i byte, offset (i + 1) = offset i + (piece i byte).length)
    (written : ∀ i byte, 1 ≤ (piece i byte).length) (short : ∀ i, (ending i).length ≤ 1)
    (data hex : Bytes) (i : Nat) (reached : offset i ≤ hex.length)
    (inside : offset i + (printed piece ending i data).length ≤ hex.length) :
    ∃ after, printBytes print hex i data = some after ∧ after.length = hex.length ∧
      after.take (offset i + (printed piece ending i data).length) =
        hex.take (offset i) ++ printed piece ending i data := by
  induction data generalizing hex i with
  | nil =>
      refine ⟨hex, rfl, rfl, ?_⟩
      rw [printed, List.append_nil, List.length_nil, Nat.add_zero]
  | cons byte rest inductionHypothesis =>
      cases rest with
      | nil =>
          rw [printed] at inside ⊢
          refine ⟨splice hex (offset i) (piece i byte ++ ending i), ?_, length_splice inside,
            take_splice reached⟩
          rw [printBytes, each, store_eq_some inside]
          rfl
      | cons second rest =>
          have more : 1 ≤ (printed piece ending (i + 1) (second :: rest)).length :=
            printed_pos written (i + 1) second rest
          have ends := short i
          rw [printed_cons, List.length_append] at inside ⊢
          have own : offset i + (piece i byte ++ ending i).length ≤ hex.length := by
            rw [List.length_append]
            omega
          have length := length_splice own
          have next := follows i byte
          rcases inductionHypothesis (splice hex (offset i) (piece i byte ++ ending i)) (i + 1)
            (by omega) (by omega) with ⟨after, ran, kept, text⟩
          refine ⟨after, ?_, kept.trans length, ?_⟩
          · rw [printBytes, each, store_eq_some own]
            exact ran
          · rw [next] at text
            rw [← Nat.add_assoc, text, ← List.append_assoc]
            congr 1
            have whole : (splice hex (offset i) (piece i byte ++ ending i)).take
                (offset i + (piece i byte ++ ending i).length) =
                hex.take (offset i) ++ (piece i byte ++ ending i) := take_splice reached
            have front : (splice hex (offset i) (piece i byte ++ ending i)).take
                (offset i + (piece i byte).length) =
                ((splice hex (offset i) (piece i byte ++ ending i)).take
                  (offset i + (piece i byte ++ ending i).length)).take
                    (offset i + (piece i byte).length) := by
              rw [List.take_take, Nat.min_eq_left (by rw [List.length_append]; omega)]
            rw [front, whole, ← List.append_assoc]
            apply List.take_left'
            rw [List.length_append, List.length_take, Nat.min_eq_left reached]

/-- Where the text is longer than the buffer, the loop writes behind it. -/
theorem printBytes_none
    (each : ∀ hex i byte, print hex i byte = store hex (offset i) (piece i byte ++ ending i))
    (follows : ∀ i byte, offset (i + 1) = offset i + (piece i byte).length)
    (data hex : Bytes) (i : Nat) (nonempty : data ≠ [])
    (outside : hex.length < offset i + (printed piece ending i data).length) :
    printBytes print hex i data = none := by
  induction data generalizing hex i with
  | nil => exact absurd rfl nonempty
  | cons byte rest inductionHypothesis =>
      rw [printBytes, each]
      by_cases own : offset i + (piece i byte ++ ending i).length ≤ hex.length
      · rw [store_eq_some own]
        cases rest with
        | nil =>
            rw [printed] at outside
            exact absurd own (Nat.not_le_of_lt outside)
        | cons second rest =>
            have next := follows i byte
            rw [printed_cons, List.length_append] at outside
            exact inductionHypothesis _ _ (List.cons_ne_nil _ _)
              (by rw [length_splice own]; omega)
      · rw [store_eq_none (Nat.lt_of_not_le own)]
        rfl

end Printing

/-! ## The digits with their point -/

/-- The characters of digits. -/
def characters (digits : List (Fin 16)) : Bytes := digits.map hexCharacter

/-- The digits with a point behind `point` of them, unless there are no more. -/
def pointText (point : Nat) (digits : List (Fin 16)) : Bytes :=
  if point < digits.length then
    characters (digits.take point) ++ 0x2e :: characters (digits.drop point)
  else characters digits

/-- Where the turn for byte `i` begins. -/
def pointOffset (point i : Nat) : Nat := 2 * i + (decide (point < 2 * i)).toNat

/-- The characters of byte `i`. -/
def pointPiece (point i : Nat) (byte : UInt8) : Bytes :=
  if 2 * i = point then 0x2e :: hexPair byte
  else if 2 * i + 1 = point then (hexPair byte).take 1 ++ 0x2e :: (hexPair byte).drop 1
  else hexPair byte

/-- The turn with the point between its digits writes no NUL. -/
def pointEnding (point i : Nat) : Bytes := if 2 * i + 1 = point then [] else [0]

theorem printByte_eq (point : Nat) (hex : Bytes) (i : Nat) (byte : UInt8) :
    printByte point hex i byte =
      store hex (pointOffset point i) (pointPiece point i byte ++ pointEnding point i) := by
  rw [printByte, pointOffset, pointPiece, pointEnding]
  by_cases even : ((point : Int) % 2 = 0)
  · have notBetween : ¬2 * i + 1 = point := by omega
    rw [if_pos even, if_neg notBetween, if_neg notBetween]
    by_cases here : 2 * i = point
    · have notBehind : ¬point < 2 * i := by omega
      rw [if_pos (by omega), if_pos here, decide_eq_false notBehind, Nat.mul_comm]
      rfl
    · rw [if_neg (by omega), if_neg here, Nat.mul_comm]
      congr 3
      exact decide_eq_decide.mpr (by omega)
  · have notHere : ¬2 * i = point := by omega
    rw [if_neg even, if_neg notHere]
    by_cases between : 2 * i + 1 = point
    · have notBehind : ¬point < 2 * i := by omega
      rw [if_pos (by omega), if_pos between, if_pos between, decide_eq_false notBehind,
        Nat.mul_comm]
      rfl
    · rw [if_neg (by omega), if_neg between, if_neg between, Nat.mul_comm]
      congr 3
      exact decide_eq_decide.mpr (by omega)

theorem printPlain_eq (hex : Bytes) (i : Nat) (byte : UInt8) :
    printPlain hex i byte = store hex (2 * i) (hexPair byte ++ [0]) := by
  rw [printPlain, Nat.mul_comm]

theorem length_pointPiece (point i : Nat) (byte : UInt8) :
    pointOffset point (i + 1) = pointOffset point i + (pointPiece point i byte).length := by
  rw [pointOffset, pointOffset, pointPiece]
  by_cases here : 2 * i = point
  · rw [if_pos here, decide_eq_true (show point < 2 * (i + 1) by omega),
      decide_eq_false (show ¬point < 2 * i by omega)]
    rfl
  · rw [if_neg here]
    by_cases between : 2 * i + 1 = point
    · rw [if_pos between, decide_eq_true (show point < 2 * (i + 1) by omega),
        decide_eq_false (show ¬point < 2 * i by omega)]
      rfl
    · rw [if_neg between, decide_eq_decide.mpr (show point < 2 * (i + 1) ↔ point < 2 * i by omega)]
      show 2 * (i + 1) + _ = 2 * i + _ + 2
      omega

/-- The characters that the turns compose, without their NULs. -/
def composed (piece : Nat → UInt8 → Bytes) : Nat → Bytes → Bytes
  | _, [] => []
  | i, byte :: rest => piece i byte ++ composed piece (i + 1) rest

theorem printed_eq (piece : Nat → UInt8 → Bytes) (ending : Nat → Bytes) (i : Nat) {data : Bytes}
    (nonempty : data ≠ []) : printed piece ending i data =
      composed piece i data ++ ending (i + data.length - 1) := by
  induction data generalizing i with
  | nil => exact absurd rfl nonempty
  | cons byte rest inductionHypothesis =>
      cases rest with
      | nil =>
          rw [printed, composed, composed, List.append_nil]
          rfl
      | cons second rest =>
          have index : i + 1 + (second :: rest).length - 1 =
              i + (byte :: second :: rest).length - 1 := by
            rw [List.length_cons, List.length_cons, List.length_cons]
            omega
          rw [printed_cons, inductionHypothesis _ (List.cons_ne_nil _ _), index,
            ← List.append_assoc]
          rfl

theorem hexPair_pair (high low : Fin 16) :
    hexPair (UInt8.ofNat (16 * high.val + low.val)) = [hexCharacter high, hexCharacter low] := by
  revert high low
  decide

theorem composed_plain : ∀ (i : Nat) (digits : List (Fin 16)), digits.length % 2 = 0 →
    composed (fun _ => hexPair) i (pairs digits) = characters digits
  | _, [], _ => rfl
  | _, [_], odd => by cases odd
  | i, high :: low :: rest, even => by
      have restEven : rest.length % 2 = 0 := by
        rw [List.length_cons, List.length_cons] at even
        omega
      rw [pairs, composed, composed_plain (i + 1) rest restEven, hexPair_pair]
      rfl

theorem composed_point : ∀ (point i : Nat) (digits : List (Fin 16)), digits.length % 2 = 0 →
    composed (pointPiece point) i (pairs digits) =
      if point < 2 * i then characters digits else pointText (point - 2 * i) digits
  | _, _, [], _ => by simp [pairs, composed, pointText, characters]
  | _, _, [_], odd => by cases odd
  | point, i, high :: low :: rest, even => by
      have restEven : rest.length % 2 = 0 := by
        rw [List.length_cons, List.length_cons] at even
        omega
      rw [pairs, composed, composed_point point (i + 1) rest restEven, pointPiece, hexPair_pair]
      by_cases here : 2 * i = point
      · rw [if_pos here, if_pos (by omega), if_neg (by omega), pointText,
          if_pos (by rw [List.length_cons]; omega), show point - 2 * i = 0 by omega]
        rfl
      · rw [if_neg here]
        by_cases between : 2 * i + 1 = point
        · rw [if_pos between, if_pos (by omega), if_neg (by omega), pointText,
            if_pos (by rw [List.length_cons, List.length_cons]; omega),
            show point - 2 * i = 1 by omega]
          rfl
        · rw [if_neg between]
          by_cases behind : point < 2 * i
          · rw [if_pos (by omega), if_pos behind]
            rfl
          · obtain ⟨more, point_eq⟩ : ∃ more, point - 2 * i = more + 2 :=
              ⟨point - 2 * i - 2, by omega⟩
            rw [if_neg (by omega), if_neg behind, point_eq,
              show point - 2 * (i + 1) = more by omega, pointText, pointText, List.length_cons,
              List.length_cons]
            by_cases inside : more < rest.length
            · rw [if_pos inside, if_pos (by omega)]
              rfl
            · rw [if_neg inside, if_neg (by omega)]
              rfl

/-! ## The text -/

theorem characters_ne_zero {digits : List (Fin 16)} : ∀ byte ∈ characters digits, byte ≠ 0 := by
  intro byte member
  rcases List.mem_map.mp member with ⟨digit, -, rfl⟩
  exact hexCharacter_ne_zero digit

theorem pointText_ne_zero {point : Nat} {digits : List (Fin 16)} :
    ∀ byte ∈ pointText point digits, byte ≠ 0 := by
  intro byte member
  rw [pointText] at member
  split at member
  · rcases List.mem_append.mp member with front | back
    · exact characters_ne_zero byte front
    · rcases List.mem_cons.mp back with rfl | behind
      · decide
      · exact characters_ne_zero byte behind
  · exact characters_ne_zero byte member

theorem length_pointText (point : Nat) (digits : List (Fin 16)) :
    (pointText point digits).length = digits.length + (decide (point < digits.length)).toNat := by
  rw [pointText]
  split
  · next inside =>
      rw [List.length_append, List.length_cons, characters, characters, List.length_map,
        List.length_map, List.length_take, List.length_drop, decide_eq_true inside]
      show _ = _ + 1
      omega
  · next outside =>
      rw [characters, List.length_map, decide_eq_false outside]
      rfl

/-- A text is read up to the NUL behind it. -/
theorem takeWhile_text {text hex : Bytes} (nonzero : ∀ byte ∈ text, byte ≠ 0)
    (ends : text ++ [0] <+: hex) : hex.takeWhile (· ≠ 0) = text := by
  rcases ends with ⟨rest, rfl⟩
  rw [List.append_assoc, List.takeWhile_append_of_pos fun byte member =>
    decide_eq_true (nonzero byte member)]
  simp

/-- The NUL stored at the end of the buffer leaves the text in front of it. -/
theorem store_end {hex text : Bytes} {hexLen : Nat} (length : hex.length = hexLen + 1)
    (ends : text ++ [0] <+: hex ∨ (text.length = hexLen ∧ text <+: hex)) :
    ∃ after, store hex hexLen [0] = some after ∧ text ++ [0] <+: after := by
  have inside : hexLen + [(0 : UInt8)].length ≤ hex.length := Nat.le_of_eq length.symm
  have rest : hex.drop (hexLen + [(0 : UInt8)].length) = [] :=
    List.drop_of_length_le (Nat.le_of_eq length)
  have after_eq : splice hex hexLen [0] = hex.take hexLen ++ [0] := by
    rw [splice, rest, List.append_nil]
  refine ⟨_, store_eq_some inside, ?_⟩
  rw [after_eq]
  rcases ends with whole | ⟨full, front⟩
  · have short := whole.length_le
    rw [List.length_append, List.length_singleton, length] at short
    rcases Nat.lt_or_ge text.length hexLen with shorter | exact_
    · have inFront : text ++ [0] <+: hex.take hexLen := by
        rw [List.prefix_take_iff]
        exact ⟨whole, by rw [List.length_append, List.length_singleton]; omega⟩
      exact inFront.trans (List.prefix_append _ _)
    · have full : hex.take hexLen = text := by
        rcases whole with ⟨more, rfl⟩
        rw [List.append_assoc, List.take_left' (by omega)]
      rw [full]
  · have front_eq : hex.take hexLen = text := by
      rcases front with ⟨more, rfl⟩
      rw [List.take_left' full]
    rw [front_eq]

section Text

variable {digits : List (Fin 16)} {bytes : Nat}

/-- The reader's text where the record or the first byte gives it a point. -/
theorem doubleText_point (length : digits.length = 2 * bytes) (positive : 1 ≤ bytes)
    {indicated : Int} (held : indicated ≠ -1) {point : Nat}
    (point_eq : (if decide (0x10 < (pairs digits).headD 0) then indicated else indicated + 1) =
      point) :
    doubleText indicated (pairs digits) = some (pointText point digits) := by
  have even : digits.length % 2 = 0 := by omega
  have count : (pairs digits).length = bytes := by rw [length_pairs]; omega
  have nonempty : pairs digits ≠ [] := List.length_pos_iff.mp (by omega)
  have plain : ¬((point : Int) = -1) := by omega
  have flag : (indicated != -1).toNat = 1 := by
    rw [bne_iff_ne.mpr held]
    rfl
  have text : composed (pointPiece point) 0 (pairs digits) = pointText point digits := by
    rw [composed_point _ _ _ even, if_neg (Nat.not_lt_zero _), Nat.mul_zero, Nat.sub_zero]
  have written := printed_eq (pointPiece point) (pointEnding point) 0 nonempty
  rw [text, Nat.zero_add, count] at written
  have text_length := length_pointText point digits
  rw [length] at text_length
  have ending_eq : pointEnding point (bytes - 1) = if 2 * bytes = point + 1 then [] else [0] := by
    rw [pointEnding]
    congr 1
    exact propext (by omega)
  rw [ending_eq] at written
  have start : pointOffset point 0 = 0 := by
    rw [pointOffset, Nat.mul_zero, decide_eq_false (Nat.not_lt_zero _)]
    rfl
  have room : (printed (pointPiece point) (pointEnding point) 0 (pairs digits)).length ≤
      bytes * 2 + 1 + 1 := by
    rw [written, List.length_append, text_length]
    split
    · rw [decide_eq_true (by omega)]
      show 2 * bytes + 1 + 0 ≤ _
      omega
    · have := (decide (point < 2 * bytes)).toNat_le
      show 2 * bytes + _ + 1 ≤ _
      omega
  have ran := printBytes_eq (pointOffset point) (printByte_eq point) (length_pointPiece point)
    (by
      intro i byte
      rw [pointPiece]
      split
      · exact Nat.succ_pos _
      · split <;> exact Nat.succ_pos _)
    (by
      intro i
      rw [pointEnding]
      split <;> decide)
    (pairs digits) (List.replicate (bytes * 2 + 1 + 1) 0) 0
    (by rw [start]; exact Nat.zero_le _)
    (by rw [start, Nat.zero_add, List.length_replicate]; exact room)
  rcases ran with ⟨hex, printed_some, hex_length, front⟩
  rw [start, Nat.zero_add, List.take_zero, List.nil_append] at front
  rw [List.length_replicate] at hex_length
  have prefix_hex : printed (pointPiece point) (pointEnding point) 0 (pairs digits) <+: hex := by
    rw [← front]
    exact List.take_prefix _ _
  rw [written] at prefix_hex
  have ends : pointText point digits ++ [0] <+: hex ∨
      ((pointText point digits).length = bytes * 2 + 1 ∧ pointText point digits <+: hex) := by
    by_cases last : 2 * bytes = point + 1
    · rw [if_pos last, List.append_nil] at prefix_hex
      refine Or.inr ⟨?_, prefix_hex⟩
      rw [text_length, decide_eq_true (by omega), Nat.mul_comm]
      rfl
    · rw [if_neg last] at prefix_hex
      exact Or.inl prefix_hex
  rcases store_end hex_length ends with ⟨after, stored, final⟩
  rw [doubleText, point_eq, if_neg plain, flag, count]
  simp only [printed_some, stored, Option.bind_eq_bind, Option.bind_some]
  rw [takeWhile_text pointText_ne_zero final]

/-- Without an exponent in the record and with a first byte above `0x10` there is no point. -/
theorem doubleText_plain (length : digits.length = 2 * bytes) (positive : 1 ≤ bytes)
    (above : decide (0x10 < (pairs digits).headD 0) = true) :
    doubleText (-1) (pairs digits) = some (characters digits) := by
  have even : digits.length % 2 = 0 := by omega
  have count : (pairs digits).length = bytes := by rw [length_pairs]; omega
  have nonempty : pairs digits ≠ [] := List.length_pos_iff.mp (by omega)
  have written := printed_eq (fun _ => hexPair) (fun _ => [0]) 0 nonempty
  rw [composed_plain _ _ even] at written
  have written_length : (printed (fun _ => hexPair) (fun _ => [0]) 0 (pairs digits)).length =
      bytes * 2 + 1 := by
    rw [written, List.length_append, characters, List.length_map, length, Nat.mul_comm]
    rfl
  have ran := printBytes_eq (fun i => 2 * i) printPlain_eq (fun _ _ => rfl)
    (fun _ _ => Nat.succ_pos _) (fun _ => Nat.le_refl _)
    (pairs digits) (List.replicate (bytes * 2 + 1) 0) 0 (Nat.zero_le _)
    (by rw [written_length, List.length_replicate, Nat.mul_zero, Nat.zero_add])
  rcases ran with ⟨hex, printed_some, hex_length, front⟩
  rw [Nat.mul_zero, Nat.zero_add, List.take_zero, List.nil_append, written] at front
  rw [List.length_replicate] at hex_length
  have ends : characters digits ++ [0] <+: hex := by
    rw [← front]
    exact List.take_prefix _ _
  rcases store_end hex_length (Or.inl ends) with ⟨after, stored, final⟩
  rw [doubleText, above, count]
  simp only [if_true, bne_self_eq_false, Bool.toNat_false, Nat.add_zero, printed_some, stored,
    Option.bind_eq_bind, Option.bind_some]
  rw [takeWhile_text characters_ne_zero final]

/-- Without an exponent in the record and with a first byte up to `0x10` the text is longer than
the buffer. -/
theorem doubleText_overflow (length : digits.length = 2 * bytes) (positive : 1 ≤ bytes)
    (below : decide (0x10 < (pairs digits).headD 0) = false) :
    doubleText (-1) (pairs digits) = none := by
  have even : digits.length % 2 = 0 := by omega
  have count : (pairs digits).length = bytes := by rw [length_pairs]; omega
  have nonempty : pairs digits ≠ [] := List.length_pos_iff.mp (by omega)
  have written := printed_eq (pointPiece 0) (pointEnding 0) 0 nonempty
  rw [composed_point _ _ _ even, if_neg (Nat.not_lt_zero _), Nat.zero_add, count] at written
  have ending_eq : pointEnding 0 (bytes - 1) = [0] := by
    rw [pointEnding, if_neg (by omega)]
  have stuck := printBytes_none (pointOffset 0) (printByte_eq 0) (length_pointPiece 0)
    (pairs digits) (List.replicate (bytes * 2 + 1) 0) 0 nonempty (by
      rw [written, ending_eq, List.length_replicate, List.length_append, length_pointText,
        Nat.mul_zero, Nat.sub_zero, decide_eq_true (by omega), length]
      show _ < 0 + 0 + (2 * bytes + 1 + 1)
      omega)
  rw [doubleText, below, count]
  simp only [Bool.false_eq_true, if_false, bne_self_eq_false, Bool.toNat_false, Nat.add_zero]
  rw [if_neg (by decide)]
  show (printBytes (printByte ((0 : Nat) : Int)) _ _ _).bind _ = none
  rw [stuck]
  rfl

end Text

/-! ## The value of the text -/

theorem parseHex_characters (digits : List (Fin 16)) :
    parseHex (characters digits) = some (digits, []) := by
  induction digits with
  | nil => rfl
  | cons digit rest inductionHypothesis =>
      have notPoint : hexCharacter digit ≠ 0x2e := by
        revert digit
        decide
      rw [characters, List.map_cons, parseHex, if_neg notPoint, hexValue_hexCharacter]
      show (parseHex (characters rest)).bind _ = _
      rw [inductionHypothesis]
      rfl

theorem mapM_hexValue (digits : List (Fin 16)) :
    (characters digits).mapM hexValue = some digits := by
  induction digits with
  | nil => rfl
  | cons digit rest inductionHypothesis =>
      rw [characters, List.map_cons, List.mapM_cons, hexValue_hexCharacter,
        show rest.map hexCharacter = characters rest from rfl, inductionHypothesis]
      rfl

theorem parseHex_append (front : List (Fin 16)) (digits : List (Fin 16)) :
    parseHex (characters front ++ 0x2e :: characters digits) = some (front, digits) := by
  induction front with
  | nil =>
      show parseHex (0x2e :: characters digits) = _
      rw [parseHex, if_pos rfl, mapM_hexValue]
      rfl
  | cons digit rest inductionHypothesis =>
      have notPoint : hexCharacter digit ≠ 0x2e := by
        revert digit
        decide
      rw [characters, List.map_cons, List.cons_append, parseHex, if_neg notPoint,
        hexValue_hexCharacter]
      show (parseHex (characters rest ++ _)).bind _ = _
      rw [inductionHypothesis]
      rfl

theorem parseHex_pointText (point : Nat) (digits : List (Fin 16)) :
    parseHex (pointText point digits) = some (digits.take point, digits.drop point) := by
  rw [pointText]
  split
  · exact parseHex_append _ _
  · next outside =>
      rw [parseHex_characters, List.take_of_length_le (by omega), List.drop_of_length_le (by omega)]

/-- Digits without zeros at either end. -/
theorem strip_padded (number : Double) : strip (padded number.digits) = number.digits := by
  have bare : strip number.digits = number.digits := by
    have front : number.digits.dropWhile (· = 0) = number.digits := by
      rw [List.dropWhile_eq_self_iff]
      intro nonempty zero
      apply number.leading
      rw [List.head?_eq_getElem?, List.getElem?_eq_getElem nonempty]
      exact congrArg some (of_decide_eq_true zero)
    rw [strip, front, List.rdropWhile_eq_self_iff]
    intro nonempty zero
    apply number.trailing
    rw [List.getLast?_eq_some_getLast nonempty]
    exact congrArg some (of_decide_eq_true zero)
  rw [padded]
  split
  · exact bare
  · conv_rhs => rw [← bare]
    rw [strip, List.dropWhile_cons_of_pos rfl]
    rfl

theorem takeWhile_padded (number : Double) :
    ((padded number.digits).takeWhile (· = 0)).length = number.digits.length % 2 := by
  have bare : number.digits.takeWhile (· = 0) = [] := by
    rw [List.takeWhile_eq_nil_iff]
    intro positive zero
    apply number.leading
    rw [List.head?_eq_getElem?, List.getElem?_eq_getElem positive]
    exact congrArg some (of_decide_eq_true zero)
  rw [padded]
  split
  · next even => rw [bare, even]; rfl
  · rw [List.takeWhile_cons_of_pos rfl, bare, List.length_singleton]
    omega

theorem makeDouble_eq (negative : Bool) {whole fraction : List (Fin 16)}
    (short : (strip (whole ++ fraction)).length ≤ doubleDigits)
    (nonzero : strip (whole ++ fraction) ≠ []) :
    ∃ read, makeDouble negative whole fraction = some read ∧ read.negative = negative ∧
      read.digits = strip (whole ++ fraction) ∧
      read.exponent = whole.length - ((whole ++ fraction).takeWhile (· = 0)).length := by
  simp only [makeDouble, dif_pos short, dif_pos nonzero]
  exact ⟨_, rfl, rfl, rfl, rfl⟩

/-- The double of the digits of another, with the point somewhere. -/
theorem makeDouble_padded {number : Double} (nonempty : number.digits ≠ []) (point : Nat) :
    ∃ read, makeDouble number.negative ((padded number.digits).take point)
        ((padded number.digits).drop point) = some read ∧
      (read = number ↔ number.exponent =
        (min point (padded number.digits).length : Nat) - (number.digits.length % 2 : Nat)) := by
  have whole := List.take_append_drop point (padded number.digits)
  have stripped : strip ((padded number.digits).take point ++ (padded number.digits).drop point) =
      number.digits := by
    rw [whole]
    exact strip_padded number
  rcases makeDouble_eq number.negative (by rw [stripped]; exact number.short)
    (by rw [stripped]; exact nonempty) with ⟨read, made, negative, digits, exponent⟩
  rw [stripped] at digits
  rw [whole, takeWhile_padded, List.length_take] at exponent
  refine ⟨read, made, ?_⟩
  rw [← exponent]
  constructor
  · rintro rfl
    rfl
  · intro same
    exact Double.ext negative digits same.symm

/-! ## The codec -/

/-- What makes a double come back: it is not zero, the point lies behind the first digit or
further on but in the first half of the digits, or behind all of an even number of them, and an
even number of digits does not begin with `10`. -/
def DoubleStored (number : Double) : Prop :=
  number.digits ≠ [] ∧
    ¬(number.digits.length % 2 = 0 ∧ number.digits.take 2 = [1, 0]) ∧ 0 ≤ number.exponent ∧
      (number.exponent < ((number.digits.length + 1) / 2 : Nat) ∨
        number.digits.length % 2 = 0 ∧ number.exponent = number.digits.length)

instance (number : Double) : Decidable (DoubleStored number) :=
  inferInstanceAs (Decidable (_ ∧ _))

/-- The reader takes an even number of digits that begins with `10` for an odd one. -/
theorem first_above (number : Double) (nonempty : number.digits ≠ []) :
    decide (0x10 < (pairs (padded number.digits)).headD 0) =
      decide (number.digits.length % 2 = 0 ∧ ¬number.digits.take 2 = [1, 0]) := by
  have leading := number.leading
  cases held : number.digits with
  | nil => exact absurd held nonempty
  | cons first rest =>
      rw [held] at leading
      cases rest with
      | nil =>
          clear held
          revert first
          decide
      | cons second rest =>
          by_cases even : (first :: second :: rest).length % 2 = 0
          · rw [padded, if_pos even, pairs]
            have pair : ∀ high low : Fin 16, high ≠ 0 →
                (decide ((0x10 : UInt8) < UInt8.ofNat (16 * high.val + low.val)) =
                  decide (¬[high, low] = [1, 0])) := by decide
            have nonzero : first ≠ 0 := by
              rintro rfl
              exact leading rfl
            refine (pair first second nonzero).trans (decide_eq_decide.mpr ?_)
            exact ⟨fun differs => ⟨even, differs⟩, And.right⟩
          · rw [padded, if_neg even, pairs]
            have single : ∀ low : Fin 16,
                decide ((0x10 : UInt8) < UInt8.ofNat (16 * (0 : Fin 16).val + low.val)) =
                  false := by decide
            refine (single first).trans (decide_eq_false fun both => even both.1).symm

/-- The exponent that an indicator byte holds. -/
theorem indicator_fields : ∀ exponent : Fin 256,
    ((0x80 ||| UInt8.ofNat exponent.val) &&& 0x80 != 0) = true ∧
      ((0x80 ||| UInt8.ofNat exponent.val) &&& 0x7f).toNat = exponent.val % 128 := by
  decide +kernel

theorem length_hexText (negative : Bool) (digits : List (Fin 16)) :
    (signText negative ++ digits.map hexCharacter ++ [0]).length - 1 =
      digits.length + negative.toNat := by
  cases negative <;> simp [signText]

theorem head_hexText (negative : Bool) (digits : List (Fin 16)) :
    ((signText negative ++ digits.map hexCharacter ++ [0]).head? == some 0x2d) = negative := by
  cases negative with
  | true => simp [signText]
  | false =>
      have notMinus : ∀ digit : Fin 16, hexCharacter digit ≠ 0x2d := by decide
      cases digits <;> simp [signText, notMinus]

/-- What the writer writes for a double that is not zero. -/
theorem generateDoubleValue_eq {number : Double} (nonempty : number.digits ≠ []) :
    generateDoubleValue number =
      some (specifier ((number.digits.length + 1) / 2) number.negative ::
        (if ((number.digits.length + 1) / 2 : Nat) ≤ number.exponent then 0
          else 0x80 ||| UInt8.ofNat (number.exponent % 256).toNat) ::
        pairs (padded number.digits)) := by
  have short : number.digits.length ≤ 256 := number.short
  have sign : ((mpfGetStr number).head? == some 0x2d) = number.negative := head_hexText _ _
  have count : ((mpfGetStr number).length - 1 - number.negative.toNat + 1) / 2 % UInt8.size =
      (number.digits.length + 1) / 2 := by
    rw [mpfGetStr, length_hexText, Nat.add_sub_cancel]
    exact Nat.mod_eq_of_lt (by show _ < 256; omega)
  have packed := generateBytes_eq nonempty short number.negative
  rw [generateDoubleValue]
  simp only [sign, count]
  rw [mpfGetStr, packed]
  simp only [Option.bind_eq_bind, Option.bind_some, decide_eq_true_eq]
  rfl

/-- Zero has no digits, and the writer reads in front of them. -/
theorem generateDoubleValue_zero {number : Double} (zero : number.digits = []) :
    generateDoubleValue number = none := by
  have sign := (number.zero zero).1
  rw [generateDoubleValue]
  simp only [mpfGetStr, zero, sign]
  rfl

/-- The exponent the reader takes from the indicator. -/
def indicated (indicator : UInt8) : Int :=
  if indicator &&& 0x80 != 0 then (indicator &&& 0x7f).toNat else -1

section Reading

variable {bytes : Nat} {negative : Bool} {indicator : UInt8} {data : Bytes}

/-- The specifier and the indicator, which are read first. -/
theorem reads_specifier (enough : stringLimit ≤ limit) :
    Reads source limit (source.request 2) [specifier bytes negative, indicator]
      [specifier bytes negative, indicator] := by
  have limits : stringLimit = 1073741824 := rfl
  exact Reads.request _ rfl (by omega)

/-- A record whose text is a number. -/
theorem reads_doubleBytes (enough : stringLimit ≤ limit) (positive : 1 ≤ bytes)
    (small : bytes ≤ 128) (length : data.length = bytes) {text : Bytes}
    (printed_some : doubleText (indicated indicator) data = some text) {number : Double}
    (parsed : mpfSetStr negative text = some number) :
    Reads source limit (collectDouble source) (specifier bytes negative :: indicator :: data)
      (number, 2 + bytes) := by
  have limits : stringLimit = 1073741824 := rfl
  obtain ⟨before, rfl⟩ : ∃ before, bytes = before + 1 := ⟨bytes - 1, by omega⟩
  have fields : (specifier (before + 1) negative &&& 0x7f).toNat = before ∧
      (specifier (before + 1) negative &&& 0x80 != 0) = negative :=
    specifier_fields ⟨before, by omega⟩ negative
  show Reads source limit (collectDouble source)
    ([specifier (before + 1) negative, indicator] ++ data) _
  refine (reads_specifier source enough).bind ?_
  dsimp only
  rw [fields.1, fields.2]
  refine (Reads.request _ length (by omega)).bind_end ?_
  refine Reads.bind_lift printed_some ?_
  refine Reads.bind_lift parsed ?_
  exact Reads.pure _

/-- A record for whose text the buffer has no room. -/
theorem yields_doubleBytes (enough : stringLimit ≤ limit) (positive : 1 ≤ bytes)
    (small : bytes ≤ 128) (length : data.length = bytes)
    (overflows : doubleText (indicated indicator) data = none) {property : Double × Nat → Prop} :
    Yields source limit (collectDouble source) (specifier bytes negative :: indicator :: data)
      property := by
  have limits : stringLimit = 1073741824 := rfl
  obtain ⟨before, rfl⟩ : ∃ before, bytes = before + 1 := ⟨bytes - 1, by omega⟩
  have fields : (specifier (before + 1) negative &&& 0x7f).toNat = before ∧
      (specifier (before + 1) negative &&& 0x80 != 0) = negative :=
    specifier_fields ⟨before, by omega⟩ negative
  show Yields source limit (collectDouble source)
    ([specifier (before + 1) negative, indicator] ++ data) _
  refine Yields.bind (reads_specifier source enough) ?_
  dsimp only
  rw [fields.1, fields.2]
  refine Yields.bind_end (Reads.request _ length (by omega)) ?_
  exact Yields.bind_lift_none overflows

end Reading

/-- A double comes back exactly when it is stored; otherwise nothing comes back or another one
does. -/
theorem double_cases (enough : stringLimit ≤ limit) {number : Double}
    (nonempty : number.digits ≠ []) : ∃ bytes, generateDoubleValue number = some bytes ∧
      (DoubleStored number →
        Reads source limit (collectDouble source) bytes (number, bytes.length)) ∧
      (¬DoubleStored number →
        Yields source limit (collectDouble source) bytes fun read => read.1 ≠ number) := by
  have short : number.digits.length ≤ 256 := number.short
  have positive : 1 ≤ number.digits.length := List.length_pos_iff.mpr nonempty
  have padded_length := length_padded number.digits
  have data_length : (pairs (padded number.digits)).length = (number.digits.length + 1) / 2 := by
    rw [length_pairs, padded_length]
    omega
  have above := first_above number nonempty
  refine ⟨_, generateDoubleValue_eq nonempty, ?_⟩
  -- What is read, once the text has its point.
  have pointed : ∀ (indicator : UInt8) (point : Nat),
      doubleText (indicated indicator) (pairs (padded number.digits)) =
        some (pointText point (padded number.digits)) →
      (DoubleStored number ↔ number.exponent =
        (min point (padded number.digits).length : Nat) - (number.digits.length % 2 : Nat)) →
      (DoubleStored number → Reads source limit (collectDouble source)
          (specifier ((number.digits.length + 1) / 2) number.negative :: indicator ::
            pairs (padded number.digits)) (number, (specifier ((number.digits.length + 1) / 2)
              number.negative :: indicator :: pairs (padded number.digits)).length)) ∧
        (¬DoubleStored number → Yields source limit (collectDouble source)
          (specifier ((number.digits.length + 1) / 2) number.negative :: indicator ::
            pairs (padded number.digits)) fun read => read.1 ≠ number) := by
    intro indicator point text stored_iff
    rcases makeDouble_padded nonempty point with ⟨read, made, read_iff⟩
    have parsed : mpfSetStr number.negative (pointText point (padded number.digits)) =
        some read := by
      rw [mpfSetStr, parseHex_pointText]
      exact made
    have reads := reads_doubleBytes source enough (by omega) (by omega) data_length
      text parsed
    constructor
    · intro stored
      rw [read_iff.mpr (stored_iff.mp stored)] at reads
      rw [List.length_cons, List.length_cons, data_length, Nat.add_assoc, Nat.add_comm _ (1 + 1)]
      exact reads
    · intro notStored
      exact reads.yields fun same => notStored (stored_iff.mpr (read_iff.mp same))
  have total : (padded number.digits).length =
      number.digits.length + number.digits.length % 2 := by omega
  by_cases zeroed : ((number.digits.length + 1) / 2 : Nat) ≤ number.exponent
  · rw [if_pos zeroed]
    -- The record holds no exponent.
    by_cases plain : number.digits.length % 2 = 0 ∧ ¬number.digits.take 2 = [1, 0]
    · refine pointed 0 (padded number.digits).length ?_ ?_
      · rw [pointText, if_neg (Nat.lt_irrefl _)]
        exact doubleText_plain padded_length (by omega) (above.trans (decide_eq_true plain))
      · rw [Nat.min_self, total, plain.1, Nat.add_zero]
        have notTen : ¬(number.digits.length % 2 = 0 ∧ number.digits.take 2 = [1, 0]) :=
          fun ten => plain.2 ten.2
        constructor
        · rintro ⟨-, -, -, early | whole⟩
          · omega
          · omega
        · intro whole
          exact ⟨nonempty, notTen, by omega, Or.inr ⟨plain.1, by omega⟩⟩
    · refine ⟨fun stored => ?_, fun _ => ?_⟩
      · rcases stored with ⟨-, notTen, -, early | whole⟩
        · omega
        · exact absurd ⟨whole.1, fun ten => notTen ⟨whole.1, ten⟩⟩ plain
      · refine yields_doubleBytes source enough (by omega) (by omega) data_length ?_
        exact doubleText_overflow padded_length (by omega) (above.trans (decide_eq_false plain))
  · rw [if_neg zeroed]
    -- The record holds the exponent without its high bits.
    have low : (number.exponent % 256).toNat < 256 := by omega
    have fields : ((0x80 ||| UInt8.ofNat (number.exponent % 256).toNat) &&& 0x80 != 0) = true ∧
        ((0x80 ||| UInt8.ofNat (number.exponent % 256).toNat) &&& 0x7f).toNat =
          (number.exponent % 256).toNat % 128 :=
      indicator_fields ⟨_, low⟩
    obtain ⟨held, held_eq⟩ : ∃ held, held = (number.exponent % 256).toNat % 128 := ⟨_, rfl⟩
    have indicated_eq :
        indicated (0x80 ||| UInt8.ofNat (number.exponent % 256).toNat) = (held : Int) := by
      rw [indicated, if_pos fields.1, fields.2, held_eq]
    by_cases plain : number.digits.length % 2 = 0 ∧ ¬number.digits.take 2 = [1, 0]
    · refine pointed _ held ?_ ?_
      · refine doubleText_point padded_length (by omega) (by omega) ?_
        rw [above, decide_eq_true plain, if_pos rfl, indicated_eq]
      · rw [total, plain.1, Nat.add_zero]
        have notTen : ¬(number.digits.length % 2 = 0 ∧ number.digits.take 2 = [1, 0]) :=
          fun ten => plain.2 ten.2
        constructor
        · rintro ⟨-, -, nonnegative, early | whole⟩
          · omega
          · omega
        · intro same
          exact ⟨nonempty, notTen, by omega, Or.inl (by omega)⟩
    · refine pointed _ (held + 1) ?_ ?_
      · refine doubleText_point padded_length (by omega) (by omega) ?_
        rw [above, decide_eq_false plain, indicated_eq]
        rfl
      · rw [total]
        constructor
        · rintro ⟨-, notTen, nonnegative, early | whole⟩
          · have odd : number.digits.length % 2 = 1 := by
              by_contra even
              have isEven : number.digits.length % 2 = 0 := by omega
              exact plain ⟨isEven, fun ten => notTen ⟨isEven, ten⟩⟩
            omega
          · exact absurd ⟨whole.1, fun ten => notTen ⟨whole.1, ten⟩⟩ plain
        · intro same
          have odd : number.digits.length % 2 = 1 := by
            by_contra even
            omega
          exact ⟨nonempty, fun ten => by omega, by omega, Or.inl (by omega)⟩

/-- A double comes back from the bytes that are written for it, whatever follows them, and no
character outside its text is read on the way. -/
def DoubleSurvives (number : Double) : Prop :=
  ∃ bytes, generateDoubleValue number = some bytes ∧
    ∀ {σ : Type} (source : Source σ UInt8) {limit : Nat}, stringLimit ≤ limit →
      Reads source limit (collectDouble source) bytes (number, bytes.length)

/-- What is written for a double that is not stored gives no double or another one. -/
theorem DoubleSurvives.stored {number : Double} (survives : DoubleSurvives number) :
    DoubleStored number := by
  obtain ⟨bytes, generated, reads⟩ := survives
  have nonempty : number.digits ≠ [] := by
    intro zero
    rw [generateDoubleValue_zero zero] at generated
    cases generated
  obtain ⟨again, generatedAgain, -, yields⟩ :=
    double_cases (ofList UInt8) (Nat.le_refl stringLimit) nonempty
  rw [generated, Option.some.injEq] at generatedAgain
  subst generatedAgain
  by_contra notStored
  have delivers : (ofList UInt8).Delivers stringLimit (bytes ++ []) (bytes ++ []) :=
    ofList_delivers _
  obtain ⟨next, ran, -⟩ := reads (ofList UInt8) (Nat.le_refl stringLimit) _ [] delivers
  exact yields notStored _ [] _ _ delivers ran rfl

/-- The double codec keeps exactly the doubles that are stored. -/
theorem double_codec (number : Double) : DoubleSurvives number ↔ DoubleStored number := by
  constructor
  · exact DoubleSurvives.stored
  · intro stored
    obtain ⟨bytes, generated, -, -⟩ :=
      double_cases (ofList UInt8) (Nat.le_refl stringLimit) stored.1
    refine ⟨bytes, generated, ?_⟩
    intro σ source limit enough
    obtain ⟨again, generatedAgain, reads, -⟩ := double_cases source enough stored.1
    rw [generated, Option.some.injEq] at generatedAgain
    subst generatedAgain
    exact reads stored

/-- The number 2.0 as a double. -/
def doubleTwo : Double where
  negative := false
  digits := [2]
  exponent := 1
  leading := by decide
  trailing := by decide
  zero := nofun
  short := by decide

/-- The one byte of 2.0 is written without a point, and its text does not fit where it is printed
when it is read. -/
theorem double_codec_two : ¬DoubleSurvives doubleTwo := by
  intro survives
  exact absurd survives.stored (by decide)

end TellyDB.Database.Codec
