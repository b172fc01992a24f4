import TellyDB.Server.Reader.Termination

/-!
Owns `take_n_bytes` as the machine computes it: `at` and `size` are numbers of 32 bits
with a sign, the request, the required size and the size of the buffer are numbers of 32
bits without one. The reader's model of the function agrees with it wherever that is
defined; here a request may be anything, and what it does to the bounds is said in full.
-/

namespace TellyDB.Server.Reader

/-- The conversion to `uint32_t`. -/
def toUint32 (value : Int) : Nat := (value % 0x100000000).toNat

/-- The conversion to `int32_t`. -/
def toInt32 (value : Int) : Int :=
  if value % 0x100000000 < 0x80000000 then value % 0x100000000
  else value % 0x100000000 - 0x100000000

/-- `at`, `size` and `read_buf->size`. -/
structure Window where
  position : Int
  size : Int
  capacity : Nat

/-- The bounds hold, of numbers that the types have. -/
structure Window.Ordered (window : Window) : Prop where
  start : 0 ≤ window.position
  filled : window.position ≤ window.size
  inside : window.size ≤ window.capacity

/-- What the socket has for a call: so many bytes, and an error behind them or EAGAIN. -/
structure Delivery where
  count : Nat
  failed : Bool

/-- `read_from_socket`: the bytes it writes, and the `int` it returns. -/
def Delivery.read (delivery : Delivery) (nbytes : Nat) : Nat × Int :=
  if nbytes ≤ delivery.count then (nbytes, toInt32 nbytes)
  else if delivery.failed then (delivery.count, -1)
  else (delivery.count, toInt32 delivery.count)

/-- What a call did: the bytes it wrote from `start` on, and what it returned. -/
structure Taken where
  window : Window
  start : Int
  written : Nat
  returned : Int

/-- `take_n_bytes`; `allocated` is false when `realloc` fails. -/
def Window.takeNBytes (window : Window) (n : Nat) (allocated : Bool) (delivery : Delivery) :
    Taken :=
  let remaining := toUint32 (window.size - window.position)
  let start := window.position + remaining
  if n ≤ remaining then
    ⟨{ window with position := toInt32 (window.position + n) }, start, 0, toInt32 n⟩
  else
    let required := toUint32 (window.size + (n - remaining))
    if window.capacity < required ∧ allocated = false then ⟨window, start, 0, -1⟩
    else
      let capacity := if window.capacity < required then required else window.capacity
      let (written, count) := delivery.read (n - remaining)
      if count ≤ 0 then ⟨{ window with capacity := capacity }, start, written, toInt32 remaining⟩
      else
        ⟨⟨toInt32 (window.position + n), toInt32 (window.size + (n - remaining)), capacity⟩,
          start, written, toInt32 n⟩

/-- Nothing is written behind the buffer. When `n` is returned, each of the `n` bytes was there
before or was written now. The bounds hold again. -/
structure Taken.Bounded (window : Window) (n : Nat) (taken : Taken) : Prop where
  writes : ∀ index < taken.written, taken.start + (index : Int) < taken.window.capacity
  received : taken.returned = toInt32 n → ∀ index < n,
    window.position + (index : Int) < window.size ∨
      (taken.start ≤ window.position + (index : Int) ∧
        window.position + (index : Int) < taken.start + taken.written)
  ordered : taken.window.Ordered

/-- The size that `take_n_bytes` wants the buffer to have. -/
def Window.required (window : Window) (n : Nat) : Nat := toUint32 (window.position + n)

/-- What `take_n_bytes` asks the socket for. -/
def Window.missing (window : Window) (n : Nat) : Nat := n - (window.size - window.position).toNat

/-- The call of `read_from_socket` returns no positive number. -/
def Delivery.Fails (delivery : Delivery) (nbytes : Nat) : Prop :=
  delivery.count = 0 ∨ (delivery.count < nbytes ∧ delivery.failed = true) ∨
    0x80000000 ≤ min delivery.count nbytes

/-- The bytes are there; or `realloc` fails, and the request is not taken for its result; or the
read fails, and what it wrote is inside of the buffer; or all bytes are delivered, and `at`
counts them. -/
def Window.Safe (window : Window) (n : Nat) (allocated : Bool) (delivery : Delivery) : Prop :=
  window.position + n ≤ window.size ∨
  (window.capacity < window.required n ∧ allocated = false ∧ n ≠ 0xffffffff) ∨
  ((window.capacity < window.required n → allocated = true) ∧
    ((delivery.Fails (window.missing n) ∧
        window.size + min delivery.count (window.missing n) ≤
          max window.capacity (window.required n)) ∨
      (window.missing n ≤ delivery.count ∧ window.position + n < 0x80000000)))

section Bounds

variable {window : Window} {n : Nat} {allocated : Bool} {delivery : Delivery}

theorem toUint32_of_small {value : Int} (nonneg : 0 ≤ value) (small : value < 0x100000000) :
    (toUint32 value : Int) = value := by
  rw [toUint32, Int.emod_eq_of_lt nonneg small]
  exact Int.toNat_of_nonneg nonneg

theorem toInt32_of_small {value : Int} (nonneg : 0 ≤ value) (small : value < 0x80000000) :
    toInt32 value = value := by
  rw [toInt32, Int.emod_eq_of_lt nonneg (by omega), if_pos small]

theorem toInt32_nonneg {value : Int} (nonneg : 0 ≤ toInt32 value) :
    toInt32 value = toUint32 value ∧ (toUint32 value : Int) < 0x80000000 := by
  rw [toInt32] at nonneg ⊢
  rw [toUint32]
  split at nonneg
  · rename_i small
    rw [if_pos small]
    omega
  · omega

theorem read_written (delivery : Delivery) (nbytes : Nat) :
    (delivery.read nbytes).1 = min delivery.count nbytes := by
  rw [Delivery.read]
  split
  · exact (Nat.min_eq_right ‹_›).symm
  · split <;> exact (Nat.min_eq_left (by omega)).symm

theorem read_fails {nbytes : Nat} (some_ : 0 < nbytes) (small : nbytes < 0x100000000) :
    (delivery.read nbytes).2 ≤ 0 ↔ delivery.Fails nbytes := by
  have sign : ∀ count : Nat, count < 0x100000000 →
      (toInt32 count ≤ 0 ↔ count = 0 ∨ 0x80000000 ≤ count) := by
    intro count small
    rw [toInt32]
    split <;> omega
  rw [Delivery.read, Delivery.Fails]
  split
  · rename_i enough
    rw [sign nbytes small, Nat.min_eq_right enough]
    omega
  · rename_i short
    have short := Nat.lt_of_not_le short
    rw [Nat.min_eq_left (Nat.le_of_lt short)]
    split
    · rename_i failed
      exact iff_of_true (show (-1 : Int) ≤ 0 by decide) (.inr (.inl ⟨short, failed⟩))
    · rename_i failed
      rw [sign delivery.count (by omega)]
      exact or_congr_right ⟨.inr, fun either => either.resolve_left fun both => failed both.2⟩

section Calls

variable (ordered : window.Ordered) (size : window.size < 0x80000000)
include ordered size

theorem remaining_eq :
    (toUint32 (window.size - window.position) : Int) = window.size - window.position := by
  have filled := ordered.filled
  have start := ordered.start
  exact toUint32_of_small (by omega) (by omega)

theorem takeNBytes_there (there : window.position + n ≤ window.size) :
    window.takeNBytes n allocated delivery =
      ⟨{ window with position := window.position + n }, window.size, 0, n⟩ := by
  have remaining := remaining_eq ordered size
  have start := ordered.start
  rw [Window.takeNBytes]
  dsimp only
  rw [if_pos (by omega), remaining, toInt32_of_small (by omega) (by omega),
    toInt32_of_small (by omega) (by omega)]
  congr 1
  omega

/-- The required size is computed from `size`, but is that of the bytes from `at` on. -/
theorem takeNBytes_missing (missing : window.size < window.position + n) :
    window.takeNBytes n allocated delivery =
      if window.capacity < window.required n ∧ allocated = false then
        ⟨window, window.size, 0, -1⟩
      else if (delivery.read (window.missing n)).2 ≤ 0 then
        ⟨{ window with capacity := max window.capacity (window.required n) }, window.size,
          (delivery.read (window.missing n)).1, window.size - window.position⟩
      else
        ⟨⟨toInt32 (window.position + n), toInt32 (window.position + n),
          max window.capacity (window.required n)⟩, window.size,
          (delivery.read (window.missing n)).1, toInt32 n⟩ := by
  have remaining := remaining_eq ordered size
  have filled := ordered.filled
  have start := ordered.start
  have begins : window.position + (toUint32 (window.size - window.position) : Int) =
      window.size := by omega
  have asks : n - toUint32 (window.size - window.position) = window.missing n := by
    rw [Window.missing]
    omega
  have ends : window.size + ((n : Int) - toUint32 (window.size - window.position)) =
      window.position + n := by omega
  have grows : (if window.capacity < window.required n then window.required n
      else window.capacity) = max window.capacity (window.required n) := by
    split <;> omega
  rw [Window.takeNBytes]
  dsimp only
  rw [if_neg (by omega), begins, asks, ends, ← Window.required, grows, remaining,
    toInt32_of_small (by omega) (by omega)]

end Calls

/-- The bounds of a call that writes behind the bytes of the buffer. -/
theorem bounded_iff {taken : Taken} (ordered : window.Ordered) (begins : taken.start = window.size)
    (room : window.size ≤ taken.window.capacity) :
    taken.Bounded window n ↔ window.size + taken.written ≤ taken.window.capacity ∧
      (taken.returned = toInt32 n → window.position + n ≤ window.size + taken.written) ∧
      taken.window.Ordered := by
  have filled := ordered.filled
  constructor
  · rintro ⟨writes, received, after⟩
    rw [begins] at writes received
    refine ⟨?_, fun returned => ?_, after⟩
    · rcases Nat.eq_zero_or_pos taken.written with none_ | some_
      · omega
      · have last := writes (taken.written - 1) (by omega)
        omega
    · rcases Nat.eq_zero_or_pos n with none_ | some_
      · omega
      · have last := received returned (n - 1) (by omega)
        omega
  · rintro ⟨writes, received, after⟩
    refine ⟨fun index written => ?_, fun returned index inside => ?_, after⟩
    · rw [begins]
      omega
    · have whole := received returned
      rw [begins]
      omega

section Missing

variable (ordered : window.Ordered) (size : window.size < 0x80000000)
  (request : n < 0x100000000) (missing : window.size < window.position + n)
include ordered size request missing

theorem missing_eq : 0 < window.missing n ∧ window.missing n < 0x100000000 ∧
    window.size + window.missing n = window.position + n := by
  have start := ordered.start
  have filled := ordered.filled
  rw [Window.missing]
  omega

omit size in
/-- A call that fails to get memory returns what a request may be. -/
theorem bounded_refused :
    Taken.Bounded window n ⟨window, window.size, 0, -1⟩ ↔ n ≠ 0xffffffff := by
  have taken : (-1 : Int) = toInt32 n ↔ n = 0xffffffff := by
    rw [toInt32]
    split <;> omega
  rw [bounded_iff ordered rfl ordered.inside, taken]
  constructor
  · rintro ⟨_, received, _⟩ most
    have received := received most
    dsimp only at received
    omega
  · intro other
    exact ⟨by simpa using ordered.inside, fun most => absurd most other, ordered⟩

omit size in
/-- A call that reads nothing writes what it wrote inside of the buffer. -/
theorem bounded_failed {grown written : Nat} (room : window.size ≤ grown) :
    Taken.Bounded window n
        ⟨{ window with capacity := grown }, window.size, written, window.size - window.position⟩ ↔
      window.size + written ≤ grown := by
  have start := ordered.start
  have filled := ordered.filled
  have other : window.size - window.position ≠ toInt32 n := by
    rw [toInt32]
    split <;> omega
  rw [bounded_iff ordered rfl room]
  exact ⟨And.left, fun writes => ⟨writes, fun same => absurd same other, start, ordered.filled, room⟩⟩

/-- A call that reads something counts all that it asked for. -/
theorem bounded_succeeded (capacity : window.capacity < 0x100000000) (count : Nat) :
    Taken.Bounded window n ⟨⟨toInt32 (window.position + n), toInt32 (window.position + n),
          max window.capacity (window.required n)⟩, window.size,
          min count (window.missing n), toInt32 n⟩ ↔
      window.missing n ≤ count ∧ window.position + n < 0x80000000 := by
  have start := ordered.start
  have filled := ordered.filled
  have inside := ordered.inside
  obtain ⟨some_, _, ends⟩ := missing_eq ordered size request missing
  have room : window.size ≤ (max window.capacity (window.required n) : Nat) := by omega
  have required : window.required n < 0x100000000 := by
    rw [Window.required, toUint32]
    omega
  rw [bounded_iff ordered rfl room]
  dsimp only
  constructor
  · rintro ⟨writes, received, after⟩
    have whole := received rfl
    have enough : window.missing n ≤ count := by omega
    have fits : window.position + n < 0x100000000 := by omega
    have nonneg : 0 ≤ toInt32 (window.position + n) := after.start
    have small := (toInt32_nonneg nonneg).2
    have same := toUint32_of_small (by omega) fits
    rw [same] at small
    exact ⟨enough, small⟩
  · rintro ⟨enough, small⟩
    have same : window.required n = window.position + n := toUint32_of_small (by omega) (by omega)
    have kept := toInt32_of_small (by omega) small
    refine ⟨by omega, fun _ => by omega, ?_⟩
    rw [kept]
    exact ⟨by dsimp only; omega, Int.le_refl _, by dsimp only; omega⟩

end Missing

/-- A call of `take_n_bytes` keeps the bounds exactly when it is safe. -/
theorem takeNBytes_bounded_iff (ordered : window.Ordered) (size : window.size < 0x80000000)
    (capacity : window.capacity < 0x100000000) (request : n < 0x100000000) :
    (window.takeNBytes n allocated delivery).Bounded window n ↔
      window.Safe n allocated delivery := by
  have inside := ordered.inside
  by_cases there : window.position + n ≤ window.size
  · rw [takeNBytes_there ordered size there, bounded_iff ordered rfl inside]
    refine iff_of_true ⟨by simpa using inside, fun _ => by simpa using there, ?_⟩ (.inl there)
    have start := ordered.start
    exact ⟨by dsimp only; omega, there, inside⟩
  · have missing := Int.lt_of_not_ge there
    obtain ⟨some_, small, ends⟩ := missing_eq ordered size request missing
    rw [takeNBytes_missing ordered size missing, Window.Safe, or_iff_right there]
    split
    · rename_i refused
      rw [bounded_refused ordered request missing]
      refine ⟨fun other => .inl ⟨refused.1, refused.2, other⟩, ?_⟩
      rintro (⟨_, _, other⟩ | ⟨grown, _⟩)
      · exact other
      · rw [grown refused.1] at refused
        cases refused.2
    · rename_i accepted
      have grown : window.capacity < window.required n → allocated = true :=
        fun short => Bool.of_not_eq_false fun refused => accepted ⟨short, refused⟩
      rw [or_iff_right fun refused => accepted ⟨refused.1, refused.2.1⟩, and_iff_right grown,
        read_written]
      split
      · rename_i failed
        have failed := (read_fails some_ small).mp failed
        have late : ¬(window.missing n ≤ delivery.count ∧ window.position + n < 0x80000000) := by
          rintro ⟨enough, fits⟩
          have start := ordered.start
          have filled := ordered.filled
          rcases failed with none_ | ⟨short, _⟩ | large <;> omega
        rw [bounded_failed ordered request missing (by omega), or_iff_left late,
          and_iff_right failed]
      · rename_i succeeded
        have succeeded := (read_fails some_ small).not.mp succeeded
        rw [bounded_succeeded ordered size request missing capacity,
          or_iff_right fun both => succeeded both.1]

end Bounds

/-! ## The reader -/

/-- The bounds of a client. -/
def State.window (state : State) (buffer : QueryBuffer) : Window :=
  ⟨state.position, state.size, buffer.size⟩

/-- What the socket has for one call. -/
def delivery : List Segment → Delivery
  | [] => ⟨0, false⟩
  | segment :: _ => ⟨segment.bytes.length, segment.failed⟩

theorem toInt32_natCast {value : Nat} (small : value ≤ int32Max) : toInt32 value = value := by
  rw [int32Max] at small
  exact toInt32_of_small (Int.natCast_nonneg value) (by omega)

theorem toUint32_natCast {value : Nat} (small : value ≤ int32Max) : toUint32 value = value := by
  have same := toUint32_of_small (Int.natCast_nonneg value) (by rw [int32Max] at small; omega)
  exact Int.ofNat_inj.mp same

theorem read_delivery {socket : List Segment} {nbytes : Nat} (small : nbytes ≤ int32Max) :
    (delivery socket).read nbytes = ((readSegments socket nbytes).bytes.length,
      if (readSegments socket nbytes).succeeded then ((readSegments socket nbytes).bytes.length : Int)
      else -1) := by
  cases socket with
  | nil =>
      rcases Nat.eq_zero_or_pos nbytes with rfl | some_
      · rfl
      · have short : ¬nbytes ≤ 0 := by omega
        simp [delivery, Delivery.read, readSegments, short, toInt32]
  | cons segment rest =>
      rw [delivery, Delivery.read, readSegments]
      by_cases enough : nbytes ≤ segment.bytes.length
      · rw [if_pos enough, if_pos enough, toInt32_natCast small, List.length_take_of_le enough,
          if_pos rfl]
      · rw [if_neg enough, if_neg enough]
        dsimp only
        cases segment.failed with
        | true => rfl
        | false =>
            rw [toInt32_natCast (by omega)]
            rfl

section Reader

variable {config : Config} {state next : State}

theorem readFromSocket_current {offset nbytes : Nat} {count : Option Nat}
    (read : readFromSocket state offset nbytes = some (next, count)) :
    next.current = state.current := by
  obtain ⟨_, _, _, _, rfl, _⟩ := readFromSocket_eq read
  rfl

/-- The buffer has room for what is read. -/
theorem Reads.capacity {n : Nat} {moved : Bool} {read : State} {count : Option Nat}
    (reads : Reads config state n moved read count) :
    ∃ after, read.current = some after ∧
      after.size = max reads.buffer.size (state.size + (n - (state.size - state.position))) := by
  obtain ⟨after, current, size⟩ : ∃ after, reads.grown.current = some after ∧
      after.size = max reads.buffer.size (state.size + (n - (state.size - state.position))) := by
    rcases reads.room with ⟨small, grew⟩ | ⟨enough, same⟩
    · obtain ⟨buffer, content, current, _, ways⟩ := growBuffer_eq grew
      have own := reads.current
      rw [current] at own
      cases own
      rcases ways with ⟨_, same⟩ | ⟨_, same⟩
      · rw [same]
        exact ⟨_, Function.update_self .., (Nat.max_eq_right (Nat.le_of_lt small)).symm⟩
      · rw [same]
        exact ⟨_, Function.update_self .., (Nat.max_eq_right (Nat.le_of_lt small)).symm⟩
    · rw [same]
      exact ⟨_, reads.current, (Nat.max_eq_left enough).symm⟩
  exact ⟨after, (readFromSocket_current reads.filled).trans current, size⟩

/-- Where the reader's model of `take_n_bytes` is defined, it moves the bounds as the machine
does. -/
theorem takeNBytes_window {buffer : QueryBuffer} {n : Nat} {moved : Bool} {offset : Option Nat}
    (current : state.current = some buffer) (filled : state.position ≤ state.size)
    (inside : state.size ≤ buffer.size) (small : state.size ≤ int32Max)
    (taken : takeNBytes config state n moved = some (next, offset)) :
    ∃ after, next.current = some after ∧
      ((state.window buffer).takeNBytes n true (delivery state.socket)).window =
        next.window after ∧
      ((state.window buffer).takeNBytes n true (delivery state.socket)).returned =
        if offset.isSome then (n : Int) else state.size - state.position := by
  have ordered : (state.window buffer).Ordered :=
    ⟨Int.natCast_nonneg _, Int.ofNat_le.mpr filled, Int.ofNat_le.mpr inside⟩
  have size : (state.window buffer).size < 0x80000000 := by
    change (state.size : Int) < _
    rw [int32Max] at small
    omega
  rcases takeNBytes_eq taken with ⟨there, rfl, rfl⟩ | ⟨missing, read, count, ⟨reads⟩, ended⟩
  · have there : (state.window buffer).position + n ≤ (state.window buffer).size := by
      change (state.position : Int) + n ≤ state.size
      omega
    rw [takeNBytes_there ordered size there]
    exact ⟨buffer, current, rfl, rfl⟩
  · have bounded := reads.bounded
    have total : state.size + (n - (state.size - state.position)) = state.position + n := by omega
    have reached : (state.window buffer).position + n = ((state.position + n : Nat) : Int) := rfl
    have ends : (state.window buffer).size < (state.window buffer).position + n := by
      rw [reached]
      exact Int.ofNat_lt.mpr (by omega)
    have asks : (state.window buffer).missing n = n - (state.size - state.position) := by
      change n - ((state.size : Int) - state.position).toNat = _
      omega
    have required : (state.window buffer).required n = state.position + n := by
      rw [Window.required, reached, toUint32_natCast (by omega)]
    obtain ⟨after, currentAfter, capacity⟩ := reads.capacity
    have own := reads.current
    rw [current] at own
    rw [← Option.some.inj own, total] at capacity
    obtain ⟨_, _, _, _, _, counted⟩ := readFromSocket_eq reads.filled
    rw [reads.grown_socket] at counted
    rw [takeNBytes_missing ordered size ends, if_neg (by simp), asks, required, reached,
      read_delivery (by omega), toInt32_natCast (by omega)]
    have nothing : (if (readSegments state.socket (n - (state.size - state.position))).succeeded
          then ((readSegments state.socket (n - (state.size - state.position))).bytes.length : Int)
          else -1) ≤ 0 ↔ count.getD 0 = 0 := by
      rw [counted]
      split
      · rw [Option.getD_some]
        omega
      · exact iff_of_true (by omega) rfl
    have undisturbed := reads.undisturbed
    rcases ended with ⟨none_, rfl, rfl⟩ | ⟨some_, rfl, rfl⟩
    · rw [if_pos (nothing.mpr none_)]
      refine ⟨after, currentAfter, ?_, rfl⟩
      have same : next.window after =
          ⟨state.position, state.size, max buffer.size (state.position + n)⟩ := by
        rw [State.window, undisturbed.position, undisturbed.size, capacity]
      exact same.symm
    · rw [if_neg (nothing.not.mpr some_)]
      have returned : toInt32 n = n := toInt32_natCast (by omega)
      refine ⟨after, currentAfter, Eq.symm ?_, by rw [Option.isSome_some, if_pos rfl, returned]⟩
      have same : State.window { read with
            size := read.size + (n - (state.size - state.position))
            position := state.position + n } after =
          ⟨(state.position + n : Nat), (state.position + n : Nat),
            max buffer.size (state.position + n)⟩ := by
        rw [State.window, undisturbed.size, total, capacity]
      rw [same]
      rfl

end Reader

/-! ## Calls on fixed input -/

theorem takeNBytes_bounded_whole :
    ((⟨2, 4, 4096⟩ : Window).takeNBytes 8 true ⟨6, false⟩).Bounded ⟨2, 4, 4096⟩ 8 ↔
      (⟨2, 4, 4096⟩ : Window).Safe 8 true ⟨6, false⟩ :=
  takeNBytes_bounded_iff ⟨by decide, by decide, by decide⟩ (by decide) (by decide) (by decide)

/-- One byte is delivered, and two are counted. -/
theorem takeNBytes_bounded_fails_when_short : ¬ ∀ (window : Window) (n : Nat) (delivery : Delivery),
    window.Ordered → window.size < 0x80000000 → window.capacity < 0x100000000 → n < 0x100000000 →
    (window.takeNBytes n true delivery).Bounded window n := by
  intro always
  have bounded := always ⟨0, 0, 4096⟩ 2 ⟨1, false⟩ ⟨by decide, by decide, by decide⟩ (by decide)
    (by decide) (by decide)
  have second := bounded.received (by decide) 1 (by decide)
  revert second
  decide

end TellyDB.Server.Reader
