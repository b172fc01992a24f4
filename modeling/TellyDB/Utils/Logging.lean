import TellyDB.Lib.Tally
import TellyDB.Resp.Replies
import TellyDB.Utils.ThreadQueue.Sequential

/-!
Owns `utils/logging.c` with a file that keeps `max_log_lines` lines: how the file is loaded, how
threads write lines, and what is saved at the end.

A call of `write_log` begins where its message is formed and its level is allowed. One step is
one operation on the queue or one update of `new_size`. A slot of the queue holds a pointer,
which stands for the line behind it. Sizes are below the limit of `off_t`.
-/

namespace TellyDB.Utils.Logging

open Lib Resp ThreadQueue

/-- The bytes of a C string, without its NUL. -/
abbrev CString := { bytes : Bytes // 0 ∉ bytes }

namespace CString

def empty : CString := ⟨[], List.not_mem_nil⟩

/-- One more byte behind a C string. -/
def snoc (line : CString) (byte : UInt8) (nonzero : byte ≠ 0) : CString :=
  ⟨line.val ++ [byte], by
    rw [List.mem_append, List.mem_singleton]
    exact fun member => member.elim line.property fun same => nonzero same.symm⟩

end CString

/-- `strlen`. -/
def strlen (line : CString) : Nat := line.val.length

/-- `lines`: a queue of pointers. -/
abbrev Lines := ThreadQueue CString 1

/-- A pointer to a line. -/
def pointer (line : CString) : Element CString 1 := fun _ => line

/-! ## Loading -/

/-- The loop of `initialize_logs`. `line` is what it has passed since `old_at`. The rest of the
last page behind the file reads as zero, and behind that page nothing is mapped. A push that
fails is ignored. -/
def loadLines (pageSize size : Nat) : Bytes → CString → Lines → Option Lines
  | [], _, lines => if pageSize ∣ size then none else some lines
  | byte :: rest, line, lines =>
      if nonzero : byte ≠ 0 then
        let line := line.snoc byte nonzero
        if byte = 0x0a then do
          let (lines, _) ← pushTqueue lines (pointer line)
          loadLines pageSize size rest .empty lines
        else loadLines pageSize size rest line lines
      else some lines

/-- `initialize_logs`, which leaves `lines` and `new_size`. -/
def initializeLogs (pageSize : Nat) (maxLogLines : Word) (file : Bytes)
    (memory : Nat → ThreadQueueSlot CString 1) : Option (Lines × Int) := do
  let lines ← createTqueue maxLogLines 8 memory
  if file = [] then some (lines, 0)
  else do
    let lines ← loadLines pageSize file.length file .empty lines
    some (lines, file.length)

/-! ## Writing -/

/-- Where a thread stands in `write_log`, behind the file descriptor check. -/
inductive Writing where
  | idle
  | estimate (message : CString)
  | pop (message : CString)
  | subtract (message line : CString)
  | push (message : CString)
  | add (message : CString)

/-- The logs with all threads that write to them. `log` are all lines so far, and `failed` is how
often no memory was left for one. No step reads these two. -/
structure State (τ : Type) where
  lines : Lines
  newSize : Int
  threads : τ → Writing
  aborted : Bool
  log : List CString
  failed : Nat

/-- A thread calls `write_log`, or takes the next step of it. `allocated` tells whether `malloc`
gives memory to the step that asks for it. -/
inductive Action (τ : Type) where
  | call (thread : τ) (message : CString)
  | advance (thread : τ) (allocated : Bool)

section Steps

variable {τ : Type} [DecidableEq τ]

/-- Moves one thread. -/
def State.setThread (state : State τ) (thread : τ) (next : Writing) : State τ :=
  { state with threads := Function.update state.threads thread next }

/-- The next step of a thread. A failed assertion aborts the program. -/
def advance (state : State τ) (thread : τ) (allocated : Bool) : Option (State τ) :=
  match state.threads thread with
  | .idle => none
  | .estimate message =>
      if state.lines.capacity ≤ estimateTqueueSize state.lines then
        some (state.setThread thread (.pop message))
      else some (state.setThread thread (.push message))
  | .pop message => do
      let (lines, popped) ← popTqueue state.lines
      match popped with
      | none => some { state with lines, aborted := true }
      | some line =>
          some ({ state with lines }.setThread thread (.subtract message (line ⟨0, Nat.one_pos⟩)))
  | .subtract message line =>
      some ({ state with newSize := state.newSize - strlen line }.setThread thread (.push message))
  | .push message =>
      if allocated then do
        let (lines, accepted) ← pushTqueue state.lines (pointer message)
        if accepted then
          some ({ state with lines, log := state.log ++ [message] }.setThread thread (.add message))
        else some { state with lines, aborted := true }
      else some ({ state with failed := state.failed + 1 }.setThread thread .idle)
  | .add message =>
      some ({ state with newSize := state.newSize + strlen message }.setThread thread .idle)

/-- One step of one thread; `none` when the thread cannot take it. -/
def step (state : State τ) (action : Action τ) : Option (State τ) :=
  if state.aborted then none
  else
    match action with
    | .call thread message =>
        match state.threads thread with
        | .idle => some (state.setThread thread (.estimate message))
        | _ => none
    | .advance thread allocated => advance state thread allocated

end Steps

/-! ## Saving -/

/-- Whether a byte of a map of the file can be used: it lies in the file, or in the rest of the
page in which the file ends. -/
def mapped (pageSize size place : Nat) : Bool :=
  decide (size ≠ 0) && decide (place / pageSize ≤ (size - 1) / pageSize)

/-- The loop of `save_and_close_logs`, up to the assertion that the queue is empty: the bytes that
it copies into the map, from `written` on. It takes `turns` turns at most. -/
def saveLines (pageSize size : Nat) : Nat → Nat → Lines → Option Bytes
  | 0, _, _ => none
  | turns + 1, written, lines =>
      if estimateTqueueSize lines = 0 then some []
      else do
        let (lines, popped) ← popTqueue lines
        match popped with
        | none => none
        | some line => do
            let line := line ⟨0, Nat.one_pos⟩
            let len := strlen line
            if len = 0 ∨ mapped pageSize size (written + len - 1) then do
              let rest ← saveLines pageSize size turns (written + len) lines
              some (line.val ++ rest)
            else none

/-- What becomes of the log file: `ftruncate` refuses the size, or the file gets the size and the
bytes of the lines. -/
inductive SavedLogs where
  | refused
  | written (size : Nat) (bytes : Bytes)
deriving DecidableEq

/-- `save_and_close_logs`, which maps one byte more than the file gets, and puts a NUL there. The
map is made. -/
def saveAndCloseLogs {τ : Type} (pageSize turns : Nat) (state : State τ) : Option SavedLogs :=
  match state.newSize with
  | .negSucc _ => some .refused
  | .ofNat size => do
      let bytes ← saveLines pageSize size turns 0 state.lines
      if mapped pageSize size size then some (.written size bytes) else none

end TellyDB.Utils.Logging
