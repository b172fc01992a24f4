import TellyDB.Lib.Slices
import Mathlib.Algebra.BigOperators.Group.List.Basic
import Mathlib.Algebra.Order.Ring.Nat

/-!
Owns readers over a source of bytes that is asked for one run of bytes after the
other: when a source delivers given bytes, what it means that a reader reads a
value from given bytes, and how readers compose.
-/

namespace TellyDB.Lib.ByteSource

open Slices

/-- Something that hands out the bytes to come, as many as it is asked for. -/
structure Source (σ α : Type) where
  collect : σ → Nat → Option (List α × σ)
  length_eq : ∀ {state count bytes next}, collect state count = some (bytes, next) →
    bytes.length = count

/-- A reader; `none` is a read that fails. -/
abbrev Collecting (σ : Type) := StateT σ Option

variable {σ α β γ : Type}

/-- One request. -/
def Source.request (source : Source σ α) (count : Nat) : Collecting σ (List α) :=
  fun state => source.collect state count

/-- Successive requests. -/
def Source.requests (source : Source σ α) : List Nat → Collecting σ (List (List α))
  | [] => pure []
  | count :: rest => do
      let bytes ← source.request count
      let more ← source.requests rest
      pure (bytes :: more)

/-- Consecutive pieces of these lengths. -/
def cut (bytes : List α) : List Nat → List (List α)
  | [] => []
  | count :: rest => bytes.take count :: cut (bytes.drop count) rest

/-- Whatever is asked for, each time less than `limit`, the source hands out these bytes. -/
def Source.Delivers (source : Source σ α) (limit : Nat) (state : σ) (bytes : List α) : Prop :=
  ∀ counts : List Nat, (∀ count ∈ counts, count < limit) → counts.sum ≤ bytes.length →
    ∃ next, source.requests counts state = some (cut bytes counts, next)

/-- From `bytes`, whatever follows them, the reader reads `value` and leaves what follows. -/
def Reads (source : Source σ α) (limit : Nat) (reader : Collecting σ β) (bytes : List α)
    (value : β) : Prop :=
  ∀ state rest, source.Delivers limit state (bytes ++ rest) →
    ∃ next, reader state = some (value, next) ∧ source.Delivers limit next rest

/-- What the reader reads from `bytes`, whatever follows them, has the property. -/
def Yields (source : Source σ α) (limit : Nat) (reader : Collecting σ β) (bytes : List α)
    (property : β → Prop) : Prop :=
  ∀ state rest value next, source.Delivers limit state (bytes ++ rest) →
    reader state = some (value, next) → property value

/-- A list hands out its elements as long as there are enough. -/
def ofList (α : Type) : Source (List α) α where
  collect bytes count :=
    if count ≤ bytes.length then some (bytes.take count, bytes.drop count) else none
  length_eq := by
    intro state count bytes next collected
    split at collected
    · next inside =>
        cases collected
        rw [List.length_take, Nat.min_eq_left inside]
    · cases collected

/-- Whatever the reader reads, from whatever bytes, has the property. -/
def Gives (reader : Collecting σ β) (property : β → Prop) : Prop :=
  ∀ state value next, reader state = some (value, next) → property value

/-- An invariant of the states, and a place that moves by as many bytes as are handed out. -/
def Source.Tracks (source : Source σ α) (invariant : σ → Prop) (place : σ → Nat) : Prop :=
  ∀ {state count bytes next}, invariant state → source.collect state count = some (bytes, next) →
    invariant next ∧ place next = place state + count

/-- Whatever the reader reads, the relation holds of it and of how many bytes the reader takes. -/
def Takes (invariant : σ → Prop) (place : σ → Nat) (reader : Collecting σ β)
    (taken : β → Nat → Prop) : Prop :=
  ∀ state value next, invariant state → reader state = some (value, next) →
    invariant next ∧ ∃ count, place next = place state + count ∧ taken value count

section Rules

variable {source : Source σ α} {limit : Nat}

theorem bind_apply (reader : Collecting σ β) (next : β → Collecting σ γ) (state : σ) :
    (reader >>= next) state = (reader state).bind fun result => next result.1 result.2 := rfl

@[simp] theorem pure_apply (value : β) (state : σ) :
    (pure value : Collecting σ β) state = some (value, state) := rfl

theorem lift_apply (result : Option β) (state : σ) :
    (liftM result : Collecting σ β) state = result.map fun value => (value, state) := by
  cases result <;> rfl

theorem ofList_delivers (bytes : List α) : (ofList α).Delivers limit bytes bytes := by
  intro counts bounded inside
  clear bounded
  induction counts generalizing bytes with
  | nil => exact ⟨bytes, rfl⟩
  | cons count rest inductionHypothesis =>
      rw [List.sum_cons] at inside
      have requested : (ofList α).request count bytes = some (bytes.take count, bytes.drop count) :=
        if_pos (by omega)
      rcases inductionHypothesis (bytes.drop count) (by rw [List.length_drop]; omega) with
        ⟨next, ran⟩
      refine ⟨next, ?_⟩
      rw [Source.requests, bind_apply, requested, Option.bind_some, bind_apply, ran]
      rfl

theorem Source.Delivers.request {state : σ} {first rest : List α}
    (delivers : source.Delivers limit state (first ++ rest)) (small : first.length < limit) :
    ∃ next, source.request first.length state = some (first, next) ∧
      source.Delivers limit next rest := by
  have once := delivers [first.length] (by simpa using small) (by simp)
  rcases once with ⟨next, asked⟩
  rw [requests, bind_apply, Option.bind_eq_some_iff] at asked
  rcases asked with ⟨⟨bytes, middle⟩, requested, finished⟩
  simp only [requests, bind_apply, pure_apply, Option.bind_some, cut, List.take_left,
    Option.some.injEq, Prod.mk.injEq, List.cons.injEq, and_true] at finished
  rcases finished with ⟨rfl, rfl⟩
  refine ⟨middle, requested, fun counts bounded inside => ?_⟩
  have longer := delivers (bytes.length :: counts)
    (by
      intro count member
      rcases List.mem_cons.mp member with rfl | later
      · exact small
      · exact bounded count later)
    (by
      rw [List.sum_cons, List.length_append]
      omega)
  rcases longer with ⟨final, asked⟩
  rw [Source.requests, bind_apply, requested] at asked
  simp only [Option.bind_some, bind_apply, Option.bind_eq_some_iff, pure_apply, cut,
    List.take_left, List.drop_left, Option.some.injEq, Prod.mk.injEq, List.cons.injEq,
    true_and] at asked
  rcases asked with ⟨⟨more, last⟩, ran, rfl, rfl⟩
  exact ⟨last, ran⟩

theorem Reads.request (bytes : List α) {count : Nat} (length : bytes.length = count)
    (small : count < limit) : Reads source limit (source.request count) bytes bytes := by
  intro state rest delivers
  rw [← length] at small ⊢
  exact delivers.request small

theorem Reads.pure (value : β) : Reads source limit (pure value) ([] : List α) value :=
  fun state _ delivers => ⟨state, rfl, delivers⟩

theorem Reads.bind {reader : Collecting σ β} {next : β → Collecting σ γ} {first second : List α}
    {value : β} {result : γ} (reads : Reads source limit reader first value)
    (continues : Reads source limit (next value) second result) :
    Reads source limit (reader >>= next) (first ++ second) result := by
  intro state rest delivers
  rw [List.append_assoc] at delivers
  rcases reads state _ delivers with ⟨middle, ran, delivers⟩
  rcases continues middle rest delivers with ⟨final, ranNext, delivers⟩
  refine ⟨final, ?_, delivers⟩
  rw [bind_apply, ran]
  exact ranNext

/-- The first of the bytes is read alone. -/
theorem Reads.bind_cons {reader : Collecting σ β} {next : β → Collecting σ γ} {first : α}
    {rest : List α} {value : β} {result : γ} (reads : Reads source limit reader [first] value)
    (continues : Reads source limit (next value) rest result) :
    Reads source limit (reader >>= next) (first :: rest) result :=
  reads.bind continues

theorem Reads.lift {result : Option β} {value : β} (computed : result = some value) :
    Reads source limit (liftM result) ([] : List α) value := by
  intro state rest delivers
  refine ⟨state, ?_, delivers⟩
  rw [lift_apply, computed]
  rfl

/-- What follows reads nothing more. -/
theorem Reads.bind_end {reader : Collecting σ β} {next : β → Collecting σ γ} {bytes : List α}
    {value : β} {result : γ} (reads : Reads source limit reader bytes value)
    (continues : Reads source limit (next value) ([] : List α) result) :
    Reads source limit (reader >>= next) bytes result := by
  have both := reads.bind continues
  rwa [List.append_nil] at both

/-- A reader that ends with a value it computes. -/
theorem Reads.bind_pure {reader : Collecting σ β} {next : β → Collecting σ γ} {bytes : List α}
    {value : β} {result : γ} (reads : Reads source limit reader bytes value)
    (continues : next value = Pure.pure result) :
    Reads source limit (reader >>= next) bytes result :=
  reads.bind_end (by rw [continues]; exact Reads.pure result)

/-- A reader that computes a value on its way. -/
theorem Reads.bind_lift {result : Option β} {next : β → Collecting σ γ} {bytes : List α}
    {value : β} {final : γ} (computed : result = some value)
    (continues : Reads source limit (next value) bytes final) :
    Reads source limit (liftM result >>= next) bytes final :=
  (Reads.lift computed).bind continues

/-- A reader that fails on its way reads nothing. -/
theorem Yields.bind_lift_none {result : Option β} {next : β → Collecting σ γ} {bytes : List α}
    {property : γ → Prop} (fails : result = none) :
    Yields source limit (liftM result >>= next) bytes property := by
  intro state rest value final _ ran
  rw [bind_apply, lift_apply, fails] at ran
  cases ran

theorem Yields.bind {reader : Collecting σ β} {next : β → Collecting σ γ}
    {first second : List α} {value : β} {property : γ → Prop}
    (reads : Reads source limit reader first value)
    (continues : Yields source limit (next value) second property) :
    Yields source limit (reader >>= next) (first ++ second) property := by
  intro state rest result final delivers ran
  rw [List.append_assoc] at delivers
  rcases reads state _ delivers with ⟨middle, ranFirst, delivers⟩
  rw [bind_apply, ranFirst] at ran
  exact continues middle rest result final delivers ran

theorem Yields.bind_end {reader : Collecting σ β} {next : β → Collecting σ γ} {bytes : List α}
    {value : β} {property : γ → Prop} (reads : Reads source limit reader bytes value)
    (continues : Yields source limit (next value) ([] : List α) property) :
    Yields source limit (reader >>= next) bytes property := by
  have both := Yields.bind reads continues
  rwa [List.append_nil] at both

theorem Reads.yields {reader : Collecting σ β} {bytes : List α} {value : β}
    {property : β → Prop} (reads : Reads source limit reader bytes value)
    (held : property value) : Yields source limit reader bytes property := by
  intro state rest result final delivers ran
  rcases reads state rest delivers with ⟨next, read, -⟩
  rw [read] at ran
  cases ran
  exact held

theorem Gives.pure {value : β} {property : β → Prop} (held : property value) :
    Gives (Pure.pure value : Collecting σ β) property := by
  intro state result next ran
  cases ran
  exact held

theorem Gives.none {property : β → Prop} :
    Gives (fun _ => Option.none : Collecting σ β) property := by
  intro state result next ran
  cases ran

theorem Gives.any (reader : Collecting σ β) : Gives reader fun _ => True :=
  fun _ _ _ _ => trivial

theorem Gives.bind {reader : Collecting σ β} {next : β → Collecting σ γ}
    {first : β → Prop} {property : γ → Prop} (gives : Gives reader first)
    (continues : ∀ value, first value → Gives (next value) property) :
    Gives (reader >>= next) property := by
  intro state result final ran
  rw [bind_apply, Option.bind_eq_some_iff] at ran
  rcases ran with ⟨⟨value, middle⟩, ranFirst, ran⟩
  exact continues value (gives state value middle ranFirst) middle result final ran

theorem Gives.bind_lift {result : Option β} {next : β → Collecting σ γ} {property : γ → Prop}
    (continues : ∀ value, result = some value → Gives (next value) property) :
    Gives (liftM result >>= next) property := by
  intro state value final ran
  rw [bind_apply, lift_apply] at ran
  cases computed : result with
  | none =>
      rw [computed] at ran
      cases ran
  | some read =>
      rw [computed] at ran
      exact continues read computed state value final ran

theorem Gives.yields {reader : Collecting σ β} {property : β → Prop}
    (gives : Gives reader property) (bytes : List α) :
    Yields source limit reader bytes property :=
  fun state _ value next _ ran => gives state value next ran

/-- What is read from the first bytes settles the property. -/
theorem Yields.bind_gives {reader : Collecting σ β} {next : β → Collecting σ γ}
    {first : List α} (rest : List α) {read : β → Prop} {property : γ → Prop}
    (yields : Yields source limit reader first read)
    (continues : ∀ value, read value → Gives (next value) property) :
    Yields source limit (reader >>= next) (first ++ rest) property := by
  intro state more result final delivers ran
  rw [List.append_assoc] at delivers
  rw [bind_apply, Option.bind_eq_some_iff] at ran
  rcases ran with ⟨⟨value, middle⟩, ranFirst, ran⟩
  exact continues value (yields state _ value middle delivers ranFirst) middle result final ran

theorem Yields.bind_gives_end {reader : Collecting σ β} {next : β → Collecting σ γ}
    {bytes : List α} {read : β → Prop} {property : γ → Prop}
    (yields : Yields source limit reader bytes read)
    (continues : ∀ value, read value → Gives (next value) property) :
    Yields source limit (reader >>= next) bytes property := by
  have both := yields.bind_gives [] continues
  rwa [List.append_nil] at both

theorem Yields.bind_cons {reader : Collecting σ β} {next : β → Collecting σ γ} {first : α}
    {rest : List α} {value : β} {property : γ → Prop}
    (reads : Reads source limit reader [first] value)
    (continues : Yields source limit (next value) rest property) :
    Yields source limit (reader >>= next) (first :: rest) property :=
  Yields.bind reads continues

theorem Yields.bind_lift {result : Option β} {next : β → Collecting σ γ} {bytes : List α}
    {value : β} {property : γ → Prop} (computed : result = some value)
    (continues : Yields source limit (next value) bytes property) :
    Yields source limit (liftM result >>= next) bytes property :=
  Yields.bind (Reads.lift computed) continues

/-! ## Bytes taken -/

variable {invariant : σ → Prop} {place : σ → Nat}

theorem Takes.request (tracks : source.Tracks invariant place) (count : Nat) :
    Takes invariant place (source.request count)
      fun bytes taken => bytes.length = count ∧ taken = count := by
  intro state bytes next holds collected
  have moved := tracks holds collected
  exact ⟨moved.1, count, moved.2, source.length_eq collected, rfl⟩

theorem Takes.pure {value : β} {taken : β → Nat → Prop} (nothing : taken value 0) :
    Takes invariant place (Pure.pure value : Collecting σ β) taken := by
  intro state result next holds ran
  cases ran
  exact ⟨holds, 0, rfl, nothing⟩

theorem Takes.none {taken : β → Nat → Prop} :
    Takes invariant place (fun _ => Option.none : Collecting σ β) taken := by
  intro state value next holds ran
  cases ran

theorem Takes.bind {reader : Collecting σ β} {next : β → Collecting σ γ}
    {first : β → Nat → Prop} {taken : γ → Nat → Prop}
    (takes : Takes invariant place reader first)
    (continues : ∀ value count, first value count →
      Takes invariant place (next value) fun result more => taken result (count + more)) :
    Takes invariant place (reader >>= next) taken := by
  intro state result final holds ran
  rw [bind_apply, Option.bind_eq_some_iff] at ran
  obtain ⟨⟨value, middle⟩, ranFirst, ran⟩ := ran
  obtain ⟨held, count, moved, takenFirst⟩ := takes state value middle holds ranFirst
  obtain ⟨kept, more, movedLater, takenLater⟩ :=
    continues value count takenFirst middle result final held ran
  exact ⟨kept, count + more, by omega, takenLater⟩

/-- What follows takes nothing more. -/
theorem Takes.bind_pure {reader : Collecting σ β} {make : β → γ} {first : β → Nat → Prop}
    {taken : γ → Nat → Prop} (takes : Takes invariant place reader first)
    (made : ∀ value count, first value count → taken (make value) count) :
    Takes invariant place (reader >>= fun value => Pure.pure (make value)) taken :=
  takes.bind fun value count held => Takes.pure (made value count held)

theorem Takes.lift {result : Option β} {taken : β → Nat → Prop}
    (nothing : ∀ value, result = some value → taken value 0) :
    Takes invariant place (liftM result : Collecting σ β) taken := by
  intro state value next holds ran
  rw [lift_apply, Option.map_eq_some_iff] at ran
  obtain ⟨read, computed, made⟩ := ran
  cases made
  exact ⟨holds, 0, rfl, nothing value computed⟩

/-- A computation on the way takes nothing. -/
theorem Takes.bind_lift {result : Option β} {next : β → Collecting σ γ} {taken : γ → Nat → Prop}
    (continues : ∀ value, result = some value → Takes invariant place (next value) taken) :
    Takes invariant place (liftM result >>= next) taken := by
  have computes : Takes invariant place (liftM result : Collecting σ β)
      fun value count => result = some value ∧ count = 0 :=
    Takes.lift fun value computed => ⟨computed, rfl⟩
  refine computes.bind ?_
  rintro value count ⟨computed, rfl⟩
  simpa only [Nat.zero_add] using continues value computed

end Rules

end TellyDB.Lib.ByteSource
