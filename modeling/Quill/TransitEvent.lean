/-
# Copying transit events

The backend keeps decoded records as `TransitEvent`s in a `std::priority_queue`.  The struct
declares a copy constructor and a by-value `operator=`, so it has no move operations, and the
heap moves events by chains of copy-constructions and copy-assignments.  The sources hold two
versions of the struct:

* `detail/backend/TransitEvent.h`, whose copy constructor leaves `flush_flag` at its default
  `nullptr` and whose `operator=` does not swap it;
* the `TransitEvent` next to `Serialize.h`, which copies and swaps `flush_flag` as well.

The results:

* `chain_preserves_event`: with the second version, every chain of copies and assignments ends
  in an event equal to the one it started from;
* `backendChain_eq`: with the first version, a chain keeps the thread context, the header and the
  message, and leaves the flush flag of the last step: `nullptr` after a copy-construction, the
  target's own flag after an assignment;
* `backendCopy_loses_flushFlag`: so every chain that ends in a copy-construction nulls the flag.
-/
import Quill.Memory

set_option autoImplicit false

namespace Quill

/-- `detail::TransitEvent`. -/
structure TransitEvent where
  /-- `ThreadContext* thread_context`. -/
  threadContext : Nat
  /-- `detail::Header header`. -/
  header : Header
  /-- The bytes of `formatted_msg`. -/
  formattedMsg : List Char
  /-- `std::atomic<bool>* flush_flag`, `none` for `nullptr`. -/
  flushFlag : Option Nat
  deriving DecidableEq

namespace TransitEvent

/-! ## The version next to `Serialize.h` -/

/-- `TransitEvent(TransitEvent const& other)`: copies the thread context, the header and the flush
flag, and appends the other's message to the empty buffer. -/
def copy (other : TransitEvent) : TransitEvent :=
  ⟨other.threadContext, other.header, [] ++ other.formattedMsg, other.flushFlag⟩

/-- `self = rhs` with `operator=(TransitEvent other)`: `other` is copy-constructed from `rhs`, and
`self` swaps all four fields with it. -/
def assign (self rhs : TransitEvent) : TransitEvent :=
  let other := copy rhs
  { self with threadContext := other.threadContext, header := other.header,
              formattedMsg := other.formattedMsg, flushFlag := other.flushFlag }

/-! ## The version of `detail/backend/TransitEvent.h` -/

/-- `TransitEvent(TransitEvent const& other)`: copies the thread context and the header and
appends the other's message; `flush_flag` keeps its default member initializer `nullptr`. -/
def backendCopy (other : TransitEvent) : TransitEvent :=
  ⟨other.threadContext, other.header, [] ++ other.formattedMsg, none⟩

/-- `self = rhs` with `operator=(TransitEvent other)`: `other` is copy-constructed from `rhs`, and
`self` swaps the thread context, the header and the message with it, but not `flush_flag`. -/
def backendAssign (self rhs : TransitEvent) : TransitEvent :=
  let other := backendCopy rhs
  { self with threadContext := other.threadContext, header := other.header,
              formattedMsg := other.formattedMsg }

end TransitEvent

/-! ## Chains of copies -/

/-- One step of a chain of copies from an event: a copy-construction, or a copy-assignment of the
event to an existing `target`. -/
inductive CopyOp where
  | construct
  | assign (target : TransitEvent)

/-- The event a chain of copies from `e` ends in, with the given copy constructor and
assignment. -/
def runChain (copy : TransitEvent → TransitEvent)
    (assign : TransitEvent → TransitEvent → TransitEvent) :
    List CopyOp → TransitEvent → TransitEvent
  | [], e => e
  | .construct :: ops, e => runChain copy assign ops (copy e)
  | .assign target :: ops, e => runChain copy assign ops (assign target e)

/-- The flush flag a step of `detail/backend/TransitEvent.h` leaves: `nullptr` after a
copy-construction, the target's own flag after an assignment. -/
def CopyOp.backendFlushFlag : CopyOp → Option Nat → Option Nat
  | .construct, _ => none
  | .assign target, _ => target.flushFlag

/-- **The full copy keeps the event.**  With the copy constructor and `operator=` that copy and
swap `flush_flag`, every chain of copy-constructions and copy-assignments from `e` ends in an event
with the thread context, header, message bytes and flush flag of `e`. -/
theorem chain_preserves_event (ops : List CopyOp) (e : TransitEvent) :
    runChain TransitEvent.copy TransitEvent.assign ops e = e := by
  induction ops with
  | nil => rfl
  | cons op ops ih =>
    cases op with
    | construct => simpa [runChain, TransitEvent.copy] using ih
    | assign target => simpa [runChain, TransitEvent.assign, TransitEvent.copy] using ih

/-- With the backend header's copies, a chain keeps everything but the flush flag, which is the
one the last step leaves. -/
theorem backendChain_eq (ops : List CopyOp) (e : TransitEvent) :
    runChain TransitEvent.backendCopy TransitEvent.backendAssign ops e =
      { e with flushFlag := ops.foldl (fun f op => op.backendFlushFlag f) e.flushFlag } := by
  induction ops generalizing e with
  | nil => rfl
  | cons op ops ih =>
    cases op with
    | construct => simp [runChain, ih, TransitEvent.backendCopy, CopyOp.backendFlushFlag]
    | assign target =>
      simp [runChain, ih, TransitEvent.backendAssign, TransitEvent.backendCopy,
        CopyOp.backendFlushFlag]

/-- **The backend header's copy loses the flush flag.**  Whatever chain precedes it, a
copy-construction of `detail/backend/TransitEvent.h` yields the event with a null flush flag, so
a `Flush` event copied by the heap no longer signals the thread waiting in `flush()`. -/
theorem backendCopy_loses_flushFlag (ops : List CopyOp) (e : TransitEvent) :
    runChain TransitEvent.backendCopy TransitEvent.backendAssign (ops ++ [.construct]) e =
      { e with flushFlag := none } := by
  rw [backendChain_eq, List.foldl_append]
  rfl

end Quill
