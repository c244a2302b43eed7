/-
# One thread's queue, with the producer and the backend interleaved

`Logger::log` runs on the logging thread while the backend worker reads the same queue.  The
queue is not among the sources.  As the spec describes it, `commit_write(n)` publishes the `n`
bytes of a record, and `prepare_read` gives the reader the bytes from its position up to the last
published one.  `Queue` is the state the two sides share and `Queue.step` one step of either side;
a run of `Queue.run` is any interleaving of the two.

`Pending` is the invariant: the published bytes the reader has not read yet hold, back to back,
the records of the calls it has still to deliver, each as `log` wrote it.  The results, over every
interleaving from every state that holds it:

* `Pending.produce`: a producer step appends its record to the pending ones and leaves those
  alone, since it writes only past the published bytes;
* `Queue.step_consume`: a consumer step reads the first pending record as `log` wrote it and moves
  past it, and `Queue.step_idle`: with nothing published it idles;
* `queueRun_delivers`: every interleaving runs to its end, and the backend delivers the calls in
  the order they were made, none lost and none repeated (what was pending and produced is what
  was delivered followed by what is still pending), each record as `Recovers` says;
* `queueRun_drains`: as many reads as there are pending records deliver them all and leave the
  reader at the published end, so every published record is read;
* `queueRun_destroys_once`: from every state, whatever the buffer holds, the addresses the
  backend destroys over a run that runs strictly increase, so no object is destroyed twice.
-/
import Quill.Backend
import Quill.Bookkeeping

set_option autoImplicit false

namespace Quill

/-! ## The shared queue -/

/-- Modelled from the spec: what the logging thread and the backend share of one thread's queue:
the buffer, the end of the bytes `commit_write` has published, and the reader's position. -/
structure Queue where
  mem : Mem
  writePos : Nat
  readPos : Nat

/-- A step of one side: the logging thread calls `Logger::log`, or the backend tries to read. -/
inductive QueueStep where
  | produce (l : Logger) (c : LogCall)
  | consume

/-- Modelled from the spec: one step of either side.  The queue grants the producer's request at
the write position (an unbounded queue has room) and `commit_write` publishes the record.  The
backend reads a record when bytes past its position are published, reading no further than the
last of them, and moves to the pointer `format_to_fn` returns; with nothing published it idles.
A throw of `vformat_to` leaves it without the next record's position, and the run stops. -/
def Queue.step (vformatTo : List Char → List FmtValue → Formatted)
    (registry : Nat → Option Metadata) (s : Queue) :
    QueueStep → Option (Queue × List (Header × FormatOutcome))
  | .produce l c => do
    match ← l.log (fun _ => some s.writePos) c s.mem with
    | .dropped => none
    | .committed m _ n => pure (⟨m, s.writePos + n, s.readPos⟩, [])
  | .consume =>
    if s.readPos < s.writePos then do
      let (h, o) ← readRecord vformatTo registry s.mem s.writePos s.readPos
      match o.ret with
      | .ok next => pure (⟨s.mem, s.writePos, next⟩, [(h, o)])
      | .error _ => none
    else pure (s, [])

/-- The steps of the two sides in the order they took them, with the records the backend read. -/
def Queue.run (vformatTo : List Char → List FmtValue → Formatted)
    (registry : Nat → Option Metadata) :
    List QueueStep → Queue → Option (Queue × List (Header × FormatOutcome))
  | [], s => some (s, [])
  | st :: steps, s => do
    let (s, out) ← s.step vformatTo registry st
    let (s, outs) ← Queue.run vformatTo registry steps s
    pure (s, out ++ outs)

/-- The calls the producer steps of a run make, in order. -/
def produced : List QueueStep → List (Logger × LogCall)
  | [] => []
  | .produce l c :: steps => (l, c) :: produced steps
  | .consume :: steps => produced steps

/-- The counts `commit_write` publishes for records written back to back from `r`. -/
def commits : List (Logger × LogCall) → Nat → List Nat
  | [], _ => []
  | (_, c) :: calls, r => (recordEnd c r - r) :: commits calls (recordEnd c r)

/-- A call the backend formats: its call site is registered with `format_to<Args...>`, its owned
strings hold no zero byte, and `vformat_to` returns, without a throw, on its arguments' values. -/
def Formats (vformatTo : List Char → List FmtValue → Formatted)
    (registry : Nat → Option Metadata) (x : Logger × LogCall) : Prop :=
  (∃ md, registry x.2.metadata = some md ∧ md.formatToFn = x.2.args.map Arg.type ∧
    (vformatTo md.macroMetadata.messageFormat (x.2.args.map Arg.decodedValue)).error = none) ∧
  ∀ a ∈ x.2.args, a.ZeroFree

/-- A record ends past its header, so a pending record is published bytes. -/
theorem lt_recordEnd (c : LogCall) (w : Nat) : w < recordEnd c w := by
  have := le_argsStart w
  have := le_recordEnd c w
  simp only [Header.size] at *
  omega

/-! ## Pending records -/

/-- The published bytes from `r` to `w` hold the records of `calls` back to back, each as `log`
wrote it from where the previous one ended, over whatever the buffer held before. -/
def Pending (m : Mem) : Nat → List (Logger × LogCall) → Nat → Prop
  | r, [], w => r = w
  | r, (l, c) :: calls, w =>
    (∃ m0, ∀ q, r ≤ q → q < recordEnd c r → m q = storeRecord l c m0 r q) ∧
      Pending m (recordEnd c r) calls w

namespace Pending

variable {m : Mem} {r w : Nat} {calls : List (Logger × LogCall)}

theorem le (h : Pending m r calls w) : r ≤ w := by
  induction calls generalizing r with
  | nil => exact le_of_eq h
  | cons x calls ih => exact le_trans (self_le_recordEnd x.2 r) (ih h.2)

/-- Pending records are a fact about the published bytes only. -/
theorem frame {m' : Mem} (h : Pending m r calls w) (hm : ∀ q < w, m' q = m q) :
    Pending m' r calls w := by
  induction calls generalizing r with
  | nil => exact h
  | cons x calls ih =>
    obtain ⟨⟨m0, hm0⟩, hrest⟩ := h
    have hend := hrest.le
    exact ⟨⟨m0, fun q h1 h2 => (hm q (by omega)).trans (hm0 q h1 h2)⟩, ih hrest⟩

theorem append {v : Nat} {more : List (Logger × LogCall)} (h : Pending m r calls v)
    (h' : Pending m v more w) : Pending m r (calls ++ more) w := by
  induction calls generalizing r with
  | nil => exact (show r = v from h) ▸ h'
  | cons x calls ih => exact ⟨h.1, ih h.2⟩

/-- **A producer step keeps the pending records.**  The record `log` writes at the published end
joins the pending ones, and those already there are left alone. -/
theorem produce (h : Pending m r calls w) (l : Logger) (c : LogCall) :
    Pending (storeRecord l c m w) r (calls ++ [(l, c)]) (recordEnd c w) :=
  (h.frame fun _ hq => storeRecord_of_lt l c m hq).append ⟨⟨m, fun _ _ _ => rfl⟩, rfl⟩

end Pending

/-! ## Steps -/

section Steps

variable (vformatTo : List Char → List FmtValue → Formatted)
  (registry : Nat → Option Metadata)

theorem Queue.run_cons_of_step {st : QueueStep} {steps : List QueueStep} {s s' : Queue}
    {out : List (Header × FormatOutcome)} (h : s.step vformatTo registry st = some (s', out)) :
    Queue.run vformatTo registry (st :: steps) s =
      (Queue.run vformatTo registry steps s').map fun r => (r.1, out ++ r.2) := by
  rw [Queue.run, h]
  simp only [Option.bind_eq_bind, Option.some_bind]
  cases Queue.run vformatTo registry steps s' <;> rfl

/-- The producer writes its record at the published end and publishes it. -/
theorem Queue.step_produce (s : Queue) (l : Logger) (c : LogCall) :
    s.step vformatTo registry (.produce l c) =
      some (⟨storeRecord l c s.mem s.writePos, recordEnd c s.writePos, s.readPos⟩, []) := by
  rw [Queue.step, log_eq (fun _ => some s.writePos) l c s.mem rfl]
  simp only [Option.bind_eq_bind, Option.some_bind,
    Nat.add_sub_cancel' (self_le_recordEnd c s.writePos)]
  rfl

/-- With nothing pending the backend idles. -/
theorem Queue.step_idle (s : Queue) (h : Pending s.mem s.readPos [] s.writePos) :
    s.step vformatTo registry .consume = some (s, []) := by
  rw [Queue.step, if_neg (by rw [show s.readPos = s.writePos from h]; exact lt_irrefl _)]
  rfl

/-- **A consumer step delivers the first pending record.**  The backend reads the header `log`
built, every argument where `encode_args` wrote it and the text `vformat_to` makes of the
arguments' values, destroys the arguments with destructors, and moves to the record's end. -/
theorem Queue.step_consume (s : Queue) {l : Logger} {c : LogCall}
    {calls : List (Logger × LogCall)} (h : Pending s.mem s.readPos ((l, c) :: calls) s.writePos)
    {md : Metadata} (hmd : registry c.metadata = some md)
    (hty : md.formatToFn = c.args.map Arg.type) (hz : ∀ a ∈ c.args, a.ZeroFree)
    (hok : (vformatTo md.macroMetadata.messageFormat (c.args.map Arg.decodedValue)).error = none) :
    s.step vformatTo registry .consume = some (⟨s.mem, s.writePos, recordEnd c s.readPos⟩,
      [(c.header l, ⟨.ok (recordEnd c s.readPos),
        (vformatTo md.macroMetadata.messageFormat (c.args.map Arg.decodedValue)).text,
        (layout c.args (argsStart s.readPos)).map (fun x => x.2.fmtArg x.1),
        dtorAddrs c.args (argsStart s.readPos)⟩)]) := by
  obtain ⟨⟨m0, hm0⟩, hrest⟩ := h
  have hend := hrest.le
  rw [Queue.step, if_pos (lt_of_lt_of_le (lt_recordEnd c s.readPos) hend),
    readRecord_of_agree vformatTo registry hmd hty hz hend hm0, hok]
  rfl

/-- A run that starts with a read of the first pending record delivers it ahead of what the
rest of the run delivers. -/
theorem Queue.run_consume_cons (s : Queue) {l : Logger} {c : LogCall}
    {calls : List (Logger × LogCall)} (h : Pending s.mem s.readPos ((l, c) :: calls) s.writePos)
    (hf : Formats vformatTo registry (l, c)) {steps : List QueueStep} {s' : Queue}
    {delivered : List (Logger × LogCall)} {outs : List (Header × FormatOutcome)}
    (hrun : Queue.run vformatTo registry steps ⟨s.mem, s.writePos, recordEnd c s.readPos⟩ =
      some (s', outs))
    (hrec : Recovers vformatTo registry delivered (commits delivered (recordEnd c s.readPos))
      (recordEnd c s.readPos) outs) :
    ∃ out, Queue.run vformatTo registry (.consume :: steps) s = some (s', out :: outs) ∧
      Recovers vformatTo registry ((l, c) :: delivered) (commits ((l, c) :: delivered) s.readPos)
        s.readPos (out :: outs) := by
  obtain ⟨⟨md, hmd, hty, hok⟩, hz⟩ := hf
  dsimp only at hmd hty hz hok
  have hrun' := @Queue.run_cons_of_step vformatTo registry _ steps _ _ _
    (Queue.step_consume _ _ s h hmd hty hz hok)
  rw [hrun] at hrun'
  exact ⟨_, hrun', by
    simpa [commits, Recovers, hmd, hok, Nat.add_sub_cancel' (self_le_recordEnd c _)] using hrec⟩

end Steps

/-! ## Every interleaving -/

/-- **The backend delivers every call once, in order.**  From every state whose unread published
bytes hold the records of `pending`, for every interleaving of `Logger::log` calls and backend
reads whose calls the backend formats: the run ends, the calls pending and produced are the calls
delivered followed by those still pending, the unread bytes hold the latter, and the records the
backend read are the delivered calls' records, in order, as `Recovers` says, each read up to the
count its `commit_write` published. -/
theorem queueRun_delivers (vformatTo : List Char → List FmtValue → Formatted)
    (registry : Nat → Option Metadata) (steps : List QueueStep) (s : Queue)
    (pending : List (Logger × LogCall)) (hpend : Pending s.mem s.readPos pending s.writePos)
    (hfmt : ∀ x ∈ pending ++ produced steps, Formats vformatTo registry x) :
    ∃ s' outs delivered remaining, Queue.run vformatTo registry steps s = some (s', outs) ∧
      pending ++ produced steps = delivered ++ remaining ∧
      Pending s'.mem s'.readPos remaining s'.writePos ∧
      Recovers vformatTo registry delivered (commits delivered s.readPos) s.readPos outs := by
  induction steps generalizing s pending with
  | nil => exact ⟨s, [], [], pending, rfl, by simp [produced], hpend, rfl⟩
  | cons st steps ih =>
    cases st with
    | produce l c =>
      obtain ⟨s', outs, delivered, remaining, hrun, hcons, hpend', hrec⟩ :=
        ih ⟨storeRecord l c s.mem s.writePos, recordEnd c s.writePos, s.readPos⟩
          (pending ++ [(l, c)]) (hpend.produce l c) (by simpa [produced] using hfmt)
      refine ⟨s', outs, delivered, remaining, ?_, by simpa [produced] using hcons, hpend', hrec⟩
      rw [Queue.run_cons_of_step vformatTo registry (Queue.step_produce _ _ s l c), hrun]
      rfl
    | consume =>
      cases pending with
      | nil =>
        obtain ⟨s', outs, delivered, remaining, hrun, hcons, hpend', hrec⟩ := ih s [] hpend hfmt
        refine ⟨s', outs, delivered, remaining, ?_, hcons, hpend', hrec⟩
        rw [Queue.run_cons_of_step vformatTo registry (Queue.step_idle _ _ s hpend), hrun]
        rfl
      | cons x pending =>
        obtain ⟨l, c⟩ := x
        obtain ⟨s', outs, delivered, remaining, hrun, hcons, hpend', hrec⟩ :=
          ih ⟨s.mem, s.writePos, recordEnd c s.readPos⟩ pending hpend.2
            fun x hx => hfmt x (List.mem_cons_of_mem _ hx)
        obtain ⟨out, hrun', hrec'⟩ := Queue.run_consume_cons vformatTo registry s hpend
          (hfmt (l, c) (List.mem_cons_self _ _)) hrun hrec
        exact ⟨s', out :: outs, (l, c) :: delivered, remaining, hrun',
          congrArg (List.cons (l, c)) hcons, hpend', hrec'⟩

/-- **The backend drains the queue.**  From every state whose unread published bytes hold the
records of `pending`, as many backend reads as there are pending calls deliver them all, in
order and whole, each read up to the count its `commit_write` published, and leave the reader at
the published end. -/
theorem queueRun_drains (vformatTo : List Char → List FmtValue → Formatted)
    (registry : Nat → Option Metadata) (s : Queue) (pending : List (Logger × LogCall))
    (hpend : Pending s.mem s.readPos pending s.writePos)
    (hfmt : ∀ x ∈ pending, Formats vformatTo registry x) :
    ∃ outs, Queue.run vformatTo registry (List.replicate pending.length .consume) s =
        some (⟨s.mem, s.writePos, s.writePos⟩, outs) ∧
      Recovers vformatTo registry pending (commits pending s.readPos) s.readPos outs := by
  induction pending generalizing s with
  | nil =>
    obtain ⟨m, w, r⟩ := s
    cases (hpend : r = w)
    exact ⟨[], rfl, rfl⟩
  | cons x pending ih =>
    obtain ⟨l, c⟩ := x
    obtain ⟨outs, hrun, hrec⟩ := ih ⟨s.mem, s.writePos, recordEnd c s.readPos⟩ hpend.2
      fun x hx => hfmt x (List.mem_cons_of_mem _ hx)
    obtain ⟨out, hrun', hrec'⟩ := Queue.run_consume_cons vformatTo registry s hpend
      (hfmt (l, c) (List.mem_cons_self _ _)) hrun hrec
    exact ⟨out :: outs, hrun', hrec'⟩

/-- The queue once both calls of `paddedRun` are published, before the backend reads. -/
def paddedQueue : Queue :=
  ⟨storeRecord infoLogger ⟨0, 1, paddedArgs⟩
      (storeRecord infoLogger ⟨0, 0, paddedArgs⟩ blankMem 0) (recordEnd ⟨0, 0, paddedArgs⟩ 0),
    recordEnd ⟨0, 1, paddedArgs⟩ (recordEnd ⟨0, 0, paddedArgs⟩ 0), 0⟩

/-- Two reads drain the two records of `paddedRun`. -/
theorem queueRun_drains_padded :
    Pending paddedQueue.mem paddedQueue.readPos paddedRun paddedQueue.writePos ∧
    (∀ x ∈ paddedRun, Formats (fun _ _ => ⟨[], none⟩) paddedRegistry x) ∧
    ∃ outs, Queue.run (fun _ _ => ⟨[], none⟩) paddedRegistry
        (List.replicate paddedRun.length .consume) paddedQueue =
        some (⟨paddedQueue.mem, paddedQueue.writePos, paddedQueue.writePos⟩, outs) ∧
      Recovers (fun _ _ => ⟨[], none⟩) paddedRegistry paddedRun
        (commits paddedRun paddedQueue.readPos) paddedQueue.readPos outs :=
  have hpend : Pending paddedQueue.mem paddedQueue.readPos paddedRun paddedQueue.writePos :=
    ((show Pending blankMem 0 [] 0 from rfl).produce infoLogger _).produce infoLogger _
  have hfmt : ∀ x ∈ paddedRun, Formats (fun _ _ => ⟨[], none⟩) paddedRegistry x := by
    simp [Formats, paddedRun, paddedRegistry]
    decide
  ⟨hpend, hfmt, queueRun_drains _ paddedRegistry paddedQueue paddedRun hpend hfmt⟩

/-! ## No address destroyed twice -/

section Destroyed

variable {vformatTo : List Char → List FmtValue → Formatted}
  {registry : Nat → Option Metadata}

theorem Queue.run_cons_eq_some {st : QueueStep} {steps : List QueueStep} {s s' : Queue}
    {outs : List (Header × FormatOutcome)}
    (h : Queue.run vformatTo registry (st :: steps) s = some (s', outs)) :
    ∃ s1 out outs', s.step vformatTo registry st = some (s1, out) ∧
      Queue.run vformatTo registry steps s1 = some (s', outs') ∧ outs = out ++ outs' := by
  rw [Queue.run] at h
  simp only [Option.bind_eq_bind, Option.bind_eq_some] at h
  obtain ⟨⟨s1, out⟩, hstep, ⟨s2, outs'⟩, hrun, hr⟩ := h
  cases hr
  exact ⟨s1, out, outs', hstep, hrun, rfl⟩

/-- What the backend destroys reading one record, whatever the bytes: addresses that increase
from the record's start on and lie below where the next record starts, past this one's. -/
theorem readRecord_destroyed {m : Mem} {readEnd q : Nat} {hd : Header} {o : FormatOutcome}
    (h : readRecord vformatTo registry m readEnd q = some (hd, o)) :
    (∀ next, o.ret = .ok next → q ≤ next) ∧ o.destroyed.Pairwise (· < ·) ∧
      ∀ x ∈ o.destroyed, q ≤ x ∧ ∀ next, o.ret = .ok next → x < next := by
  simp only [readRecord] at h
  split at h
  · simp only [Option.bind_eq_bind, Option.bind_eq_some] at h
    obtain ⟨md, -, o', hf, hr⟩ := h
    cases hr
    obtain ⟨hret, hsort, hmem⟩ := formatTo_destroyed hf
    have := le_alignPointer q (by decide : 0 < Header.align)
    exact ⟨fun next hn => by have := hret next hn; omega, hsort,
      fun x hx => ⟨by have := (hmem x hx).1; omega, (hmem x hx).2⟩⟩
  · cases h

/-- What one step destroys: only a read destroys anything, at addresses that increase from the
reader's position to below the position it moves to; no step moves the reader back. -/
theorem Queue.step_destroyed {st : QueueStep} {s s1 : Queue}
    {out : List (Header × FormatOutcome)} (h : s.step vformatTo registry st = some (s1, out)) :
    s.readPos ≤ s1.readPos ∧ (out.flatMap (·.2.destroyed)).Pairwise (· < ·) ∧
      ∀ x ∈ out.flatMap (·.2.destroyed), s.readPos ≤ x ∧ x < s1.readPos := by
  cases st with
  | produce l c =>
    simp only [Queue.step, Option.bind_eq_bind, Option.bind_eq_some] at h
    obtain ⟨o, -, h⟩ := h
    cases o with
    | dropped => cases h
    | committed m' _ n =>
      cases h
      simp
  | consume =>
    simp only [Queue.step] at h
    split at h
    · simp only [Option.bind_eq_bind, Option.bind_eq_some] at h
      obtain ⟨⟨hd, o⟩, hread, h⟩ := h
      split at h
      · rename_i next hnext
        cases h
        obtain ⟨hret, hsort, hmem⟩ := readRecord_destroyed hread
        simpa using ⟨hret next hnext, hsort, fun x hx => ⟨(hmem x hx).1, (hmem x hx).2 next hnext⟩⟩
      · cases h
    · cases h
      simp

end Destroyed

/-- **The backend never destroys an address twice.**  From every state, whatever its buffer holds
and whatever call site each header names, over every interleaving of `Logger::log` calls and
backend reads that runs: the reader never moves back, and the addresses the backend destroys,
record after record, strictly increase between the reader's first and last positions; so no
object is destroyed twice.  This covers the records misframed by an owned string with a zero
byte whenever every format argument the decoder builds still refers to a value of its type in
the buffer; a read that finds none there (in the code, a destructor run on bytes that hold no
object) is not a step of the model, and the run does not run. -/
theorem queueRun_destroys_once
    (vformatTo : List Char → List FmtValue → Formatted)
    (registry : Nat → Option Metadata) (steps : List QueueStep) (s s' : Queue)
    (outs : List (Header × FormatOutcome))
    (h : Queue.run vformatTo registry steps s = some (s', outs)) :
    s.readPos ≤ s'.readPos ∧ (outs.flatMap (·.2.destroyed)).Pairwise (· < ·) ∧
      ∀ x ∈ outs.flatMap (·.2.destroyed), s.readPos ≤ x ∧ x < s'.readPos := by
  induction steps generalizing s outs with
  | nil =>
    cases h
    simp
  | cons st steps ih =>
    obtain ⟨s1, out, outs', hstep, hrun, rfl⟩ := Queue.run_cons_eq_some h
    obtain ⟨hle, hsort, hmem⟩ := Queue.step_destroyed hstep
    obtain ⟨hle', hsort', hmem'⟩ := ih s1 outs' hrun
    refine ⟨le_trans hle hle', ?_, fun x hx => ?_⟩
    · rw [List.flatMap_append, List.pairwise_append]
      exact ⟨hsort, hsort', fun a ha b hb => lt_of_lt_of_le (hmem a ha).2 (hmem' b hb).1⟩
    · rw [List.flatMap_append, List.mem_append] at hx
      rcases hx with hx | hx
      · exact ⟨(hmem x hx).1, lt_of_lt_of_le (hmem x hx).2 hle'⟩
      · exact ⟨le_trans hle (hmem' x hx).1, (hmem' x hx).2⟩

/-- Two calls of `log("{}{}", "a", 42)` stamped 0 and 1, the backend reading after each of them
and once more. -/
def twoInterleaved : List QueueStep :=
  [.produce infoLogger ⟨0, 0, paddedArgs⟩, .consume, .produce infoLogger ⟨0, 1, paddedArgs⟩,
   .consume, .consume]

/-- The two calls from an empty queue, with a formatter that prints nothing. -/
theorem queueRun_delivers_two :
    Pending blankMem 0 [] 0 ∧
    (∀ x ∈ [] ++ produced twoInterleaved, Formats (fun _ _ => ⟨[], none⟩) paddedRegistry x) ∧
    ∃ s' outs delivered remaining,
      Queue.run (fun _ _ => ⟨[], none⟩) paddedRegistry twoInterleaved ⟨blankMem, 0, 0⟩ =
        some (s', outs) ∧
      [] ++ produced twoInterleaved = delivered ++ remaining ∧
      Pending s'.mem s'.readPos remaining s'.writePos ∧
      Recovers (fun _ _ => ⟨[], none⟩) paddedRegistry delivered (commits delivered 0) 0 outs :=
  have hfmt : ∀ x ∈ [] ++ produced twoInterleaved,
      Formats (fun _ _ => ⟨[], none⟩) paddedRegistry x := by
    simp [Formats, produced, twoInterleaved, paddedRegistry]
    decide
  ⟨rfl, hfmt,
    queueRun_delivers _ paddedRegistry twoInterleaved ⟨blankMem, 0, 0⟩ [] rfl hfmt⟩

/-- The backend reads the records stamped 0 and 1, in order, and its last read idles. -/
example : (Queue.run (fun _ _ => ⟨[], none⟩) paddedRegistry twoInterleaved ⟨blankMem, 0, 0⟩).map
      (fun r => (r.2.map fun o => o.1.timestamp, r.1.readPos == r.1.writePos)) =
    some ([0, 1], true) := by
  decide

/-- An 8-byte object with a destructor. -/
def objectArg : Arg := ⟨classType, .obj 7, rfl⟩

/-- A registry whose every call site logs one such object. -/
def objectRegistry (_ : Nat) : Option Metadata :=
  some ⟨MacroMetadata.new false [] [] .info .log, [classType]⟩

/-- Two calls logging an object each, then two reads. -/
def objectRun : List QueueStep :=
  [.produce infoLogger ⟨0, 0, [objectArg]⟩, .produce infoLogger ⟨0, 1, [objectArg]⟩, .consume,
   .consume]

/-- The run of `objectRun` from an empty queue. -/
theorem queueRun_destroys_once_objects :
    ∃ s' outs,
      Queue.run (fun _ _ => ⟨[], none⟩) objectRegistry objectRun ⟨blankMem, 0, 0⟩ =
        some (s', outs) ∧
      (⟨blankMem, 0, 0⟩ : Queue).readPos ≤ s'.readPos ∧
      (outs.flatMap (·.2.destroyed)).Pairwise (· < ·) ∧
      ∀ x ∈ outs.flatMap (·.2.destroyed),
        (⟨blankMem, 0, 0⟩ : Queue).readPos ≤ x ∧ x < s'.readPos := by
  obtain ⟨⟨s', outs⟩, h⟩ := Option.isSome_iff_exists.1
    (by decide :
      (Queue.run (fun _ _ => ⟨[], none⟩) objectRegistry objectRun ⟨blankMem, 0, 0⟩).isSome)
  exact ⟨s', outs, h, queueRun_destroys_once _ objectRegistry objectRun _ s' outs h⟩

/-- The backend destroys the two objects, at 24 and at 56. -/
example : (Queue.run (fun _ _ => ⟨[], none⟩) objectRegistry objectRun ⟨blankMem, 0, 0⟩).map
    (fun r => r.2.flatMap (·.2.destroyed)) = some [24, 56] := by
  decide

end Quill
