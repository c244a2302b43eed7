/-
# `Logger::log` and the other producer-side operations of a logger

`Logger::log` (`Logger.h`) sizes a record with `get_args_sizes`, reserves
`sizeof(Header) + get_args_sizes(...)` bytes with `prepare_write`, builds the `Header` at the
reserved pointer aligned to `alignof(Header)`, encodes the arguments after it with `encode_args`
and publishes `write_buffer - write_begin` bytes with `commit_write`.

The queue is not among the sources.  `prepare_write` is a parameter, giving the pointer it
returns for a size, or `none` for the `nullptr` of a full bounded queue; `Logger.log` returns what
it wrote and the count it passed to `commit_write`.  The results:

* `log_eq`: `log` builds the header at `alignPointer 8 w` and stores the arguments after it as
  `storeArgs` lays them out, and commits up to their end;
* `log_commit_bounds`: when the size fits in `uint32_t`, the committed count is `total_size` plus
  the padding `encode_args` inserts, at most `alignof(Arg) - 1` bytes per argument;
* `log_overruns_reservation`: `get_args_sizes` leaves that padding out, so `log` commits 32 bytes
  into a 30-byte reservation when an `int` follows a one-character string literal;
* `log_wraps_total_size`: `total_size` wraps modulo `2^32`, so a `std::string` of `2^32 - 25`
  bytes reserves 0 bytes while `log` writes and commits `2^32`.
-/
import Quill.Codec
import Quill.MacroMetadata

set_option autoImplicit false

namespace Quill

/-! ## The logger's level -/

/-- The state of a `quill::Logger` that its operations read and write. -/
structure Logger where
  /-- `std::addressof(_logger_details)`, which every header the logger writes carries. -/
  loggerDetails : Nat
  /-- `_log_level`. -/
  logLevel : LogLevel
  /-- The backtrace flush level `init_backtrace` stores in `_logger_details`. -/
  backtraceFlushLevel : LogLevel

namespace Logger

/-- `set_log_level(log_level)`: `LogLevel::Backtrace` is refused with a `QuillError`, any other
level is stored. -/
def setLogLevel (l : Logger) (logLevel : LogLevel) : Except String Logger :=
  if logLevel = .backtrace then
    .error "LogLevel::Backtrace is only used internally. Please don't use it."
  else
    .ok { l with logLevel := logLevel }

/-- `should_log(log_statement_level)`: `log_statement_level >= log_level()`. -/
def shouldLog (l : Logger) (logStatementLevel : LogLevel) : Bool :=
  decide (l.logLevel ≤ logStatementLevel)

end Logger

/-! ## `Logger::log` -/

/-- One call `logger.log<TLogMacroMetadata>(format_string, fmt_args...)`. -/
structure LogCall where
  /-- `get_metadata_ptr<TLogMacroMetadata, FmtArgs...>`: the address of the call site's
  static `Metadata`. -/
  metadata : Nat
  /-- The clock reading the `Header` takes when it is built. -/
  timestamp : Nat
  /-- `fmt_args...`. -/
  args : List Arg

/-- What one call of `Logger::log` did to the queue. -/
inductive LogOutcome where
  /-- `prepare_write` returned `nullptr`: the thread context counts a dropped message and
  nothing is written. -/
  | dropped
  /-- The record was written into `m` from `write_begin`, and `commit_write(n)` was called. -/
  | committed (m : Mem) (writeBegin n : Nat)

/-- `uint32_t total_size = sizeof(detail::Header) + static_cast<uint32_t>(argsSizes)`. -/
def totalSize (argsSizes : Nat) : Nat := (Header.size + argsSizes % 2 ^ 32) % 2 ^ 32

/-- `Logger::log<TLogMacroMetadata>(format_string, fmt_args...)`, with the queue's
`prepare_write`. -/
def Logger.log (prepareWrite : Nat → Option Nat) (l : Logger) (c : LogCall) (m : Mem) :
    Option LogOutcome := do
  let (argsSizes, cStringSizes) ←
    getArgsSizes 0 (CArray.uninit (max (cStringCount (c.args.map Arg.type)) 1)) c.args
  match prepareWrite (totalSize argsSizes) with
  | none => pure .dropped
  | some writeBegin =>
    let writeBuffer := alignPointer Header.align writeBegin
    let m := m.write writeBuffer (.header ⟨c.metadata, l.loggerDetails, c.timestamp⟩)
    let (m, writeBuffer) ← encodeArgs cStringSizes 0 c.args m (writeBuffer + Header.size)
    pure (.committed m writeBegin (writeBuffer - writeBegin))

/-! ## The record `log` writes -/

/-- The header `log` builds for call `c` of logger `l`. -/
def LogCall.header (c : LogCall) (l : Logger) : Header :=
  ⟨c.metadata, l.loggerDetails, c.timestamp⟩

/-- Where a record written from `w` puts its arguments: after the header, which sits at `w`
aligned to `alignof(Header)`. -/
def argsStart (w : Nat) : Nat := alignPointer Header.align w + Header.size

/-- The end of the record call `c` writes from `w`. -/
def recordEnd (c : LogCall) (w : Nat) : Nat := argsEnd c.args (argsStart w)

/-- The buffer once call `c` of `l` has written its record from `w`. -/
def storeRecord (l : Logger) (c : LogCall) (m : Mem) (w : Nat) : Mem :=
  storeArgs c.args (m.write (alignPointer Header.align w) (.header (c.header l))) (argsStart w)

theorem argsStart_of_aligned {w : Nat} (h : w % Header.align = 0) : argsStart w = w + 24 := by
  rw [argsStart, alignPointer_of_mod (by decide) h]
  rfl

theorem le_argsStart (w : Nat) : w + Header.size ≤ argsStart w :=
  Nat.add_le_add_right (le_alignPointer w (by decide)) _

theorem le_recordEnd (c : LogCall) (w : Nat) : argsStart w ≤ recordEnd c w := le_argsEnd _ _

/-- A record ends past its `write_begin`. -/
theorem self_le_recordEnd (c : LogCall) (w : Nat) : w ≤ recordEnd c w :=
  le_trans (le_trans (Nat.le_add_right w _) (le_argsStart w)) (le_recordEnd c w)

/-- The header sits before the arguments. -/
theorem storeRecord_header (l : Logger) (c : LogCall) (m : Mem) (w : Nat) :
    storeRecord l c m w (alignPointer Header.align w) = .header (c.header l) := by
  rw [storeRecord, storeArgs_of_lt _ _ (by simp only [argsStart, Header.size]; omega)]
  simp

theorem holds_storeRecord (l : Logger) (c : LogCall) (m : Mem) (w : Nat) :
    Holds (storeRecord l c m w) c.args (argsStart w) :=
  holds_storeArgs _ _ _

/-- Writing a record from `w` leaves everything below `w` alone. -/
theorem storeRecord_of_lt (l : Logger) (c : LogCall) (m : Mem) {w q : Nat} (h : q < w) :
    storeRecord l c m w q = m q := by
  have := le_argsStart w
  rw [storeRecord, storeArgs_of_lt _ _ (by omega), Mem.write_apply,
    if_neg (by have := le_alignPointer w (by decide : 0 < Header.align); omega)]

/-- Writing a record from `w` leaves everything from its end on alone. -/
theorem storeRecord_of_le (l : Logger) (c : LogCall) (m : Mem) {w q : Nat}
    (h : recordEnd c w ≤ q) : storeRecord l c m w q = m q := by
  have := le_recordEnd c w
  rw [storeRecord, storeArgs_of_le _ _ h, Mem.write_apply,
    if_neg (by simp only [argsStart, Header.size] at this; omega)]

/-- **`log` writes the record.**  When `prepare_write` grants `w`, `log` builds the header at `w`
aligned to `alignof(Header)`, stores the arguments after it as `storeArgs` lays them out, and
commits the bytes from `w` to their end. -/
theorem log_eq (prepareWrite : Nat → Option Nat) (l : Logger) (c : LogCall) (m : Mem) {w : Nat}
    (h : prepareWrite (totalSize (argsSize c.args % 2 ^ 64)) = some w) :
    l.log prepareWrite c m = some (.committed (storeRecord l c m w) w (recordEnd c w - w)) := by
  rw [Logger.log, getArgsSizes_uninit]
  simp only [Option.bind_eq_bind, Option.some_bind, h]
  rw [encodeArgs_uninit_fill]
  rfl

/-- **Every record and every argument is aligned.**  Whatever pointer `prepare_write` grants,
`log` builds the header at a multiple of `alignof(Header)` at or after `write_begin`, and stores
every argument after the header at a multiple of its own `alignof`, inside the bytes it
commits. -/
theorem log_aligned (prepareWrite : Nat → Option Nat) (l : Logger) (c : LogCall) (m : Mem)
    {w : Nat} (h : prepareWrite (totalSize (argsSize c.args % 2 ^ 64)) = some w) :
    ∃ m' n, l.log prepareWrite c m = some (.committed m' w n) ∧
      w ≤ alignPointer Header.align w ∧ alignPointer Header.align w % Header.align = 0 ∧
      m' (alignPointer Header.align w) = .header (c.header l) ∧
      ∀ x ∈ layout c.args (argsStart w), x.1 % x.2.type.align = 0 ∧ argsStart w ≤ x.1 ∧
        x.1 + x.2.encodedSize ≤ w + n ∧ x.2.StoredAt m' x.1 := by
  refine ⟨_, _, log_eq prepareWrite l c m h, le_alignPointer w (by decide),
    alignPointer_mod _ _, storeRecord_header l c m w, fun x hx => ⟨layout_aligned _ _ x hx,
      le_of_mem_layout hx, ?_, (holds_storeRecord l c m w).storedAt_of_mem hx⟩⟩
  rw [Nat.add_sub_cancel' (self_le_recordEnd c w)]
  exact add_le_argsEnd_of_mem hx

/-- A full queue drops the call and nothing is written. -/
theorem log_of_full (prepareWrite : Nat → Option Nat) (l : Logger) (c : LogCall) (m : Mem)
    (h : prepareWrite (totalSize (argsSize c.args % 2 ^ 64)) = none) :
    l.log prepareWrite c m = some .dropped := by
  rw [Logger.log, getArgsSizes_uninit]
  simp only [Option.bind_eq_bind, Option.some_bind, h]
  rfl

/-- The size `log` reserves is exact when it fits in `uint32_t`. -/
theorem totalSize_of_lt {n : Nat} (h : Header.size + n < 2 ^ 32) :
    totalSize (n % 2 ^ 64) = Header.size + n := by
  have h32 : n < 2 ^ 32 := by
    simp only [Header.size] at h
    omega
  rw [totalSize, Nat.mod_eq_of_lt (by omega : n < 2 ^ 64), Nat.mod_eq_of_lt h32,
    Nat.mod_eq_of_lt h]

/-- A record ends at most the header's alignment padding, `total_size` and the arguments'
padding past its `write_begin`, when its size fits in `uint32_t`. -/
theorem recordEnd_le (c : LogCall) (w : Nat) (hfit : Header.size + argsSize c.args < 2 ^ 32) :
    recordEnd c w ≤
      w + (Header.align - 1) + totalSize (argsSize c.args % 2 ^ 64) + maxPadding c.args := by
  have hb := (argsEnd_bounds c.args (argsStart w)).2
  have ha := alignPointer_lt w (by decide : 0 < Header.align)
  rw [totalSize_of_lt hfit, recordEnd]
  simp only [argsStart, Header.size, Header.align] at hb ha ⊢
  omega

/-- **What `log` commits.**  When the record's size fits in `uint32_t` and `prepare_write`
returns a pointer aligned to `alignof(Header)`, `total_size` is the exact size of the header and
the arguments, and `log` commits `total_size` plus the padding `encode_args` inserts: at least
`total_size` and at most `alignof(Arg) - 1` more bytes per argument. -/
theorem log_commit_bounds (prepareWrite : Nat → Option Nat) (l : Logger) (c : LogCall) (m : Mem)
    {w : Nat} (hfit : Header.size + argsSize c.args < 2 ^ 32)
    (h : prepareWrite (Header.size + argsSize c.args) = some w) (ha : w % Header.align = 0) :
    totalSize (argsSize c.args % 2 ^ 64) = Header.size + argsSize c.args ∧
      ∃ m' n, l.log prepareWrite c m = some (.committed m' w n) ∧
        Header.size + argsSize c.args ≤ n ∧
        n ≤ Header.size + argsSize c.args + maxPadding c.args := by
  have ht := totalSize_of_lt hfit
  refine ⟨ht, _, _, log_eq prepareWrite l c m (ht ▸ h), ?_⟩
  have hb := argsEnd_bounds c.args (w + 24)
  rw [recordEnd, argsStart_of_aligned ha]
  simp only [Header.size] at hb ⊢
  omega

/-! ## The padding `get_args_sizes` leaves out -/

/-- `"a"` followed by `42`: `encode_args` pads the `int` to a multiple of 4. -/
def paddedArgs : List Arg :=
  [⟨charArray2, .str [97], .inl ⟨rfl, by decide⟩⟩,
   ⟨int32, .raw [42, 0, 0, 0], ⟨rfl, rfl⟩⟩]

/-- A logger at the default level. -/
def infoLogger : Logger := ⟨0, .info, .none⟩

/-- `log("{}{}", "a", 42)` into a queue that grants the request at 0. -/
theorem log_commit_bounds_padded :
    Header.size + argsSize paddedArgs < 2 ^ 32 ∧
      (fun _ => some 0 : Nat → Option Nat) (Header.size + argsSize paddedArgs) = some 0 ∧
      0 % Header.align = 0 ∧
      totalSize (argsSize paddedArgs % 2 ^ 64) = Header.size + argsSize paddedArgs ∧
      ∃ m' n, infoLogger.log (fun _ => some 0) ⟨0, 0, paddedArgs⟩ blankMem =
          some (.committed m' 0 n) ∧
        Header.size + argsSize paddedArgs ≤ n ∧
        n ≤ Header.size + argsSize paddedArgs + maxPadding paddedArgs :=
  ⟨by decide, rfl, rfl,
    log_commit_bounds (fun _ => some 0) infoLogger ⟨0, 0, paddedArgs⟩ blankMem (by decide) rfl
      rfl⟩

/-- `log("{}{}", "a", 42)` into a queue that grants the request at 3. -/
theorem log_aligned_padded :
    (fun _ => some 3 : Nat → Option Nat) (totalSize (argsSize paddedArgs % 2 ^ 64)) = some 3 ∧
      ∃ m' n, infoLogger.log (fun _ => some 3) ⟨0, 0, paddedArgs⟩ blankMem =
          some (.committed m' 3 n) ∧
        3 ≤ alignPointer Header.align 3 ∧ alignPointer Header.align 3 % Header.align = 0 ∧
        m' (alignPointer Header.align 3) =
          .header (LogCall.header ⟨0, 0, paddedArgs⟩ infoLogger) ∧
        ∀ x ∈ layout paddedArgs (argsStart 3), x.1 % x.2.type.align = 0 ∧
          argsStart 3 ≤ x.1 ∧
          x.1 + x.2.encodedSize ≤ 3 + n ∧ x.2.StoredAt m' x.1 :=
  ⟨rfl, log_aligned (fun _ => some 3) infoLogger ⟨0, 0, paddedArgs⟩ blankMem rfl⟩

/-- **`log` writes past its reservation.**  For `"a"` followed by an `int`, `get_args_sizes`
returns 6, so `log` reserves 30 bytes; `encode_args` puts the `int` at offset 28, after two bytes
of padding, and `log` commits 32 bytes. -/
theorem log_overruns_reservation (prepareWrite : Nat → Option Nat) (l : Logger)
    (metadata timestamp : Nat) (m : Mem) {w : Nat} (hw : prepareWrite 30 = some w)
    (ha : w % 8 = 0) :
    totalSize (argsSize paddedArgs % 2 ^ 64) = 30 ∧
      ∃ m', l.log prepareWrite ⟨metadata, timestamp, paddedArgs⟩ m =
        some (.committed m' w 32) := by
  have ht : totalSize (argsSize paddedArgs % 2 ^ 64) = 30 := by decide
  have hend : recordEnd ⟨metadata, timestamp, paddedArgs⟩ w = w + 32 := by
    simp [recordEnd, argsStart_of_aligned ha, paddedArgs, argsEnd, alignPointer, Arg.encodedSize,
      charArray2, int32, ArgType.isStringLike, isTypeOfCString, isTypeOfString, Arg.chars]
    omega
  refine ⟨ht, ?_⟩
  rw [log_eq prepareWrite l _ m (by rw [ht]; exact hw), hend, Nat.add_sub_cancel_left]
  exact ⟨_, rfl⟩

/-- The reservation at 0. -/
theorem log_overruns_reservation_at_zero :
    (fun _ => some 0 : Nat → Option Nat) 30 = some 0 ∧ 0 % 8 = 0 ∧
      totalSize (argsSize paddedArgs % 2 ^ 64) = 30 ∧
      ∃ m', infoLogger.log (fun _ => some 0) ⟨0, 0, paddedArgs⟩ blankMem =
        some (.committed m' 0 32) :=
  ⟨rfl, rfl, log_overruns_reservation (fun _ => some 0) infoLogger 0 0 blankMem rfl rfl⟩

/-! ## The `uint32_t` size -/

/-- A `std::string` argument. -/
def stringArg (s : List UInt8) : Arg := ⟨stdString, .str s, .inr rfl⟩

/-- **`total_size` wraps.**  For one `std::string` of `2^32 - 25` bytes, `get_args_sizes` returns
`2^32 - 24` and `total_size` is 0; `log` still writes the whole record and commits `2^32`
bytes. -/
theorem log_wraps_total_size (prepareWrite : Nat → Option Nat) (l : Logger)
    (metadata timestamp : Nat) (m : Mem) (s : List UInt8) (hs : s.length = 2 ^ 32 - 25) {w : Nat}
    (hw : prepareWrite 0 = some w) (ha : w % 8 = 0) :
    argsSize [stringArg s] % 2 ^ 64 = 2 ^ 32 - 24 ∧
      totalSize (argsSize [stringArg s] % 2 ^ 64) = 0 ∧
      ∃ m', l.log prepareWrite ⟨metadata, timestamp, [stringArg s]⟩ m =
        some (.committed m' w (2 ^ 32)) := by
  have hsize : argsSize [stringArg s] = 2 ^ 32 - 24 := by
    simp [argsSize, Arg.encodedSize, stringArg, stdString, ArgType.isStringLike,
      isTypeOfCString, isTypeOfString, Arg.chars, hs]
  have ht : totalSize (argsSize [stringArg s] % 2 ^ 64) = 0 := by
    rw [hsize]
    rfl
  have hend : recordEnd ⟨metadata, timestamp, [stringArg s]⟩ w = w + 2 ^ 32 := by
    have h1 := hsize
    simp only [argsSize, Nat.add_zero] at h1
    simp only [recordEnd, argsStart_of_aligned ha, argsEnd, h1]
    rw [alignPointer_of_mod (stringArg s).type.align_pos
      (by simp only [stringArg, stdString]; omega)]
    omega
  refine ⟨by rw [hsize]; rfl, ht, ?_⟩
  rw [log_eq prepareWrite l _ m (by rw [ht]; exact hw), hend, Nat.add_sub_cancel_left]
  exact ⟨_, rfl⟩

/-- A string of `2^32 - 25` one-bytes, with the reservation at 0. -/
theorem log_wraps_total_size_at_zero :
    (List.replicate (2 ^ 32 - 25) (1 : UInt8)).length = 2 ^ 32 - 25 ∧
      (fun _ => some 0 : Nat → Option Nat) 0 = some 0 ∧ 0 % 8 = 0 ∧
      argsSize [stringArg (List.replicate (2 ^ 32 - 25) 1)] % 2 ^ 64 = 2 ^ 32 - 24 ∧
      totalSize (argsSize [stringArg (List.replicate (2 ^ 32 - 25) 1)] % 2 ^ 64) = 0 ∧
      ∃ m', infoLogger.log (fun _ => some 0)
          ⟨0, 0, [stringArg (List.replicate (2 ^ 32 - 25) 1)]⟩ blankMem =
        some (.committed m' 0 (2 ^ 32)) :=
  ⟨List.length_replicate _ _, rfl, rfl,
    log_wraps_total_size (fun _ => some 0) infoLogger 0 0 blankMem _ (List.length_replicate _ _)
      rfl rfl⟩

/-! ## Backtrace control -/

/-- The four bytes of a `uint32_t` on a little-endian target. -/
def uint32Bytes (v : Nat) : List UInt8 :=
  [v.toUInt8, (v / 2 ^ 8).toUInt8, (v / 2 ^ 16).toUInt8, (v / 2 ^ 24).toUInt8]

/-- The value of four bytes on a little-endian target. -/
def decodeUInt32 (bs : List UInt8) : Nat := bs.foldr (fun b acc => b.toNat + 2 ^ 8 * acc) 0

theorem decodeUInt32_uint32Bytes (v : Nat) : decodeUInt32 (uint32Bytes v) = v % 2 ^ 32 := by
  simp [decodeUInt32, uint32Bytes, Nat.toUInt8, UInt8.toNat, UInt8.ofNat, Fin.ofNat]
  omega

/-- The argument `uint32_t capacity`. -/
def uint32Arg (v : Nat) : Arg := ⟨uint32, .raw (uint32Bytes v), ⟨rfl, rfl⟩⟩

/-- `init_backtrace(capacity, backtrace_flush_level)`: logs `"{}"` with `capacity` from the
call site whose metadata has the event `InitBacktrace`, then stores the flush level. -/
def Logger.initBacktrace (prepareWrite : Nat → Option Nat) (l : Logger)
    (metadata timestamp capacity : Nat) (backtraceFlushLevel : LogLevel) (m : Mem) :
    Option (LogOutcome × Logger) := do
  let o ← l.log prepareWrite ⟨metadata, timestamp, [uint32Arg capacity]⟩ m
  pure (o, { l with backtraceFlushLevel := backtraceFlushLevel })

/-- `flush_backtrace()`: logs `""` with no argument from the call site whose metadata has the
event `FlushBacktrace`. -/
def Logger.flushBacktrace (prepareWrite : Nat → Option Nat) (l : Logger)
    (metadata timestamp : Nat) (m : Mem) : Option LogOutcome :=
  l.log prepareWrite ⟨metadata, timestamp, []⟩ m

end Quill
