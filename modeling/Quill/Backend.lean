/-
# The backend reads back what the producers wrote

The backend worker is not among the sources.  As the spec describes it, it reads a thread's
queue record by record: it aligns the read position to `alignof(Header)`, reads the `Header`
there, and calls `header.metadata->format_to_fn` with the call site's message format on the
bytes after it; the pointer `format_to_fn` returns is where the next record begins.

`logRun` writes calls of `Logger::log` back to back, each record from where the previous
`commit_write` ended, and `readRun` reads them.  The main result:

* `logRun_read_back`: for every sequence of calls whose owned strings hold no zero byte, the
  reader recovers every record in order: the header `log` built, every argument at the address
  `encode_args` wrote it, what `vformat_to` makes of the arguments' values, and, as the pointer
  `format_to_fn` returns, the record's `write_begin` plus the count `log` committed.

The values are the original ones except for a C string, which `decodeArgs` hands to fmt as a
`string_view` where the call passed a `char const*`: under the `p` presentation fmt prints the
one and rejects the other (`cString_pointer_field_throws`).

It is assembled from `readRecord_of_agree` (one record, read from any buffer that agrees with the
one `log` wrote on the record's bytes) and `logRun_cons` with `logRun_frame` (a later record
leaves the earlier ones alone).
-/
import Quill.Logger

set_option autoImplicit false

namespace Quill

/-! ## Call sites -/

/-- `quill::Metadata`: the call site's macro metadata and `format_to_fn`, the instance
`format_to<Args...>`, which the type list `Args...` determines. -/
structure Metadata where
  macroMetadata : MacroMetadata
  formatToFn : List ArgType

/-! ## The reader -/

/-- Modelled from the spec: the backend decodes the record at `q`.  It aligns `q` to
`alignof(Header)`, reads the `Header` there and calls `header.metadata->format_to_fn` with the
message format on the bytes after it, formatting into an empty buffer. -/
def readRecord (vformatTo : List Char → List FmtValue → Formatted)
    (registry : Nat → Option Metadata) (m : Mem) (readEnd q : Nat) :
    Option (Header × FormatOutcome) := do
  let q := alignPointer Header.align q
  match m q with
  | .header h => do
    let md ← registry h.metadata
    let o ← formatTo vformatTo md.formatToFn md.macroMetadata.messageFormat m readEnd
      (q + Header.size) []
    pure (h, o)
  | _ => none

/-- Modelled from the spec: the backend decodes `k` records one after the other, each from where
`format_to_fn` returned for the previous one; an error thrown by `vformat_to` ends the run. -/
def readRun (vformatTo : List Char → List FmtValue → Formatted)
    (registry : Nat → Option Metadata) (m : Mem) (readEnd : Nat) :
    Nat → Nat → Option (List (Header × FormatOutcome))
  | 0, _ => some []
  | k + 1, q => do
    let (h, o) ← readRecord vformatTo registry m readEnd q
    match o.ret with
    | .ok next => do
      let rest ← readRun vformatTo registry m readEnd k next
      pure ((h, o) :: rest)
    | .error _ => pure [(h, o)]

/-! ## Back-to-back records -/

/-- Modelled from the spec: calls of `Logger::log` by one thread into a queue whose region has
room for all of them, so that `prepare_write` grants each request where the previous
`commit_write` ended.  Returns the buffer and the count each call committed. -/
def logRun : List (Logger × LogCall) → Mem → Nat → Option (Mem × List Nat)
  | [], m, _ => some (m, [])
  | (l, c) :: calls, m, w => do
    match ← l.log (fun _ => some w) c m with
    | .dropped => none
    | .committed m _ n => do
      let (m, ns) ← logRun calls m (w + n)
      pure (m, n :: ns)

/-- The queue's write position after the commits `ns` from `w`. -/
def commitEnd (w : Nat) : List Nat → Nat
  | [] => w
  | n :: ns => commitEnd (w + n) ns

/-- What the reader has to recover of calls written back to back from `w` with the committed
counts `ns`: for each record the header `log` built, each argument's format argument at the
address `encode_args` wrote it, and in `out` the text `vformat_to` appends for the call site's
format and the arguments' values, each C string passed as a `string_view`.  When `vformat_to`
returns, every argument with a destructor is destroyed and `format_to_fn` returns `write_begin`
plus the count committed, where the next record starts; when it throws, `out` keeps the text
before the failing field, nothing is destroyed, and the run ends. -/
def Recovers (vformatTo : List Char → List FmtValue → Formatted)
    (registry : Nat → Option Metadata) :
    List (Logger × LogCall) → List Nat → Nat → List (Header × FormatOutcome) → Prop
  | [], _, _, rs => rs = []
  | (l, c) :: calls, n :: ns, w, (h, o) :: rs =>
    h = c.header l ∧ o.args = (layout c.args (argsStart w)).map (fun x => x.2.fmtArg x.1) ∧
      ∃ md, registry c.metadata = some md ∧
        o.out = (vformatTo md.macroMetadata.messageFormat (c.args.map Arg.decodedValue)).text ∧
        match (vformatTo md.macroMetadata.messageFormat (c.args.map Arg.decodedValue)).error with
        | some e => o.ret = .error e ∧ o.destroyed = [] ∧ rs = []
        | none => o.ret = .ok (w + n) ∧ o.destroyed = dtorAddrs c.args (argsStart w) ∧
            Recovers vformatTo registry calls ns (w + n) rs
  | _, _, _, _ => False

/-- One more call writes its record and commits up to its end. -/
theorem logRun_cons (l : Logger) (c : LogCall) (calls : List (Logger × LogCall)) (m : Mem)
    (w : Nat) :
    logRun ((l, c) :: calls) m w = (logRun calls (storeRecord l c m w) (recordEnd c w)).map
      fun r => (r.1, (recordEnd c w - w) :: r.2) := by
  rw [logRun, log_eq (fun _ => some w) l c m rfl]
  simp only [Option.bind_eq_bind, Option.some_bind, Nat.add_sub_cancel' (self_le_recordEnd c w)]
  cases logRun calls (storeRecord l c m w) (recordEnd c w) <;> rfl

/-- A run leaves everything below its start alone. -/
theorem logRun_frame {calls : List (Logger × LogCall)} {m m' : Mem} {w : Nat} {ns : List Nat}
    (h : logRun calls m w = some (m', ns)) {q : Nat} (hq : q < w) : m' q = m q := by
  induction calls generalizing m w ns with
  | nil =>
    cases h
    rfl
  | cons x calls ih =>
    obtain ⟨l, c⟩ := x
    rw [logRun_cons] at h
    obtain ⟨⟨m'', ns'⟩, hrun, hr⟩ := Option.map_eq_some'.1 h
    cases hr
    have := le_trans (le_argsStart w) (le_recordEnd c w)
    rw [ih hrun (by omega), storeRecord_of_lt l c m hq]

theorem le_commitEnd (w : Nat) (ns : List Nat) : w ≤ commitEnd w ns := by
  induction ns generalizing w with
  | nil => exact le_rfl
  | cons n ns ih => exact le_trans (Nat.le_add_right w n) (ih _)

/-- **Reading one record.**  From a buffer that agrees with the one `log` wrote from `w` on the
record's bytes, the reader gets the header `log` built and what `format_to` gives for the
arguments `encode_args` stored. -/
theorem readRecord_of_agree (vformatTo : List Char → List FmtValue → Formatted)
    (registry : Nat → Option Metadata) {l : Logger} {c : LogCall} {m m' : Mem}
    {w readEnd : Nat} {md : Metadata} (hmd : registry c.metadata = some md)
    (hty : md.formatToFn = c.args.map Arg.type) (hz : ∀ a ∈ c.args, a.ZeroFree)
    (hend : recordEnd c w ≤ readEnd)
    (hm : ∀ q, w ≤ q → q < recordEnd c w → m' q = storeRecord l c m w q) :
    readRecord vformatTo registry m' readEnd w = some (c.header l,
      match (vformatTo md.macroMetadata.messageFormat (c.args.map Arg.decodedValue)).error with
      | some e => ⟨.error e,
          [] ++ (vformatTo md.macroMetadata.messageFormat (c.args.map Arg.decodedValue)).text,
          (layout c.args (argsStart w)).map (fun x => x.2.fmtArg x.1), []⟩
      | none => ⟨.ok (recordEnd c w),
          [] ++ (vformatTo md.macroMetadata.messageFormat (c.args.map Arg.decodedValue)).text,
          (layout c.args (argsStart w)).map (fun x => x.2.fmtArg x.1),
          dtorAddrs c.args (argsStart w)⟩) := by
  have hq := le_alignPointer w (by decide : 0 < Header.align)
  have hs := le_recordEnd c w
  have hheader : m' (alignPointer Header.align w) = .header (c.header l) := by
    rw [hm _ hq (by simp only [argsStart, Header.size] at hs; omega), storeRecord_header]
  have hholds : Holds m' c.args (argsStart w) :=
    (holds_storeRecord l c m w).congr fun i h1 h2 =>
      hm i (by simp only [argsStart, Header.size] at h1; omega) h2
  simp only [readRecord, hheader, LogCall.header, hmd, Option.bind_eq_bind, Option.some_bind]
  rw [hty, show alignPointer Header.align w + Header.size = argsStart w from rfl,
    formatTo_of_holds vformatTo c.args _ [] hholds hz hend]
  rfl

/-- **One more record.**  When the buffer agrees with the record `log` wrote for `(l, c)` from
`w`, and the reader recovers the records that follow it from the record's end, the reader
recovers them all from `w`. -/
theorem readRun_cons (vformatTo : List Char → List FmtValue → Formatted)
    (registry : Nat → Option Metadata) {l : Logger} {c : LogCall}
    {calls : List (Logger × LogCall)} {ns : List Nat} {m m' : Mem} {w readEnd : Nat}
    {rs : List (Header × FormatOutcome)} (hreg : ∃ md, registry c.metadata = some md ∧
      md.formatToFn = c.args.map Arg.type) (hz : ∀ a ∈ c.args, a.ZeroFree)
    (hend : recordEnd c w ≤ readEnd)
    (hm : ∀ q, w ≤ q → q < recordEnd c w → m' q = storeRecord l c m w q)
    (hrest : readRun vformatTo registry m' readEnd calls.length (recordEnd c w) = some rs)
    (hrecovers : Recovers vformatTo registry calls ns (recordEnd c w) rs) :
    ∃ rs', readRun vformatTo registry m' readEnd (calls.length + 1) w = some rs' ∧
      Recovers vformatTo registry ((l, c) :: calls) ((recordEnd c w - w) :: ns) w rs' := by
  obtain ⟨md, hmd, hty⟩ := hreg
  rw [readRun, readRecord_of_agree vformatTo registry hmd hty hz hend hm]
  cases hv : (vformatTo md.macroMetadata.messageFormat (c.args.map Arg.decodedValue)).error with
  | some e =>
    refine ⟨_, rfl, ?_⟩
    simp [Recovers, hv, hmd]
  | none =>
    refine ⟨_, by simp [hrest]; rfl, ?_⟩
    simp [Recovers, hv, hmd, Nat.add_sub_cancel' (self_le_recordEnd c w), hrecovers]

/-- **The backend recovers every record in order.**  For every sequence of `Logger::log` calls
by one thread, written back to back, whose call sites are registered with their `format_to<Args...>`
and whose owned strings hold no zero byte: every call commits its record, and a reader that reads
up to at least the last commit recovers each record, in order, as `Recovers` says: the header
`log` built, every argument at the address `encode_args` wrote it, the text `vformat_to` appends
for the arguments' values (each C string as a `string_view`), and the record's `write_begin` plus
the count `log` committed as the pointer `format_to_fn` returns. -/
theorem logRun_read_back (vformatTo : List Char → List FmtValue → Formatted)
    (registry : Nat → Option Metadata) (calls : List (Logger × LogCall))
    (hreg : ∀ x ∈ calls, ∃ md, registry x.2.metadata = some md ∧
      md.formatToFn = x.2.args.map Arg.type)
    (hz : ∀ x ∈ calls, ∀ a ∈ x.2.args, a.ZeroFree) (m : Mem) (w : Nat) :
    ∃ m' ns, logRun calls m w = some (m', ns) ∧ ∀ readEnd, commitEnd w ns ≤ readEnd →
      ∃ rs, readRun vformatTo registry m' readEnd calls.length w = some rs ∧
        Recovers vformatTo registry calls ns w rs := by
  induction calls generalizing m w with
  | nil => exact ⟨m, [], rfl, fun _ _ => ⟨[], rfl, rfl⟩⟩
  | cons x calls ih =>
    obtain ⟨l, c⟩ := x
    obtain ⟨m', ns, hrun, hread⟩ := ih (fun x hx => hreg x (List.mem_cons_of_mem _ hx))
      (fun x hx => hz x (List.mem_cons_of_mem _ hx)) (storeRecord l c m w) (recordEnd c w)
    refine ⟨m', _, by rw [logRun_cons, hrun]; rfl, fun readEnd hend => ?_⟩
    simp only [commitEnd, Nat.add_sub_cancel' (self_le_recordEnd c w)] at hend
    obtain ⟨rs, hrs, hrecovers⟩ := hread readEnd hend
    exact readRun_cons vformatTo registry (hreg (l, c) (List.mem_cons_self _ _))
      (hz (l, c) (List.mem_cons_self _ _)) (le_trans (le_commitEnd _ ns) hend)
      (fun q _ hq => logRun_frame hrun hq) hrs hrecovers

/-- Two calls of `log("{}{}", "a", 42)` from one call site, registered at address 0. -/
def paddedRun : List (Logger × LogCall) :=
  [(infoLogger, ⟨0, 0, paddedArgs⟩), (infoLogger, ⟨0, 1, paddedArgs⟩)]

/-- The call site of `paddedRun` at address 0, with `format_to<char const[2], int>`. -/
def paddedRegistry (p : Nat) : Option Metadata :=
  if p = 0 then some ⟨MacroMetadata.new false [] [] .info .log, paddedArgs.map Arg.type⟩
  else none

/-- The two records of `paddedRun`, read back with a formatter that prints nothing. -/
theorem logRun_read_back_padded :
    (∀ x ∈ paddedRun, ∃ md, paddedRegistry x.2.metadata = some md ∧
      md.formatToFn = x.2.args.map Arg.type) ∧
    (∀ x ∈ paddedRun, ∀ a ∈ x.2.args, a.ZeroFree) ∧
    ∃ m' ns, logRun paddedRun blankMem 0 = some (m', ns) ∧
      ∀ readEnd, commitEnd 0 ns ≤ readEnd →
      ∃ rs, readRun (fun _ _ => ⟨[], none⟩) paddedRegistry m' readEnd paddedRun.length 0 = some rs ∧
        Recovers (fun _ _ => ⟨[], none⟩) paddedRegistry paddedRun ns 0 rs :=
  have hreg : ∀ x ∈ paddedRun, ∃ md, paddedRegistry x.2.metadata = some md ∧
      md.formatToFn = x.2.args.map Arg.type := by
    simp [paddedRun, paddedRegistry]
  have hz : ∀ x ∈ paddedRun, ∀ a ∈ x.2.args, a.ZeroFree := by decide
  ⟨hreg, hz, logRun_read_back _ paddedRegistry paddedRun hreg hz blankMem 0⟩

/-! ## A C string under the `p` presentation -/

/-- The string literal `"hello"`, a `char const[6]`. -/
def helloLiteral : Arg := ⟨charArray6, .str [104, 101, 108, 108, 111], .inl ⟨rfl, by decide⟩⟩

/-- The format string `{:p}`: one replacement field with the pointer presentation. -/
def pointerField : List Char := ['{', ':', 'p', '}']

/-- fmt's `vformat_to` on the format string `{:p}` with one argument, in a program whose string
literal lies at address `literal`: a `char const*` is printed as `0x` and its address in
hexadecimal, while a `string_view` has no `p` presentation, so fmt throws
`format_error("invalid type specifier")` before it appends anything.  Other format strings and
arguments are left out and append nothing. -/
def pointerFormat (literal : Nat) : List Char → List FmtValue → Formatted
  | ['{', ':', 'p', '}'], [.cString _] => ⟨['0', 'x'] ++ Nat.toDigits 16 literal, none⟩
  | ['{', ':', 'p', '}'], [.string _] => ⟨[], some "invalid type specifier"⟩
  | _, _ => ⟨[], none⟩

/-- The call `log("{:p}", "hello")`, from a call site registered at address 0. -/
def pointerRun : List (Logger × LogCall) := [(infoLogger, ⟨0, 0, [helloLiteral]⟩)]

/-- The call site of `pointerRun`, with `format_to<char const[6]>`. -/
def pointerRegistry (_ : Nat) : Option Metadata :=
  some ⟨MacroMetadata.new false [] pointerField .info .log, [charArray6]⟩

/-- **The backend does not format a C string as the call does.**  With the literal at
`0x402004`, `fmt::format("{:p}", "hello")` prints `0x402004`; the backend formats the
`string_view` `decodeArgs` builds in its place, `vformat_to` throws, and `format_to` appends
nothing to `out` and returns no pointer. -/
theorem cString_pointer_field_throws :
    pointerFormat 0x402004 pointerField ([helloLiteral].map Arg.fmtValue) =
        ⟨['0', 'x', '4', '0', '2', '0', '0', '4'], none⟩ ∧
      ((logRun pointerRun blankMem 0).bind fun r =>
        readRun (pointerFormat 0x402004) pointerRegistry r.1 (commitEnd 0 r.2) 1 0).map
          (List.map fun x => (x.2.ret.toOption, x.2.out)) = some [(none, [])] := by
  decide

/-! ## Backtrace control -/

/-- A registry whose every call site is the `InitBacktrace` one. -/
def initBacktraceRegistry (_ : Nat) : Option Metadata :=
  some ⟨MacroMetadata.new false [] [] .critical .initBacktrace, [uint32]⟩

end Quill
