/-
# The queue's buffer

`Logger::log` writes a record into the region `prepare_write` hands out, and the backend reads
it back at the same addresses.  The buffer is a map from addresses to cells: a byte, or the
start of an object constructed there with placement new (the `Header` of a record, or an
argument that is not trivially copyable).  Only the first byte of an object records it: when the
codec works as intended it never reads the rest of an object's storage as bytes.

The module also holds what the codec calls from `misc/Utilities.h` and the C library:
`align_pointer` (not among the sources, modelled from the spec), `strlen`, and the fixed-size C
arrays `c_string_sizes` and `dtor_args` that the codec's recursions index.  Undefined behaviour
(an index out of bounds, an indeterminate array element, a read of storage that holds no value
of the type read) is `none`.

Main facts:

* `Mem.readBytes_writeBytes`, `Mem.readBytes_congr`: a write is read back, and a read sees only
  the cells it covers;
* `strlen_of_readBytes`: `strlen` of a string stored with its terminator stops at its first zero
  byte, which is the terminator exactly when the string has no other (`takeWhile_ne_zero_length`);
* `le_alignPointer`, `alignPointer_lt`, `alignPointer_mod`: the aligned pointer is the least
  multiple of the alignment at or above the pointer.
-/
import Quill.Args
import Mathlib.Logic.Function.Basic

set_option autoImplicit false

namespace Quill

/-! ## Cells and memory -/

/-- `detail::Header`, constructed at the start of every record. -/
structure Header where
  /-- `Metadata const* metadata`: the call site's descriptor. -/
  metadata : Nat
  /-- `detail::LoggerDetails const* logger_details`. -/
  loggerDetails : Nat
  /-- `uint64_t timestamp`, read from `rdtsc()` or the system clock when the header is built. -/
  timestamp : Nat
  deriving DecidableEq, Repr

/-- `sizeof(detail::Header)` on a 64-bit target: two pointers and a `uint64_t`. -/
def Header.size : Nat := 24

/-- `alignof(detail::Header)` on a 64-bit target. -/
def Header.align : Nat := 8

/-- What one address of the buffer holds. -/
inductive Cell where
  | byte (b : UInt8)
  | header (h : Header)
  | object (t : ArgType) (v : Nat)
  deriving DecidableEq

/-- The memory the queue's buffer lives in. -/
def Mem := Nat → Cell

/-- A buffer of zero bytes. -/
def blankMem : Mem := fun _ => .byte 0

namespace Mem

/-- Store one cell. -/
def write (m : Mem) (p : Nat) (c : Cell) : Mem := Function.update m p c

/-- `memcpy` of the bytes `bs` to `p`. -/
def writeBytes (m : Mem) (p : Nat) : List UInt8 → Mem
  | [] => m
  | b :: bs => (m.write p (.byte b)).writeBytes (p + 1) bs

/-- Read `n` bytes at `p`; `none` if one of the cells holds an object. -/
def readBytes (m : Mem) : Nat → Nat → Option (List UInt8)
  | _, 0 => some []
  | p, n + 1 => match m p with
    | .byte b => (b :: ·) <$> m.readBytes (p + 1) n
    | _ => none

@[simp] theorem write_apply (m : Mem) (p q : Nat) (c : Cell) :
    m.write p c q = if q = p then c else m q := by
  simp [write, Function.update_apply]

theorem writeBytes_of_lt (m : Mem) {p q : Nat} (bs : List UInt8) (h : q < p) :
    m.writeBytes p bs q = m q := by
  induction bs generalizing m p with
  | nil => rfl
  | cons b bs ih => simp [writeBytes, ih _ (Nat.lt_succ_of_lt h), Nat.ne_of_lt h]

theorem writeBytes_of_le (m : Mem) {p q : Nat} (bs : List UInt8) (h : p + bs.length ≤ q) :
    m.writeBytes p bs q = m q := by
  induction bs generalizing m p with
  | nil => rfl
  | cons b bs ih =>
    simp only [List.length_cons] at h
    rw [writeBytes, ih _ (by omega), write_apply, if_neg (by omega)]

theorem writeBytes_apply (m : Mem) (p : Nat) (bs : List UInt8) {i : Nat} (h : i < bs.length) :
    m.writeBytes p bs (p + i) = .byte bs[i] := by
  induction bs generalizing m p i with
  | nil => simp at h
  | cons b bs ih =>
    cases i with
    | zero => simp [writeBytes, writeBytes_of_lt]
    | succ i =>
      simp only [writeBytes, List.getElem_cons_succ]
      rw [show p + (i + 1) = p + 1 + i by omega]
      exact ih _ _ (by simpa using h)

theorem writeBytes_append (m : Mem) (p : Nat) (bs cs : List UInt8) :
    m.writeBytes p (bs ++ cs) = (m.writeBytes p bs).writeBytes (p + bs.length) cs := by
  induction bs generalizing m p with
  | nil => rfl
  | cons b bs ih => simp [writeBytes, ih, Nat.add_assoc, Nat.add_comm 1]

/-- `memcpy` of a string followed by storing its terminator. -/
theorem writeBytes_append_single (m : Mem) (p : Nat) (bs : List UInt8) (b : UInt8) :
    m.writeBytes p (bs ++ [b]) = (m.writeBytes p bs).write (p + bs.length) (.byte b) := by
  rw [writeBytes_append]
  rfl

/-- A read sees only the cells it covers. -/
theorem readBytes_congr {m m' : Mem} {p n : Nat} (h : ∀ i < n, m (p + i) = m' (p + i)) :
    m.readBytes p n = m'.readBytes p n := by
  induction n generalizing p with
  | zero => rfl
  | succ n ih =>
    have h0 := h 0 (Nat.succ_pos n)
    have hs : m.readBytes (p + 1) n = m'.readBytes (p + 1) n :=
      ih fun i hi => by simpa [Nat.add_assoc, Nat.add_comm 1] using h (i + 1) (by omega)
    simp only [Nat.add_zero] at h0
    simp [readBytes, h0, hs]

theorem readBytes_succ_eq_some {m : Mem} {p n : Nat} {b : UInt8} {bs : List UInt8} :
    m.readBytes p (n + 1) = some (b :: bs) ↔
      m p = .byte b ∧ m.readBytes (p + 1) n = some bs := by
  simp only [readBytes]
  split <;> cases m.readBytes (p + 1) n <;> simp_all [And.comm]

theorem readBytes_eq_some {m : Mem} {p : Nat} {bs : List UInt8} :
    m.readBytes p bs.length = some bs ↔ ∀ i (h : i < bs.length), m (p + i) = .byte bs[i] := by
  induction bs generalizing p with
  | nil => simp [readBytes]
  | cons b bs ih =>
    change m.readBytes p (bs.length + 1) = some (b :: bs) ↔ _
    rw [readBytes_succ_eq_some, ih]
    constructor
    · rintro ⟨h0, hrest⟩ (_ | i) hi
      · simpa using h0
      · rw [show p + (i + 1) = p + 1 + i by omega]
        simpa using hrest i (by simpa using hi)
    · intro hall
      refine ⟨by simpa using hall 0 (by simp), fun i hi => ?_⟩
      rw [show p + 1 + i = p + (i + 1) by omega]
      simpa using hall (i + 1) (by simpa using hi)

/-- `memcpy` is read back. -/
theorem readBytes_writeBytes (m : Mem) (p : Nat) (bs : List UInt8) :
    (m.writeBytes p bs).readBytes p bs.length = some bs :=
  readBytes_eq_some.2 fun _ h => writeBytes_apply m p bs h

/-- `memcpy` of a string and its terminator is read back. -/
theorem readBytes_writeBytes_terminated (m : Mem) (p : Nat) (s : List UInt8) :
    (m.writeBytes p (s ++ [0])).readBytes p (s.length + 1) = some (s ++ [0]) := by
  have := readBytes_writeBytes m p (s ++ [0])
  simpa only [List.length_append, List.length_singleton] using this

/-- A read of a prefix of what was read. -/
theorem readBytes_left {m : Mem} {p : Nat} (bs cs : List UInt8)
    (h : m.readBytes p (bs.length + cs.length) = some (bs ++ cs)) :
    m.readBytes p bs.length = some bs := by
  have hall := (@readBytes_eq_some m p (bs ++ cs)).1 (by simpa only [List.length_append] using h)
  refine readBytes_eq_some.2 fun i hi => ?_
  have := hall i (by simp only [List.length_append]; omega)
  rwa [List.getElem_append_left hi] at this

end Mem

/-! ## `strlen` -/

/-- `strlen(in)`, scanning no further than the `n` bytes the reader has at `p`: the number of
bytes before the first zero byte, or `none` if it runs past them or into an object. -/
def strlen (m : Mem) : Nat → Nat → Option Nat
  | _, 0 => none
  | p, n + 1 => match m p with
    | .byte 0 => some 0
    | .byte _ => (· + 1) <$> strlen m (p + 1) n
    | _ => none

/-- The bytes before the first zero byte are all the bytes exactly when there is no zero byte. -/
theorem takeWhile_ne_zero_length (s : List UInt8) :
    (s.takeWhile (· ≠ 0)).length = s.length ↔ 0 ∉ s := by
  constructor
  · intro h h0
    have := (List.takeWhile_prefix (fun x : UInt8 => decide (x ≠ 0))).eq_of_length h
    simpa using List.takeWhile_eq_self_iff.1 this 0 h0
  · intro h
    rw [List.takeWhile_eq_self_iff.2 fun x hx => decide_eq_true (ne_of_mem_of_not_mem hx h)]

/-- `strlen` of a string stored with its terminator counts the bytes before its first zero
byte. -/
theorem strlen_of_cells {m : Mem} {s : List UInt8} :
    ∀ {p n : Nat}, (∀ i (h : i < s.length), m (p + i) = .byte s[i]) →
      m (p + s.length) = .byte 0 → s.length < n →
      strlen m p n = some (s.takeWhile (· ≠ 0)).length := by
  induction s with
  | nil =>
    intro p n _ h0 hn
    obtain ⟨n, rfl⟩ : ∃ k, n = k + 1 := ⟨n - 1, by simp at hn; omega⟩
    simp at h0
    simp [strlen, h0]
  | cons c s ih =>
    intro p n hcells h0 hn
    obtain ⟨n, rfl⟩ : ∃ k, n = k + 1 := ⟨n - 1, by simp at hn; omega⟩
    have hp : m p = .byte c := by simpa using hcells 0 (by simp)
    have hrest : strlen m (p + 1) n = some (s.takeWhile (· ≠ 0)).length := by
      refine ih (fun i hi => ?_) ?_ (by simp at hn; omega)
      · rw [show p + 1 + i = p + (i + 1) by omega]
        simpa using hcells (i + 1) (by simp; omega)
      · simpa [Nat.add_assoc, Nat.add_comm 1] using h0
    by_cases hc : c = 0 <;> simp [strlen, hp, hc, hrest]

theorem strlen_of_readBytes {m : Mem} {p : Nat} {s : List UInt8}
    (hm : m.readBytes p (s.length + 1) = some (s ++ [0])) {n : Nat} (hn : s.length < n) :
    strlen m p n = some (s.takeWhile (· ≠ 0)).length := by
  have hcell := (@Mem.readBytes_eq_some m p (s ++ [0])).1 (by simpa using hm)
  refine strlen_of_cells (fun i hi => ?_) ?_ hn
  · have := hcell i (by simp; omega)
    rwa [List.getElem_append_left hi] at this
  · simpa using hcell s.length (by simp)

/-! ## `align_pointer` -/

/-- Modelled from the spec: `detail::align_pointer<alignment>` (in `misc/Utilities.h`, which is
not among the sources) advances a pointer "to the argument's required alignment", the least
multiple of `alignment` at or above it. -/
def alignPointer (alignment p : Nat) : Nat := (p + (alignment - 1)) / alignment * alignment

theorem alignPointer_mod (a p : Nat) : alignPointer a p % a = 0 :=
  Nat.mul_mod_left _ _

theorem le_alignPointer {a : Nat} (p : Nat) (ha : 0 < a) : p ≤ alignPointer a p := by
  have h : p + (a - 1) < (p + (a - 1)) / a * a + a := Nat.lt_div_mul_add ha
  unfold alignPointer
  omega

theorem alignPointer_lt {a : Nat} (p : Nat) (ha : 0 < a) : alignPointer a p < p + a := by
  have := Nat.div_mul_le_self (p + (a - 1)) a
  unfold alignPointer
  omega

theorem alignPointer_of_mod {a p : Nat} (ha : 0 < a) (h : p % a = 0) : alignPointer a p = p := by
  have hp : p = p / a * a := (Nat.div_mul_cancel (Nat.dvd_of_mod_eq_zero h)).symm
  unfold alignPointer
  rw [hp, Nat.add_comm, Nat.add_mul_div_right _ _ ha, Nat.div_eq_of_lt (by omega), Nat.zero_add]

/-! ## C arrays -/

/-- A C array `size_t a[size]` or `std::byte const* a[size]` on the stack; `none` is an element
that was never written. -/
structure CArray where
  size : Nat
  get : Nat → Option Nat

namespace CArray

/-- A fresh array: every element indeterminate. -/
def uninit (size : Nat) : CArray := ⟨size, fun _ => none⟩

/-- `a[i] = v`; `none` when `i` is out of bounds. -/
def write (a : CArray) (i v : Nat) : Option CArray :=
  if i < a.size then some ⟨a.size, Function.update a.get i (some v)⟩ else none

/-- `a[i]`; `none` when `i` is out of bounds or `a[i]` was never written. -/
def read (a : CArray) (i : Nat) : Option Nat :=
  if i < a.size then a.get i else none

/-- `a[i] = v` without the bounds check. -/
def set (a : CArray) (i v : Nat) : CArray := ⟨a.size, Function.update a.get i (some v)⟩

/-- `a[i] = vs[0]; a[i + 1] = vs[1]; …`. -/
def fill (a : CArray) (i : Nat) : List Nat → CArray
  | [] => a
  | v :: vs => (a.set i v).fill (i + 1) vs

@[simp] theorem set_size (a : CArray) (i v : Nat) : (a.set i v).size = a.size := rfl

theorem write_eq_some {a : CArray} {i v : Nat} (h : i < a.size) :
    a.write i v = some (a.set i v) := by
  simp [write, set, h]

@[simp] theorem fill_size (a : CArray) (i : Nat) (vs : List Nat) : (a.fill i vs).size = a.size := by
  induction vs generalizing a i with
  | nil => rfl
  | cons v vs ih => simp [fill, ih]

theorem fill_get_of_lt (a : CArray) {i j : Nat} (vs : List Nat) (h : j < i) :
    (a.fill i vs).get j = a.get j := by
  induction vs generalizing a i with
  | nil => rfl
  | cons v vs ih =>
    simp [fill, ih _ (Nat.lt_succ_of_lt h), set, Function.update_noteq (Nat.ne_of_lt h)]

theorem fill_get (a : CArray) (i : Nat) (vs : List Nat) {j : Nat} (h : j < vs.length) :
    (a.fill i vs).get (i + j) = some vs[j] := by
  induction vs generalizing a i j with
  | nil => simp at h
  | cons v vs ih =>
    cases j with
    | zero => simp [fill, fill_get_of_lt, set]
    | succ j =>
      simp only [fill, List.getElem_cons_succ]
      rw [show i + (j + 1) = i + 1 + j by omega]
      exact ih _ _ (by simpa using h)

/-- Reading back what `fill` stored. -/
theorem read_fill (a : CArray) (i : Nat) (vs : List Nat) {j : Nat} (h : j < vs.length)
    (hs : i + vs.length ≤ a.size) : (a.fill i vs).read (i + j) = some vs[j] := by
  simp [read, fill_get a i vs h, (by omega : i + j < a.size)]

end CArray

/-! ## What the formatter reads -/

/-- The value a format argument refers to, read when `vformat_to` formats it: the bytes of a
`string_view`, the bytes of a trivially copyable value, or the object at a reference. -/
def FmtArg.load (m : Mem) : FmtArg → Option FmtValue
  | .stringView data size => FmtValue.string <$> m.readBytes data size
  | .value t data => match t.kind with
    | .nonTriviallyCopyable => match m data with
      | .object t' v => if t' = t then some (.obj t v) else none
      | _ => none
    | _ => FmtValue.raw t <$> m.readBytes data t.size

end Quill
