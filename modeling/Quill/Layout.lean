/-
# The record layout

What `encode_args` is for, stated without its scratch array: each argument is placed at the next
address aligned to its `alignof`, and takes its characters and a terminator (a string-like
argument) or its `sizeof` bytes (any other), after which the next argument follows.  `layout`
gives the address of each argument, `argsEnd` the end of the last, `storeArgs` the buffer with
every argument stored, and `Holds m args p` says that the buffer `m` holds `args` laid out from
`p`, whatever else it holds.

Main facts:

* `layout_aligned`, `layout_addrs_lt`: every argument's address is a multiple of its
  alignment, and the addresses strictly increase;
* `argsEnd_bounds`: the arguments take their own bytes and at most `alignof - 1` bytes of padding
  each;
* `holds_storeArgs`: storing the arguments establishes `Holds`;
* `Holds.congr`: `Holds` survives any write outside `[p, argsEnd args p)`;
* `Holds.mapM_load`: in a buffer that holds the arguments, the format arguments `decodeArgs`
  should build load exactly the arguments' values, each C string as a `string_view`.
-/
import Quill.Serialize

set_option autoImplicit false

namespace Quill

/-! ## One argument -/

namespace Arg

/-- The bytes an argument takes in a record, the padding before it aside. -/
def encodedSize (a : Arg) : Nat :=
  match a.type.kind with
  | .cString | .string => a.chars.length + 1
  | _ => a.type.size

/-- The format argument `decodeArgs` builds for `a` read at `q`. -/
def fmtArg (a : Arg) (q : Nat) : FmtArg :=
  if a.type.isStringLike then .stringView q a.chars.length else .value a.type q

/-- Store `a` at `q`. -/
def store (a : Arg) (m : Mem) (q : Nat) : Mem :=
  match a.type.kind with
  | .cString | .string => m.writeBytes q (a.chars ++ [0])
  | .triviallyCopyable => m.writeBytes q a.bytes
  | .nonTriviallyCopyable => m.write q (.object a.type a.object)

/-- The buffer `m` holds `a` at `q`. -/
def StoredAt (a : Arg) (m : Mem) (q : Nat) : Prop :=
  match a.type.kind with
  | .cString | .string => m.readBytes q (a.chars.length + 1) = some (a.chars ++ [0])
  | .triviallyCopyable => m.readBytes q a.type.size = some a.bytes
  | .nonTriviallyCopyable => m q = .object a.type a.object

theorem encodedSize_pos (a : Arg) : 0 < a.encodedSize := by
  unfold encodedSize
  split <;> simp [a.type.size_pos]

theorem encodedSize_of_isStringLike {a : Arg} (h : a.type.isStringLike = true) :
    a.encodedSize = a.chars.length + 1 := by
  rcases (ArgType.isStringLike_iff _).1 h with hk | hk <;> simp [encodedSize, hk]

theorem encodedSize_of_not_isStringLike {a : Arg} (h : a.type.isStringLike = false) :
    a.encodedSize = a.type.size := by
  rcases ArgType.kind_of_not_isStringLike h with hk | hk <;> simp [encodedSize, hk]

theorem store_of_lt (a : Arg) (m : Mem) {q q' : Nat} (h : q' < q) : a.store m q q' = m q' := by
  unfold store
  cases a.type.kind <;> simp [Mem.writeBytes_of_lt _ _ h, Nat.ne_of_lt h]

theorem store_of_le (a : Arg) (m : Mem) {q q' : Nat} (h : q + a.encodedSize ≤ q') :
    a.store m q q' = m q' := by
  unfold store
  unfold encodedSize at h
  cases hk : a.type.kind <;> simp only [hk] at h ⊢
  case triviallyCopyable =>
    exact Mem.writeBytes_of_le _ _ (by rw [(value_of_trivially hk).2]; exact h)
  case nonTriviallyCopyable => simp [(by have := a.type.size_pos; omega : q' ≠ q)]
  all_goals
    exact Mem.writeBytes_of_le _ _ (by simp only [List.length_append, List.length_singleton]; omega)

theorem storedAt_store (a : Arg) (m : Mem) (q : Nat) : a.StoredAt (a.store m q) q := by
  unfold StoredAt store
  cases hk : a.type.kind <;> simp only
  case triviallyCopyable =>
    simpa [(value_of_trivially hk).2] using Mem.readBytes_writeBytes m q a.bytes
  case nonTriviallyCopyable => simp
  all_goals exact Mem.readBytes_writeBytes_terminated m q a.chars

/-- What an argument's storage holds is all that `StoredAt` reads. -/
theorem StoredAt.congr {a : Arg} {m m' : Mem} {q : Nat} (h : a.StoredAt m q)
    (hm : ∀ i, q ≤ i → i < q + a.encodedSize → m' i = m i) : a.StoredAt m' q := by
  unfold StoredAt at h ⊢
  unfold encodedSize at hm
  cases hk : a.type.kind <;> simp only [hk] at h hm ⊢
  case nonTriviallyCopyable => rwa [hm q le_rfl (by have := a.type.size_pos; omega)]
  all_goals rwa [Mem.readBytes_congr fun i hi => hm (q + i) (by omega) (by omega)]

/-- A stored string-like argument's characters are read back. -/
theorem StoredAt.chars {a : Arg} {m : Mem} {q : Nat} (h : a.StoredAt m q)
    (hs : a.type.isStringLike = true) :
    m.readBytes q (a.chars.length + 1) = some (a.chars ++ [0]) := by
  unfold StoredAt at h
  rcases (ArgType.isStringLike_iff _).1 hs with hk | hk <;> simpa only [hk] using h

/-- A stored argument loads as the value the backend formats for it. -/
theorem StoredAt.load {a : Arg} {m : Mem} {q : Nat} (h : a.StoredAt m q) :
    (a.fmtArg q).load m = some a.decodedValue := by
  cases hs : a.type.isStringLike
  · have hv : a.fmtArg q = .value a.type q := by simp [fmtArg, hs]
    unfold StoredAt at h
    rw [hv]
    rcases ArgType.kind_of_not_isStringLike hs with hk | hk <;> simp only [hk] at h
    · simp [FmtArg.load, hk, h, decodedValue, (value_of_trivially hk).1]
    · simp [FmtArg.load, hk, h, decodedValue, value_of_nontrivially hk]
  · have hr := Mem.readBytes_left a.chars [0] (h.chars hs)
    simp [fmtArg, hs, FmtArg.load, hr, decodedValue, chars_of_string_like hs]

end Arg

/-! ## Argument lists -/

/-- The address of each argument: the next address aligned to its `alignof`. -/
def layout : List Arg → Nat → List (Nat × Arg)
  | [], _ => []
  | a :: args, p =>
    let q := alignPointer a.type.align p
    (q, a) :: layout args (q + a.encodedSize)

/-- The end of the last argument laid out from `p`. -/
def argsEnd : List Arg → Nat → Nat
  | [], p => p
  | a :: args, p => argsEnd args (alignPointer a.type.align p + a.encodedSize)

/-- The bytes the arguments take, the padding between them left out. -/
def argsSize : List Arg → Nat
  | [] => 0
  | a :: args => a.encodedSize + argsSize args

/-- The most padding `encode_args` can insert: `alignof(Arg) - 1` bytes before each argument. -/
def maxPadding : List Arg → Nat
  | [] => 0
  | a :: args => a.type.align - 1 + maxPadding args

/-- The buffer with every argument stored at its address. -/
def storeArgs : List Arg → Mem → Nat → Mem
  | [], m, _ => m
  | a :: args, m, p =>
    let q := alignPointer a.type.align p
    storeArgs args (a.store m q) (q + a.encodedSize)

/-- The buffer `m` holds `args` laid out from `p`. -/
def Holds (m : Mem) : List Arg → Nat → Prop
  | [], _ => True
  | a :: args, p =>
    let q := alignPointer a.type.align p
    a.StoredAt m q ∧ Holds m args (q + a.encodedSize)

/-- The addresses of the arguments `destructArgs` has to destroy. -/
def dtorAddrs (args : List Arg) (p : Nat) : List Nat :=
  ((layout args p).filter fun x => needCallDtorFor x.2.type).map Prod.fst

theorem le_argsEnd (args : List Arg) (p : Nat) : p ≤ argsEnd args p := by
  induction args generalizing p with
  | nil => exact le_rfl
  | cons a args ih =>
    have := le_alignPointer p a.type.align_pos
    exact le_trans (by omega) (ih _)

/-- The arguments take their own bytes and at most `maxPadding` bytes of padding. -/
theorem argsEnd_bounds (args : List Arg) (p : Nat) :
    p + argsSize args ≤ argsEnd args p ∧
      argsEnd args p ≤ p + argsSize args + maxPadding args := by
  induction args generalizing p with
  | nil => simp [argsEnd, argsSize, maxPadding]
  | cons a args ih =>
    have h1 := le_alignPointer p a.type.align_pos
    have h2 := alignPointer_lt p a.type.align_pos
    obtain ⟨ih1, ih2⟩ := ih (alignPointer a.type.align p + a.encodedSize)
    simp only [argsEnd, argsSize, maxPadding]
    omega

theorem layout_aligned (args : List Arg) (p : Nat) :
    ∀ x ∈ layout args p, x.1 % x.2.type.align = 0 := by
  induction args generalizing p with
  | nil => simp [layout]
  | cons a args ih =>
    simp only [layout, List.mem_cons, forall_eq_or_imp]
    exact ⟨alignPointer_mod _ _, ih _⟩

@[simp] theorem layout_map_snd (args : List Arg) (p : Nat) :
    (layout args p).map Prod.snd = args := by
  induction args generalizing p with
  | nil => rfl
  | cons a args ih => simp [layout, ih]

/-- Every argument lies at or above where the layout starts. -/
theorem le_of_mem_layout {args : List Arg} {p : Nat} {x : Nat × Arg} (h : x ∈ layout args p) :
    p ≤ x.1 := by
  induction args generalizing p with
  | nil => simp [layout] at h
  | cons a args ih =>
    have hq := le_alignPointer p a.type.align_pos
    simp only [layout, List.mem_cons] at h
    rcases h with rfl | h
    · exact hq
    · have := ih h
      omega

/-- Every argument ends by the end of the last. -/
theorem add_le_argsEnd_of_mem {args : List Arg} {p : Nat} {x : Nat × Arg}
    (h : x ∈ layout args p) :
    x.1 + x.2.encodedSize ≤ argsEnd args p := by
  induction args generalizing p with
  | nil => simp [layout] at h
  | cons a args ih =>
    simp only [layout, List.mem_cons] at h
    rcases h with rfl | h
    · exact le_argsEnd args _
    · exact ih h

/-- The addresses of a record's arguments strictly increase. -/
theorem layout_addrs_lt (args : List Arg) (p : Nat) :
    ((layout args p).map Prod.fst).Pairwise (· < ·) := by
  induction args generalizing p with
  | nil => simp [layout]
  | cons a args ih =>
    have hpos := a.encodedSize_pos
    refine List.pairwise_cons.2 ⟨fun q hq => ?_, ih _⟩
    obtain ⟨x, hx, rfl⟩ := List.mem_map.1 hq
    have := le_of_mem_layout hx
    omega

theorem storeArgs_of_lt (args : List Arg) (m : Mem) {p q : Nat} (h : q < p) :
    storeArgs args m p q = m q := by
  induction args generalizing m p with
  | nil => rfl
  | cons a args ih =>
    have := le_alignPointer p a.type.align_pos
    simp only [storeArgs]
    rw [ih _ (by have := a.encodedSize_pos; omega), a.store_of_lt _ (by omega)]

theorem storeArgs_of_le (args : List Arg) (m : Mem) {p q : Nat} (h : argsEnd args p ≤ q) :
    storeArgs args m p q = m q := by
  induction args generalizing m p with
  | nil => rfl
  | cons a args ih =>
    have := le_argsEnd args (alignPointer a.type.align p + a.encodedSize)
    simp only [storeArgs]
    rw [ih _ h, a.store_of_le _ (by simp only [argsEnd] at h; omega)]

/-- `Holds` reads only the record's own cells. -/
theorem Holds.congr {m m' : Mem} {args : List Arg} {p : Nat} (h : Holds m args p)
    (hm : ∀ i, p ≤ i → i < argsEnd args p → m' i = m i) : Holds m' args p := by
  induction args generalizing p with
  | nil => trivial
  | cons a args ih =>
    obtain ⟨ha, hrest⟩ := h
    have hq := le_alignPointer p a.type.align_pos
    have hend := le_argsEnd args (alignPointer a.type.align p + a.encodedSize)
    refine ⟨ha.congr fun i h1 h2 => hm i (by omega) (by simp only [argsEnd]; omega),
      ih hrest fun i h1 h2 => hm i (by omega) (by simpa only [argsEnd] using h2)⟩

/-- A buffer that holds the arguments holds each at its address. -/
theorem Holds.storedAt_of_mem {m : Mem} {args : List Arg} {p : Nat} (h : Holds m args p)
    {x : Nat × Arg} (hx : x ∈ layout args p) : x.2.StoredAt m x.1 := by
  induction args generalizing p with
  | nil => simp [layout] at hx
  | cons a args ih =>
    simp only [layout, List.mem_cons] at hx
    rcases hx with rfl | hx
    · exact h.1
    · exact ih h.2 hx

/-- Storing the arguments lays them out. -/
theorem holds_storeArgs (args : List Arg) (m : Mem) (p : Nat) :
    Holds (storeArgs args m p) args p := by
  induction args generalizing m p with
  | nil => trivial
  | cons a args ih =>
    refine ⟨(a.storedAt_store m _).congr fun i _ h2 => storeArgs_of_lt _ _ h2, ih _ _⟩

/-- In a buffer that holds the arguments, the format arguments load as the arguments' values,
each C string as a `string_view`. -/
theorem Holds.mapM_load {m : Mem} {args : List Arg} {p : Nat} (h : Holds m args p) :
    ((layout args p).map fun x => x.2.fmtArg x.1).mapM (FmtArg.load m) =
      some (args.map Arg.decodedValue) := by
  induction args generalizing p with
  | nil => rfl
  | cons a args ih =>
    simp only [layout, List.map_cons, List.mapM_cons, h.1.load, ih h.2]
    rfl

end Quill
