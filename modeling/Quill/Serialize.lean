/-
# The argument codec

`detail::get_args_sizes`, `detail::encode_args`, `detail::decodeArgs`, `detail::destructArgs`
and `detail::format_to` of `LogMacroMetadata.h`, one definition each, with the source's
branches in the source's order.  The type list `Args...` becomes a list of `ArgType`s (of
`Arg`s for the two producer-side functions, which also see the values), and the index template
parameters `CstringIdx` and `DestructIdx` become numbers threaded through the recursion.
`Serialize.h` repeats the same functions (`decode_args`, `destruct_args`) with the same bodies.

`vformat_to` belongs to fmt and is a parameter: it appends the text of the values the arguments
refer to, and may throw a format error part of the way through (`Formatted`).

Each definition is followed by its equations, one per branch; later modules never unfold the
definitions themselves.
-/
import Quill.Memory

set_option autoImplicit false

namespace Quill

/-! ## `get_args_sizes` -/

/-- `get_args_sizes<CstringIdx>(c_string_sizes, args...)`: the bytes the arguments take (a
`size_t` sum), storing the length of each C string with its terminator in `c_string_sizes`. -/
def getArgsSizes : Nat → CArray → List Arg → Option (Nat × CArray)
  | _, cStringSizes, [] => some (0, cStringSizes)
  | cstringIdx, cStringSizes, a :: args =>
    match a.type.kind with
    | .cString => do
      let len := a.strlen + 1
      let cStringSizes ← cStringSizes.write cstringIdx len
      let (rest, cStringSizes) ← getArgsSizes (cstringIdx + 1) cStringSizes args
      pure ((len + rest) % 2 ^ 64, cStringSizes)
    | .string => do
      let (rest, cStringSizes) ← getArgsSizes cstringIdx cStringSizes args
      pure ((a.chars.length + 1 + rest) % 2 ^ 64, cStringSizes)
    | _ => do
      let (rest, cStringSizes) ← getArgsSizes cstringIdx cStringSizes args
      pure ((a.type.size + rest) % 2 ^ 64, cStringSizes)

section getArgsSizes

variable {k : Nat} {sizes : CArray} {a : Arg} {args : List Arg}

@[simp] theorem getArgsSizes_nil : getArgsSizes k sizes [] = some (0, sizes) := rfl

theorem getArgsSizes_cons_cString (h : a.type.kind = .cString) :
    getArgsSizes k sizes (a :: args) = (do
      let sizes ← sizes.write k (a.strlen + 1)
      let (rest, sizes) ← getArgsSizes (k + 1) sizes args
      pure ((a.strlen + 1 + rest) % 2 ^ 64, sizes)) := by
  simp only [getArgsSizes, h]

theorem getArgsSizes_cons_string (h : a.type.kind = .string) :
    getArgsSizes k sizes (a :: args) =
      (fun r => ((a.chars.length + 1 + r.1) % 2 ^ 64, r.2)) <$> getArgsSizes k sizes args := by
  simp only [getArgsSizes, h]
  cases getArgsSizes k sizes args <;> rfl

theorem getArgsSizes_cons_other (h : a.type.isStringLike = false) :
    getArgsSizes k sizes (a :: args) =
      (fun r => ((a.type.size + r.1) % 2 ^ 64, r.2)) <$> getArgsSizes k sizes args := by
  rcases ArgType.kind_of_not_isStringLike h with hk | hk <;> simp only [getArgsSizes, hk] <;>
    cases getArgsSizes k sizes args <;> rfl

end getArgsSizes

/-! ## `encode_args` -/

/-- `memcpy` reading `n` bytes from an object whose bytes are `src`: reading past it is
undefined. -/
def memcpySource (src : List UInt8) (n : Nat) : Option (List UInt8) :=
  if n ≤ src.length then some (src.take n) else none

theorem memcpySource_length (src : List UInt8) : memcpySource src src.length = some src := by
  simp [memcpySource]

/-- `encode_args<CstringIdx>(c_string_sizes, out, args...)`: the buffer after writing the
arguments from `out` on, and the pointer past them.  A trivially copyable value is copied as its
`sizeof` bytes (`Arg.fits`), any other non-string value is copy-constructed in place. -/
def encodeArgs (cStringSizes : CArray) : Nat → List Arg → Mem → Nat → Option (Mem × Nat)
  | _, [], m, out => some (m, out)
  | cstringIdx, a :: args, m, out =>
    let out := alignPointer a.type.align out
    match a.type.kind with
    | .cString => do
      let n ← cStringSizes.read cstringIdx
      let bytes ← memcpySource (a.chars ++ [0]) n
      encodeArgs cStringSizes (cstringIdx + 1) args (m.writeBytes out bytes) (out + n)
    | .string =>
      let len := a.chars.length
      encodeArgs cStringSizes cstringIdx args
        ((m.writeBytes out a.chars).write (out + len) (.byte 0)) (out + len + 1)
    | .triviallyCopyable =>
      encodeArgs cStringSizes cstringIdx args (m.writeBytes out a.bytes) (out + a.type.size)
    | .nonTriviallyCopyable =>
      encodeArgs cStringSizes cstringIdx args (m.write out (.object a.type a.object))
        (out + a.type.size)

section encodeArgs

variable {sizes : CArray} {k : Nat} {a : Arg} {args : List Arg} {m : Mem} {out : Nat}

@[simp] theorem encodeArgs_nil : encodeArgs sizes k [] m out = some (m, out) := rfl

theorem encodeArgs_cons_cString (h : a.type.kind = .cString) :
    encodeArgs sizes k (a :: args) m out = (do
      let n ← sizes.read k
      let bytes ← memcpySource (a.chars ++ [0]) n
      encodeArgs sizes (k + 1) args (m.writeBytes (alignPointer a.type.align out) bytes)
        (alignPointer a.type.align out + n)) := by
  simp only [encodeArgs, h]

theorem encodeArgs_cons_string (h : a.type.kind = .string) :
    encodeArgs sizes k (a :: args) m out =
      encodeArgs sizes k args
        ((m.writeBytes (alignPointer a.type.align out) a.chars).write
          (alignPointer a.type.align out + a.chars.length) (.byte 0))
        (alignPointer a.type.align out + a.chars.length + 1) := by
  simp only [encodeArgs, h]

theorem encodeArgs_cons_trivially (h : a.type.kind = .triviallyCopyable) :
    encodeArgs sizes k (a :: args) m out =
      encodeArgs sizes k args (m.writeBytes (alignPointer a.type.align out) a.bytes)
        (alignPointer a.type.align out + a.type.size) := by
  simp only [encodeArgs, h]

theorem encodeArgs_cons_nontrivially (h : a.type.kind = .nonTriviallyCopyable) :
    encodeArgs sizes k (a :: args) m out =
      encodeArgs sizes k args (m.write (alignPointer a.type.align out) (.object a.type a.object))
        (alignPointer a.type.align out + a.type.size) := by
  simp only [encodeArgs, h]

end encodeArgs

/-! ## `decodeArgs` and `destructArgs` -/

/-- `decodeArgs<false, Idx, DestructIdx, Args...>(in, args, destruct_args)`, where the reader has
the bytes up to `readEnd`: the pointer past the arguments, the format arguments it stores in
`args[Idx]` onwards, and `destruct_args` with the address of each argument that needs a
destructor call stored from `destruct_args[DestructIdx]` on. -/
def decodeArgs (m : Mem) (readEnd : Nat) :
    List ArgType → Nat → CArray → Nat → Option (Nat × List FmtArg × CArray)
  | [], _, dtorArgs, inPtr => some (inPtr, [], dtorArgs)
  | t :: ts, destructIdx, dtorArgs, inPtr =>
    let inPtr := alignPointer t.align inPtr
    if isTypeOfCString t || isTypeOfString t then do
      let size ← strlen m inPtr (readEnd - inPtr)
      let (ret, args, dtorArgs) ← decodeArgs m readEnd ts destructIdx dtorArgs (inPtr + size + 1)
      pure (ret, .stringView inPtr size :: args, dtorArgs)
    else if needCallDtorFor t then do
      let dtorArgs ← dtorArgs.write destructIdx inPtr
      let (ret, args, dtorArgs) ←
        decodeArgs m readEnd ts (destructIdx + 1) dtorArgs (inPtr + t.size)
      pure (ret, .value t inPtr :: args, dtorArgs)
    else do
      let (ret, args, dtorArgs) ← decodeArgs m readEnd ts destructIdx dtorArgs (inPtr + t.size)
      pure (ret, .value t inPtr :: args, dtorArgs)

section decodeArgs

variable {m : Mem} {readEnd : Nat} {t : ArgType} {ts : List ArgType} {d : Nat} {dtors : CArray}
  {inPtr : Nat}

@[simp] theorem decodeArgs_nil : decodeArgs m readEnd [] d dtors inPtr = some (inPtr, [], dtors) :=
  rfl

theorem decodeArgs_cons_string (h : t.isStringLike = true) :
    decodeArgs m readEnd (t :: ts) d dtors inPtr = (do
      let size ← strlen m (alignPointer t.align inPtr) (readEnd - alignPointer t.align inPtr)
      let (ret, args, dtors) ←
        decodeArgs m readEnd ts d dtors (alignPointer t.align inPtr + size + 1)
      pure (ret, .stringView (alignPointer t.align inPtr) size :: args, dtors)) := by
  simp only [ArgType.isStringLike] at h
  simp only [decodeArgs, h, if_true]

theorem decodeArgs_cons_dtor (h : t.isStringLike = false) (hd : needCallDtorFor t = true) :
    decodeArgs m readEnd (t :: ts) d dtors inPtr = (do
      let dtors ← dtors.write d (alignPointer t.align inPtr)
      let (ret, args, dtors) ←
        decodeArgs m readEnd ts (d + 1) dtors (alignPointer t.align inPtr + t.size)
      pure (ret, .value t (alignPointer t.align inPtr) :: args, dtors)) := by
  simp only [ArgType.isStringLike] at h
  simp only [decodeArgs, h, hd, if_true, Bool.false_eq_true, if_false]

theorem decodeArgs_cons_plain (h : t.isStringLike = false) (hd : needCallDtorFor t = false) :
    decodeArgs m readEnd (t :: ts) d dtors inPtr =
      (fun r => (r.1, .value t (alignPointer t.align inPtr) :: r.2.1, r.2.2)) <$>
        decodeArgs m readEnd ts d dtors (alignPointer t.align inPtr + t.size) := by
  simp only [ArgType.isStringLike] at h
  simp only [decodeArgs, h, hd, Bool.false_eq_true, if_false]
  cases decodeArgs m readEnd ts d dtors (alignPointer t.align inPtr + t.size) <;> rfl

end decodeArgs

/-- `destructArgs<DestructIdx, Args...>(destruct_args)`: the addresses whose `~ArgType()` it
calls, in the order it calls them. -/
def destructArgs (dtorArgs : CArray) : List ArgType → Nat → Option (List Nat)
  | [], _ => some []
  | t :: ts, destructIdx =>
    if needCallDtorFor t then do
      let p ← dtorArgs.read destructIdx
      (p :: ·) <$> destructArgs dtorArgs ts (destructIdx + 1)
    else destructArgs dtorArgs ts destructIdx

/-! ## `format_to` -/

/-- `fmt::detail::count<need_call_dtor_for<Args>()...>()`. -/
def numDtors (tys : List ArgType) : Nat := (tys.map needCallDtorFor).count true

/-- What `fmt::vformat_to(out, format, args)` does to `out`: it appends the text of the format
string field by field, and at the first field it cannot format it throws a `format_error`,
leaving in `out` the text it appended before that field. -/
structure Formatted where
  /-- The text appended to `out`. -/
  text : List Char
  /-- The `format_error` thrown after appending `text`, if one is. -/
  error : Option String
  deriving DecidableEq

/-- What a call of `format_to` leaves behind. -/
structure FormatOutcome where
  /-- The pointer `format_to` returns, or the error `vformat_to` throws through it. -/
  ret : Except String Nat
  /-- The buffer `out` after the call. -/
  out : List Char
  /-- The format arguments `decodeArgs` stored in `args`. -/
  args : List FmtArg
  /-- The addresses `destructArgs` called a destructor on, in order. -/
  destroyed : List Nat

/-- `format_to<Args...>(format, data, out, args)`: decode the arguments at `data`, format them
with `vformat_to` into `out`, then destroy the arguments recorded in `dtor_args`.  An error
thrown by `vformat_to` leaves the function before `destructArgs` runs, with the text
`vformat_to` appended before it threw left in `out`. -/
def formatTo (vformatTo : List Char → List FmtValue → Formatted)
    (tys : List ArgType) (format : List Char) (m : Mem) (readEnd data : Nat) (out : List Char) :
    Option FormatOutcome := do
  let (ret, args, dtorArgs) ←
    decodeArgs m readEnd tys 0 (CArray.uninit (max (numDtors tys) 1)) data
  let values ← args.mapM (FmtArg.load m)
  let formatted := vformatTo format values
  match formatted.error with
  | some e => pure ⟨.error e, out ++ formatted.text, args, []⟩
  | none => do
    let destroyed ← destructArgs dtorArgs tys 0
    pure ⟨.ok ret, out ++ formatted.text, args, destroyed⟩

/-- **What a call of `format_to` did, when it returned.**  `decodeArgs` decoded the format
arguments, they loaded as `values`, `out` was extended by the text `vformat_to` appended for
them, and either `vformat_to` threw, with nothing destroyed, or it returned and `destructArgs`
destroyed what `dtor_args` records. -/
theorem formatTo_eq_some {vformatTo : List Char → List FmtValue → Formatted} {tys : List ArgType}
    {format : List Char} {m : Mem} {readEnd data : Nat} {out : List Char} {o : FormatOutcome}
    (h : formatTo vformatTo tys format m readEnd data out = some o) :
    ∃ ret dtorArgs values,
      decodeArgs m readEnd tys 0 (CArray.uninit (max (numDtors tys) 1)) data =
        some (ret, o.args, dtorArgs) ∧
      o.args.mapM (FmtArg.load m) = some values ∧ o.out = out ++ (vformatTo format values).text ∧
      ((∃ e, (vformatTo format values).error = some e ∧ o.ret = .error e ∧ o.destroyed = []) ∨
        ((vformatTo format values).error = none ∧ o.ret = .ok ret ∧
          destructArgs dtorArgs tys 0 = some o.destroyed)) := by
  simp only [formatTo, Option.bind_eq_bind, Option.bind_eq_some] at h
  obtain ⟨⟨ret, args, dtorArgs⟩, hdec, values, hvalues, h⟩ := h
  refine ⟨ret, dtorArgs, values, ?_⟩
  split at h
  · rename_i e he
    cases h
    exact ⟨hdec, hvalues, rfl, .inl ⟨e, he, rfl, rfl⟩⟩
  · rename_i he
    obtain ⟨destroyed, hd, h⟩ := Option.bind_eq_some.1 h
    cases h
    exact ⟨hdec, hvalues, rfl, .inr ⟨he, rfl, hd⟩⟩

end Quill
