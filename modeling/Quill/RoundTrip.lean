/-
# What the backend reads back of a record's arguments

The producer writes a record's arguments with `encodeRecord` (`get_args_sizes`, then
`encode_args`), and the backend reads them with `format_to` (`decodeArgs`, `vformat_to`,
`destructArgs`).  The results here are stated over every argument list:

* `cStringSizes_threaded`: the two producer recursions index `c_string_sizes` identically;
* `decodeArgs_consumes_encoded_bytes`: when no owned string holds a zero byte, the decoder
  consumes exactly the bytes the encoder produced and reads each argument where it was written;
* `formatTo_destroys_constructed_args`: on the success path `format_to` destroys each
  placement-constructed argument with a destructor once, at the address it was built at;
* `formatTo_error_destroys_nothing`: an error thrown by `vformat_to` leaves `format_to` with no
  destructor called, and with the text `vformat_to` appended before it threw in `out`.

The wire format has no length prefix, so an owned string with a zero byte is cut at it
(`embedded_zero_misframes_decode`, `embedded_zero_destroys_wrong_address`), and
`decodeArgs_resumes_after_first_zero` says where in general: the decoder reads a string-like
argument up to its first zero byte and resumes after it, which is where the next argument was
written exactly when the string has no zero byte.
-/
import Quill.Codec

set_option autoImplicit false

namespace Quill

/-! ## A concrete record -/

/-- The arguments of the call `"{}:{}:{}"` with `"hello"`, `42` and `std::string{"world"}`. -/
def helloArgs : List Arg :=
  [⟨charArray6, .str [104, 101, 108, 108, 111], .inl ⟨rfl, by decide⟩⟩,
   ⟨int32, .raw [42, 0, 0, 0], ⟨rfl, rfl⟩⟩,
   ⟨stdString, .str [119, 111, 114, 108, 100], .inr rfl⟩]

/-! ## The scratch array of C string sizes -/

/-- **`c_string_sizes` is threaded identically.**  In the array of `max(c_string_count, 1)`
elements `Logger::log` allocates, `get_args_sizes` stores the `strlen + 1` of the `k`-th C
string at index `k` and nowhere else, all in bounds, and `encode_args` reads exactly those
elements back: every C string is copied with its own length and terminator, as `storeArgs`
lays it out. -/
theorem cStringSizes_threaded (args : List Arg) (m : Mem) (p : Nat) :
    let sizes := CArray.uninit (max (cStringCount (args.map Arg.type)) 1)
    let filled := sizes.fill 0 ((cStringArgs args).map (·.strlen + 1))
    (cStringArgs args).length = cStringCount (args.map Arg.type) ∧
      getArgsSizes 0 sizes args = some (argsSize args % 2 ^ 64, filled) ∧
      encodeArgs filled 0 args m p = some (storeArgs args m p, argsEnd args p) := by
  exact ⟨(cStringCount_eq args).symm, getArgsSizes_uninit args, encodeArgs_uninit_fill args m p⟩

/-! ## Framing -/

/-- **The decoder consumes what the encoder produced.**  For every argument list whose owned
strings hold no zero byte, `decodeArgs` started where `encode_args` started returns the pointer
`encode_args` returned, and builds each format argument at the address the argument was
written at (the buffer holds it there). -/
theorem decodeArgs_consumes_encoded_bytes (args : List Arg) (hz : ∀ a ∈ args, a.ZeroFree)
    (m : Mem) (p readEnd : Nat) (hend : argsEnd args p ≤ readEnd) :
    ∃ m', encodeRecord args m p = some (m', argsEnd args p) ∧ Holds m' args p ∧
      ∃ dtorArgs, decodeArgs m' readEnd (args.map Arg.type) 0
          (CArray.uninit (max (numDtors (args.map Arg.type)) 1)) p =
        some (argsEnd args p, (layout args p).map (fun x => x.2.fmtArg x.1), dtorArgs) := by
  have hm := holds_storeArgs args m p
  exact ⟨_, encodeRecord_eq args m p, hm, _,
    decodeArgs_of_holds args hm hz hend (dtorAddrs_length_le args p)⟩

/-- `"hello"`, `42`, `"world"` are read back where they were written. -/
theorem decodeArgs_consumes_encoded_bytes_hello :
    (∀ a ∈ helloArgs, a.ZeroFree) ∧ argsEnd helloArgs 0 ≤ 32 ∧
      ∃ m', encodeRecord helloArgs blankMem 0 = some (m', argsEnd helloArgs 0) ∧
        Holds m' helloArgs 0 ∧
        ∃ dtorArgs, decodeArgs m' 32 (helloArgs.map Arg.type) 0
            (CArray.uninit (max (numDtors (helloArgs.map Arg.type)) 1)) 0 =
          some (argsEnd helloArgs 0, (layout helloArgs 0).map (fun x => x.2.fmtArg x.1),
            dtorArgs) :=
  ⟨by decide, by decide,
    decodeArgs_consumes_encoded_bytes helloArgs (by decide) blankMem 0 32 (by decide)⟩

/-- An owned string whose first byte is zero. -/
def zeroLeadString : Arg := ⟨stdString, .str [0, 1], .inr rfl⟩

/-- **An embedded zero byte misframes the record.**  `encode_args` writes the three bytes of
`std::string{"\0\x01"}` with its terminator, `decodeArgs` stops at the first zero and returns
the pointer one byte in. -/
theorem embedded_zero_misframes_decode :
    (encodeRecord [zeroLeadString] blankMem 0).map Prod.snd = some 3 ∧
      ((encodeRecord [zeroLeadString] blankMem 0).bind fun r =>
        decodeArgs r.1 3 [stdString] 0 (CArray.uninit 1) 0).map Prod.fst = some 1 := by
  rw [encodeRecord_eq]
  decide

/-- **An owned string is read up to its first zero byte.**  For every string-like argument at
the head of every argument list written by `encode_args` from `p`: `decodeArgs` reads it as a
`string_view` of the bytes before its first zero byte and resumes after that zero, whatever types
follow.  It resumes where `encode_args` put the next argument exactly when the string has no zero
byte. -/
theorem decodeArgs_resumes_after_first_zero (a : Arg) (hs : a.type.isStringLike = true)
    (args : List Arg) (m : Mem) (p readEnd : Nat) (hend : argsEnd (a :: args) p ≤ readEnd)
    (tys : List ArgType) (d : Nat) (dtors : CArray) :
    ∃ m', encodeRecord (a :: args) m p = some (m', argsEnd (a :: args) p) ∧
      decodeArgs m' readEnd (a.type :: tys) d dtors p =
        (decodeArgs m' readEnd tys d dtors
          (alignPointer a.type.align p + (a.chars.takeWhile (· ≠ 0)).length + 1)).map
          (fun r => (r.1, .stringView (alignPointer a.type.align p)
            (a.chars.takeWhile (· ≠ 0)).length :: r.2.1, r.2.2)) ∧
      (alignPointer a.type.align p + (a.chars.takeWhile (· ≠ 0)).length + 1 =
        alignPointer a.type.align p + a.encodedSize ↔ a.ZeroFree) := by
  have hm := holds_storeArgs (a :: args) m p
  have hq := le_argsEnd args (alignPointer a.type.align p + a.encodedSize)
  simp only [argsEnd, Arg.encodedSize_of_isStringLike hs] at hend hq
  refine ⟨_, encodeRecord_eq _ m p, ?_, ?_⟩
  · rw [decodeArgs_cons_string hs, strlen_of_readBytes (hm.1.chars hs) (by omega)]
    simp only [Option.bind_eq_bind, Option.some_bind]
    cases decodeArgs (storeArgs (a :: args) m p) readEnd tys d dtors
      (alignPointer a.type.align p + (a.chars.takeWhile (· ≠ 0)).length + 1) <;> rfl
  · rw [Arg.encodedSize_of_isStringLike hs, Arg.ZeroFree, ← takeWhile_ne_zero_length]
    omega

/-- `std::string{"\0\x01"}` alone is read as an empty view, and the decoder resumes one byte in,
not at 3. -/
theorem decodeArgs_resumes_after_first_zero_lead :
    zeroLeadString.type.isStringLike = true ∧ argsEnd [zeroLeadString] 0 ≤ 3 ∧
    ∃ m', encodeRecord [zeroLeadString] blankMem 0 = some (m', argsEnd [zeroLeadString] 0) ∧
      decodeArgs m' 3 [zeroLeadString.type] 0 (CArray.uninit 1) 0 =
        (decodeArgs m' 3 [] 0 (CArray.uninit 1)
          (alignPointer zeroLeadString.type.align 0 +
            (zeroLeadString.chars.takeWhile (· ≠ 0)).length + 1)).map
          (fun r => (r.1, .stringView (alignPointer zeroLeadString.type.align 0)
            (zeroLeadString.chars.takeWhile (· ≠ 0)).length :: r.2.1, r.2.2)) ∧
      (alignPointer zeroLeadString.type.align 0 +
          (zeroLeadString.chars.takeWhile (· ≠ 0)).length + 1 =
        alignPointer zeroLeadString.type.align 0 + zeroLeadString.encodedSize ↔
          zeroLeadString.ZeroFree) :=
  ⟨rfl, by decide, decodeArgs_resumes_after_first_zero zeroLeadString rfl [] blankMem 0 3
    (by decide) [] 0 (CArray.uninit 1)⟩

/-! ## Destruction -/

/-- Each address `destructArgs` has to destroy is a different one. -/
theorem dtorAddrs_nodup (args : List Arg) (p : Nat) : (dtorAddrs args p).Nodup :=
  ((layout_addrs_lt args p).sublist ((List.filter_sublist _).map Prod.fst)).imp Nat.ne_of_lt

/-- An object of `classType` with a destructor. -/
def anObject : Arg := ⟨classType, .obj 7, rfl⟩

/-- A formatter that accepts everything and appends nothing. -/
def acceptingFormat : List Char → List FmtValue → Formatted := fun _ _ => ⟨[], none⟩

/-- **`format_to` destroys what `encode_args` constructed.**  For every zero-free argument list,
when `vformat_to` returns, `decodeArgs` has stored the address of the `j`-th argument that needs
a destructor call at `dtor_args[j]` for exactly the `j < num_dtors` (and nothing else), and
`format_to` destroys exactly those arguments, in order, each once: the placement-constructed
arguments whose destructor is not trivial, at the address `encode_args` built them at. -/
theorem formatTo_destroys_constructed_args
    (vformatTo : List Char → List FmtValue → Formatted)
    (args : List Arg) (hz : ∀ a ∈ args, a.ZeroFree) (format : List Char) (m : Mem)
    (p readEnd : Nat) (out : List Char) (hend : argsEnd args p ≤ readEnd)
    (hok : (vformatTo format (args.map Arg.decodedValue)).error = none) :
    ∃ m', encodeRecord args m p = some (m', argsEnd args p) ∧
      (decodeArgs m' readEnd (args.map Arg.type) 0
          (CArray.uninit (max (numDtors (args.map Arg.type)) 1)) p).map (·.2.2) =
        some ((CArray.uninit (max (numDtors (args.map Arg.type)) 1)).fill 0 (dtorAddrs args p)) ∧
      (dtorAddrs args p).length = numDtors (args.map Arg.type) ∧
      formatTo vformatTo (args.map Arg.type) format m' readEnd p out =
        some ⟨.ok (argsEnd args p), out ++ (vformatTo format (args.map Arg.decodedValue)).text,
          (layout args p).map (fun x => x.2.fmtArg x.1), dtorAddrs args p⟩ ∧
      (dtorAddrs args p).Nodup ∧
      ∀ q, q ∈ dtorAddrs args p ↔ ∃ a, (q, a) ∈ layout args p ∧
        a.type.kind = .nonTriviallyCopyable ∧ a.type.triviallyDestructible = false ∧
        m' q = .object a.type a.object := by
  have hm := holds_storeArgs args m p
  refine ⟨_, encodeRecord_eq args m p,
    by simp [decodeArgs_of_holds args hm hz hend (dtorAddrs_length_le args p)],
    (numDtors_eq args p).symm,
    by simp [formatTo_of_holds vformatTo args format out hm hz hend, hok],
    dtorAddrs_nodup args p, fun q => ?_⟩
  simp only [dtorAddrs, List.mem_map, List.mem_filter, Prod.exists, exists_and_right,
    exists_eq_right, needCallDtorFor_iff]
  constructor
  · rintro ⟨a, hx, hk, hd⟩
    have hs := hm.storedAt_of_mem hx
    simp only [Arg.StoredAt, hk] at hs
    exact ⟨a, hx, hk, hd, hs⟩
  · rintro ⟨a, hx, hk, hd, -⟩
    exact ⟨a, hx, hk, hd⟩

/-- `anObject` is destroyed at the address it was built at. -/
theorem formatTo_destroys_constructed_args_object :
    (∀ a ∈ [anObject], a.ZeroFree) ∧ argsEnd [anObject] 0 ≤ 8 ∧
      (acceptingFormat [] ([anObject].map Arg.decodedValue)).error = none ∧
      ∃ m', encodeRecord [anObject] blankMem 0 = some (m', argsEnd [anObject] 0) ∧
        (decodeArgs m' 8 ([anObject].map Arg.type) 0
            (CArray.uninit (max (numDtors ([anObject].map Arg.type)) 1)) 0).map (·.2.2) =
          some ((CArray.uninit (max (numDtors ([anObject].map Arg.type)) 1)).fill 0
            (dtorAddrs [anObject] 0)) ∧
        (dtorAddrs [anObject] 0).length = numDtors ([anObject].map Arg.type) ∧
        formatTo acceptingFormat ([anObject].map Arg.type) [] m' 8 0 [] =
          some ⟨.ok (argsEnd [anObject] 0),
            [] ++ (acceptingFormat [] ([anObject].map Arg.decodedValue)).text,
            (layout [anObject] 0).map (fun x => x.2.fmtArg x.1), dtorAddrs [anObject] 0⟩ ∧
        (dtorAddrs [anObject] 0).Nodup ∧
        ∀ q, q ∈ dtorAddrs [anObject] 0 ↔ ∃ a, (q, a) ∈ layout [anObject] 0 ∧
          a.type.kind = .nonTriviallyCopyable ∧ a.type.triviallyDestructible = false ∧
          m' q = .object a.type a.object :=
  ⟨by decide, by decide, rfl, formatTo_destroys_constructed_args acceptingFormat [anObject]
    (by decide) [] blankMem 0 8 [] (by decide) rfl⟩

/-- An owned string that starts with a zero byte and is nine bytes long. -/
def zeroLeadLongString : Arg := ⟨stdString, .str [0, 1, 1, 1, 1, 1, 1, 1, 1], .inr rfl⟩

/-- **An embedded zero byte moves the destructor call.**  `encode_args` builds `anObject` at
address 16, after the ten bytes of the string and six bytes of padding; `decodeArgs` stops at
the string's first byte and stores address 8 in `dtor_args[0]`. -/
theorem embedded_zero_destroys_wrong_address :
    (encodeRecord [zeroLeadLongString, anObject] blankMem 0).map (fun r => (r.1 16, r.2)) =
        some (.object classType 7, 24) ∧
      ((encodeRecord [zeroLeadLongString, anObject] blankMem 0).bind fun r =>
        (decodeArgs r.1 24 [stdString, classType] 0 (CArray.uninit 1) 0).bind fun d =>
          d.2.2.read 0) = some 8 := by
  rw [encodeRecord_eq]
  decide

/-- A formatter that throws at its second replacement field, after appending the text before
it, as fmt's `vformat_to` does for `a={} b={:{}}` with `1`, `2` and `-1`. -/
def throwingFormat : List Char → List FmtValue → Formatted :=
  fun _ _ => ⟨['a', '=', '1', ' ', 'b', '='], some "negative width"⟩

/-- **An error from `vformat_to` skips the destructors.**  Whatever the type list and the
buffer, when `format_to` ends with an error it has called no destructor, and `out` holds what it
held followed by the text `vformat_to` appended, on the values the format arguments refer to,
before it threw that error. -/
theorem formatTo_error_destroys_nothing
    (vformatTo : List Char → List FmtValue → Formatted) (tys : List ArgType)
    (format : List Char) (m : Mem) (readEnd data : Nat) (out : List Char) {o : FormatOutcome}
    {e : String} (h : formatTo vformatTo tys format m readEnd data out = some o)
    (herr : o.ret = .error e) :
    o.destroyed = [] ∧ ∃ values, o.args.mapM (FmtArg.load m) = some values ∧
      (vformatTo format values).error = some e ∧ o.out = out ++ (vformatTo format values).text := by
  obtain ⟨ret, -, values, -, hvalues, hout, ⟨e', he, hret, hd⟩ | ⟨-, hret, -⟩⟩ :=
    formatTo_eq_some h
  · cases herr.symm.trans hret
    exact ⟨hd, values, hvalues, he, hout⟩
  · cases herr.symm.trans hret

/-- `anObject` decoded and then formatted by a formatter that throws part of the way. -/
theorem formatTo_error_destroys_nothing_object :
    ∃ o, formatTo throwingFormat [classType] [] (storeArgs [anObject] blankMem 0) 8 0 [] =
        some o ∧
      o.ret = .error "negative width" ∧ o.destroyed = [] ∧
      ∃ values, o.args.mapM (FmtArg.load (storeArgs [anObject] blankMem 0)) = some values ∧
        (throwingFormat [] values).error = some "negative width" ∧
        o.out = [] ++ (throwingFormat [] values).text :=
  have h : formatTo throwingFormat [classType] [] (storeArgs [anObject] blankMem 0) 8 0 [] =
      some ⟨.error "negative width", ['a', '=', '1', ' ', 'b', '='], [.value classType 0], []⟩ :=
    rfl
  ⟨_, h, rfl, formatTo_error_destroys_nothing throwingFormat [classType] [] _ 8 0 [] h rfl⟩

/-- **The error path leaks what the success path destroys.**  `decodeArgs` records `anObject`
in `dtor_args[0]`, and `format_to` with a throwing `vformat_to` destroys nothing. -/
theorem vformat_error_skips_destructors :
    ((decodeArgs (storeArgs [anObject] blankMem 0) 8 [classType] 0 (CArray.uninit 1) 0).bind
        fun r => r.2.2.read 0) = some 0 ∧
      (formatTo throwingFormat [classType] [] (storeArgs [anObject] blankMem 0) 8 0 []).map
        FormatOutcome.destroyed = some [] := by
  decide

end Quill
