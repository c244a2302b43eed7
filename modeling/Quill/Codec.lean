/-
# The codec refines the record layout

The four recursions of the codec against `Layout.lean`:

* `getArgsSizes_eq`: `get_args_sizes` returns the padding-free size of the arguments and
  stores the `strlen + 1` of the `k`-th C string at `c_string_sizes[k]`;
* `encodeArgs_eq`: with those sizes, `encode_args` stores the arguments as `storeArgs` does;
* `decodeArgs_of_holds`: in a buffer that holds zero-free arguments, `decodeArgs` ends where
  they end, builds the format argument of each at its address, and stores the address of the
  `j`-th argument that needs a destructor call at `dtor_args[j]`;
* `destructArgs_of_reads`: `destructArgs` reads those slots in order;
* `formatTo_of_holds`: so `format_to` returns the end of the record and formats the arguments'
  values (a C string as a `string_view`), and destroys the placement-constructed arguments only
  when `vformat_to` returns.

The producer side of a record is `encodeRecord`, the two steps of `Logger::log` that touch the
arguments.
-/
import Quill.Layout

set_option autoImplicit false

namespace Quill

/-! ## Counting -/

/-- The C string arguments, in order. -/
def cStringArgs (args : List Arg) : List Arg := args.filter fun a => isTypeOfCString a.type

/-- `fmt::detail::count<detail::is_type_of_c_string<FmtArgs>()...>()`. -/
def cStringCount (tys : List ArgType) : Nat := (tys.map isTypeOfCString).count true

theorem cStringCount_eq (args : List Arg) :
    cStringCount (args.map Arg.type) = (cStringArgs args).length := by
  simp only [cStringCount, cStringArgs, List.map_map]
  induction args with
  | nil => rfl
  | cons a args ih => cases h : isTypeOfCString a.type <;> simp_all [List.filter_cons]

theorem numDtors_eq (args : List Arg) (p : Nat) :
    numDtors (args.map Arg.type) = (dtorAddrs args p).length := by
  simp only [numDtors, dtorAddrs, List.map_map, List.length_map]
  induction args generalizing p with
  | nil => rfl
  | cons a args ih =>
    have hrest := ih (alignPointer a.type.align p + a.encodedSize)
    cases h : needCallDtorFor a.type <;> simp [List.filter_cons, layout, h, hrest]

theorem dtorAddrs_cons_of_dtor {a : Arg} (args : List Arg) (p : Nat)
    (h : needCallDtorFor a.type = true) :
    dtorAddrs (a :: args) p =
      alignPointer a.type.align p ::
        dtorAddrs args (alignPointer a.type.align p + a.encodedSize) := by
  simp [dtorAddrs, layout, List.filter_cons, h]

theorem dtorAddrs_cons_of_not {a : Arg} (args : List Arg) (p : Nat)
    (h : needCallDtorFor a.type = false) :
    dtorAddrs (a :: args) p = dtorAddrs args (alignPointer a.type.align p + a.encodedSize) := by
  simp [dtorAddrs, layout, List.filter_cons, h]

/-! ## Producer side -/

/-- `get_args_sizes` returns the padding-free size of the arguments, as a `size_t`, and fills
`c_string_sizes` from `k` on with the `strlen + 1` of each C string. -/
theorem getArgsSizes_eq (args : List Arg) {k : Nat} {sizes : CArray}
    (h : k + (cStringArgs args).length ≤ sizes.size) :
    getArgsSizes k sizes args = some (argsSize args % 2 ^ 64,
      sizes.fill k ((cStringArgs args).map (·.strlen + 1))) := by
  induction args generalizing k sizes with
  | nil => rfl
  | cons a args ih =>
    by_cases hk : a.type.kind = .cString
    · have hc : cStringArgs (a :: args) = a :: cStringArgs args := by
        simp [cStringArgs, isTypeOfCString, hk]
      have hlen : a.strlen = a.chars.length :=
        Arg.strlen_of_zeroFree (Arg.zeroFree_of_cString hk)
      rw [hc, List.length_cons] at h
      have hrest := @ih (k + 1) (sizes.set k (a.chars.length + 1)) (by simp; omega)
      rw [getArgsSizes_cons_cString hk, hlen, CArray.write_eq_some (by omega)]
      simp [hrest, hc, CArray.fill, argsSize, Arg.encodedSize, hk, hlen]
    · have hc : cStringArgs (a :: args) = cStringArgs args := by
        simp [cStringArgs, isTypeOfCString, hk]
      rw [hc] at h ⊢
      by_cases hs : a.type.kind = .string
      · rw [getArgsSizes_cons_string hs, ih h]
        simp [argsSize, Arg.encodedSize, hs]
      · have hs' : a.type.isStringLike = false :=
          Bool.eq_false_iff.2 fun h' => ((ArgType.isStringLike_iff _).1 h').elim hk hs
        rw [getArgsSizes_cons_other hs', ih h]
        simp [argsSize, Arg.encodedSize_of_not_isStringLike hs']

/-- With the `strlen + 1` of each C string at its index, `encode_args` stores every argument
as `storeArgs` does and returns the end of the last. -/
theorem encodeArgs_eq (args : List Arg) {sizes : CArray} {k : Nat} (m : Mem) (p : Nat)
    (hs : ∀ j (h : j < (cStringArgs args).length),
      sizes.read (k + j) = some ((cStringArgs args)[j].strlen + 1)) :
    encodeArgs sizes k args m p = some (storeArgs args m p, argsEnd args p) := by
  induction args generalizing k m p with
  | nil => rfl
  | cons a args ih =>
    by_cases hk : a.type.kind = .cString
    · have hc : cStringArgs (a :: args) = a :: cStringArgs args := by
        simp [cStringArgs, isTypeOfCString, hk]
      have hlen : a.strlen = a.chars.length :=
        Arg.strlen_of_zeroFree (Arg.zeroFree_of_cString hk)
      have h0 : sizes.read k = some (a.strlen + 1) := by simpa [hc] using hs 0 (by simp [hc])
      have hrest : ∀ m' p', encodeArgs sizes (k + 1) args m' p' =
          some (storeArgs args m' p', argsEnd args p') := fun m' p' =>
        @ih (k + 1) m' p' fun j hj => by
          rw [show k + 1 + j = k + (j + 1) by omega]
          simpa [hc] using hs (j + 1) (by simp [hc]; omega)
      have hmem : memcpySource (a.chars ++ [0]) (a.chars.length + 1) = some (a.chars ++ [0]) := by
        have := memcpySource_length (a.chars ++ [0])
        rwa [List.length_append, List.length_singleton] at this
      rw [encodeArgs_cons_cString hk, h0, hlen]
      simp [hmem, hrest, storeArgs, argsEnd, Arg.store, Arg.encodedSize, hk, hlen]
    · have hc : cStringArgs (a :: args) = cStringArgs args := by
        simp [cStringArgs, isTypeOfCString, hk]
      rw [hc] at hs
      cases hkind : a.type.kind with
      | cString => exact absurd hkind hk
      | string =>
        rw [encodeArgs_cons_string hkind, ← Mem.writeBytes_append_single, ih _ _ hs]
        simp [storeArgs, argsEnd, Arg.store, Arg.encodedSize, hkind, Nat.add_assoc]
      | triviallyCopyable =>
        rw [encodeArgs_cons_trivially hkind, ih _ _ hs]
        simp [storeArgs, argsEnd, Arg.store, Arg.encodedSize, hkind]
      | nonTriviallyCopyable =>
        rw [encodeArgs_cons_nontrivially hkind, ih _ _ hs]
        simp [storeArgs, argsEnd, Arg.store, Arg.encodedSize, hkind]

/-- The C strings fit in the scratch array `Logger::log` allocates. -/
theorem cStringArgs_length_le (args : List Arg) :
    0 + (cStringArgs args).length ≤
      (CArray.uninit (max (cStringCount (args.map Arg.type)) 1)).size := by
  show _ ≤ max _ 1
  rw [cStringCount_eq]
  omega

/-- The scratch array `Logger::log` allocates, `size_t c_string_sizes[max(c_string_count, 1)]`,
filled as `get_args_sizes` leaves it. -/
theorem getArgsSizes_uninit (args : List Arg) :
    getArgsSizes 0 (CArray.uninit (max (cStringCount (args.map Arg.type)) 1)) args =
      some (argsSize args % 2 ^ 64, (CArray.uninit (max (cStringCount (args.map Arg.type)) 1)).fill
        0 ((cStringArgs args).map (·.strlen + 1))) :=
  getArgsSizes_eq args (cStringArgs_length_le args)

/-- `encode_args` with the array `get_args_sizes` filled stores the arguments as `storeArgs`
does. -/
theorem encodeArgs_uninit_fill (args : List Arg) (m : Mem) (p : Nat) :
    encodeArgs ((CArray.uninit (max (cStringCount (args.map Arg.type)) 1)).fill 0
      ((cStringArgs args).map (·.strlen + 1))) 0 args m p =
        some (storeArgs args m p, argsEnd args p) := by
  refine encodeArgs_eq args m p fun j hj => ?_
  have := CArray.read_fill _ 0 ((cStringArgs args).map (·.strlen + 1))
    (show j < ((cStringArgs args).map (·.strlen + 1)).length by simpa using hj)
    (by simpa using cStringArgs_length_le args)
  simpa using this

/-- The argument half of `Logger::log`: `get_args_sizes` into a fresh `c_string_sizes` array of
`max(c_string_count, 1)` elements, then `encode_args` with it. -/
def encodeRecord (args : List Arg) (m : Mem) (p : Nat) : Option (Mem × Nat) := do
  let (_, cStringSizes) ←
    getArgsSizes 0 (CArray.uninit (max (cStringCount (args.map Arg.type)) 1)) args
  encodeArgs cStringSizes 0 args m p

/-- The producer stores a record's arguments as `storeArgs` lays them out. -/
theorem encodeRecord_eq (args : List Arg) (m : Mem) (p : Nat) :
    encodeRecord args m p = some (storeArgs args m p, argsEnd args p) := by
  rw [encodeRecord, getArgsSizes_uninit]
  exact encodeArgs_uninit_fill args m p

/-! ## Consumer side -/

/-- In a buffer that holds zero-free arguments, `decodeArgs` ends where they end, builds the
format argument of each at its address, and stores the address of the `j`-th argument that
needs a destructor call at `dtor_args[DestructIdx + j]`. -/
theorem decodeArgs_of_holds {m : Mem} {readEnd : Nat} (args : List Arg) {p d : Nat}
    {dtors : CArray} (hm : Holds m args p) (hz : ∀ a ∈ args, a.ZeroFree)
    (hend : argsEnd args p ≤ readEnd) (hd : d + (dtorAddrs args p).length ≤ dtors.size) :
    decodeArgs m readEnd (args.map Arg.type) d dtors p =
      some (argsEnd args p, (layout args p).map (fun x => x.2.fmtArg x.1),
        dtors.fill d (dtorAddrs args p)) := by
  induction args generalizing p d dtors with
  | nil => rfl
  | cons a args ih =>
    obtain ⟨ha, hrest⟩ := hm
    have hzrest : ∀ b ∈ args, b.ZeroFree := fun b hb => hz b (List.mem_cons_of_mem a hb)
    have hq := le_argsEnd args (alignPointer a.type.align p + a.encodedSize)
    simp only [argsEnd] at hend
    simp only [argsEnd, layout, List.map_cons]
    cases hs : a.type.isStringLike
    · cases hdt : needCallDtorFor a.type
      · rw [dtorAddrs_cons_of_not args p hdt] at hd ⊢
        simp only [Arg.encodedSize_of_not_isStringLike hs] at hd hend hrest ⊢
        rw [decodeArgs_cons_plain hs hdt, ih hrest hzrest hend hd]
        simp [Arg.fmtArg, hs]
      · rw [dtorAddrs_cons_of_dtor args p hdt] at hd ⊢
        simp only [Arg.encodedSize_of_not_isStringLike hs, List.length_cons] at hd hend hrest ⊢
        rw [decodeArgs_cons_dtor hs hdt, CArray.write_eq_some (by omega)]
        have hrec := @ih _ (d + 1) (dtors.set d (alignPointer a.type.align p)) hrest hzrest hend
          (by simp; omega)
        simp [hrec, Arg.fmtArg, hs, CArray.fill]
    · have hdt := needCallDtorFor_of_isStringLike hs
      rw [dtorAddrs_cons_of_not args p hdt] at hd ⊢
      simp only [Arg.encodedSize_of_isStringLike hs] at hd hend hrest hq ⊢
      rw [decodeArgs_cons_string hs, strlen_of_readBytes (ha.chars hs)
        (show a.chars.length < readEnd - alignPointer a.type.align p by omega),
        (takeWhile_ne_zero_length _).2 (hz a (List.mem_cons_self a args))]
      rw [← Nat.add_assoc] at hd hend hrest ⊢
      simp [ih hrest hzrest hend hd, Arg.fmtArg, hs]

/-- `destructArgs` reads `destruct_args[DestructIdx + j]` for the `j`-th type that needs a
destructor call, and nothing else. -/
theorem destructArgs_of_reads {dtors : CArray} (tys : List ArgType) {d : Nat} {addrs : List Nat}
    (hlen : addrs.length = numDtors tys)
    (hr : ∀ j (h : j < addrs.length), dtors.read (d + j) = some addrs[j]) :
    destructArgs dtors tys d = some addrs := by
  induction tys generalizing d addrs with
  | nil => cases addrs with
    | nil => rfl
    | cons => simp [numDtors] at hlen
  | cons t ts ih =>
    cases hdt : needCallDtorFor t
    · have hlen' : addrs.length = numDtors ts := by simpa [numDtors, hdt] using hlen
      simp [destructArgs, hdt, ih hlen' hr]
    · obtain ⟨p, addrs, rfl⟩ : ∃ p rest, addrs = p :: rest := by
        cases addrs with
        | nil => simp [numDtors, hdt] at hlen
        | cons p rest => exact ⟨p, rest, rfl⟩
      have hlen' : addrs.length = numDtors ts := by simpa [numDtors, hdt] using hlen
      have h0 : dtors.read d = some p := by simpa using hr 0 (by simp)
      have hrest := @ih (d + 1) addrs hlen' fun j hj => by
        simpa [Nat.add_assoc, Nat.add_comm 1] using hr (j + 1) (by simp; omega)
      simp [destructArgs, hdt, h0, hrest]

/-- The addresses to destroy fit in the array `format_to` allocates,
`dtor_args[max(num_dtors, 1)]`. -/
theorem dtorAddrs_length_le (args : List Arg) (p : Nat) :
    0 + (dtorAddrs args p).length ≤
      (CArray.uninit (max (numDtors (args.map Arg.type)) 1)).size := by
  show _ ≤ max _ 1
  rw [numDtors_eq args p]
  omega

/-- `format_to` on a buffer that holds zero-free arguments: it formats the arguments' values, each
C string as a `string_view`, appends what `vformat_to` writes, and returns the end of the record
and destroys each placement-constructed argument once when `vformat_to` returns; an error from
`vformat_to` leaves with nothing destroyed. -/
theorem formatTo_of_holds (vformatTo : List Char → List FmtValue → Formatted)
    (args : List Arg) (format : List Char) {m : Mem} {readEnd p : Nat} (out : List Char)
    (hm : Holds m args p) (hz : ∀ a ∈ args, a.ZeroFree) (hend : argsEnd args p ≤ readEnd) :
    formatTo vformatTo (args.map Arg.type) format m readEnd p out =
      some (match (vformatTo format (args.map Arg.decodedValue)).error with
        | some e => ⟨.error e, out ++ (vformatTo format (args.map Arg.decodedValue)).text,
            (layout args p).map (fun x => x.2.fmtArg x.1), []⟩
        | none => ⟨.ok (argsEnd args p),
            out ++ (vformatTo format (args.map Arg.decodedValue)).text,
            (layout args p).map (fun x => x.2.fmtArg x.1), dtorAddrs args p⟩) := by
  have hsize := dtorAddrs_length_le args p
  have hdestruct : destructArgs ((CArray.uninit (max (numDtors (args.map Arg.type)) 1)).fill 0
      (dtorAddrs args p)) (args.map Arg.type) 0 = some (dtorAddrs args p) :=
    destructArgs_of_reads _ (numDtors_eq args p).symm fun j hj => by
      simpa using CArray.read_fill _ 0 _ hj (by simpa using hsize)
  rw [formatTo, decodeArgs_of_holds args hm hz hend hsize]
  simp only [Option.bind_eq_bind, Option.some_bind]
  rw [hm.mapM_load]
  simp only [Option.some_bind]
  cases (vformatTo format (args.map Arg.decodedValue)).error <;> simp [hdestruct]

end Quill
