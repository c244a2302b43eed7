/-
# Argument types and values of a log call

The argument codec of `LogMacroMetadata.h` (`detail::get_args_sizes`, `detail::encode_args`,
`detail::decodeArgs`, `detail::destructArgs`) is a family of compile-time recursions over the
argument types `Args...` of one call site.  Each of them asks the same few questions of a type:
does fmt map it to a C string (`is_type_of_c_string`) or to a string (`is_type_of_string`), is it
trivially copyable, does it need a destructor call (`need_call_dtor_for`), and what are its
`sizeof` and `alignof`.  An `ArgType` records exactly these answers.  The C++ rules that tie them
together (sizes and alignments are positive, C strings and trivially copyable types are
trivially destructible) are fields, so no other type can be built.

An `Arg` is a value of such a type as `Logger::log` receives it, and `FmtValue` is what fmt
formats: `Arg.fmtValue` is the value `fmt::format(format, args...)` would see, `FmtArg` is what
`decodeArgs` stores in the `args` vector (a `string_view`, or a reference to a value in the
queue's buffer), and `Arg.decodedValue` is the value that refers to.  The two values differ for a
C string only: fmt sees a `char const*` in the call and a `string_view` in the backend.
-/
import Mathlib.Data.List.Basic
import Mathlib.Algebra.Group.Nat.Basic

set_option autoImplicit false

namespace Quill

/-! ## Argument types -/

/-- The four ways the codec treats an argument type. -/
inductive TypeKind where
  /-- fmt maps the type to `cstring_type` (`char const*` and character arrays). -/
  | cString
  /-- fmt maps the type to `string_type` (`std::string`, `std::string_view`, …). -/
  | string
  /-- Any other trivially copyable type: `encode_args` copies it with `memcpy`. -/
  | triviallyCopyable
  /-- Any other type: `encode_args` copy-constructs it in the buffer with placement new. -/
  | nonTriviallyCopyable
  deriving DecidableEq, Repr

/-- An argument type `Arg` of a call site, as the codec's recursions see it. -/
structure ArgType where
  kind : TypeKind
  /-- `sizeof(fmt::remove_cvref_t<Arg>)`. -/
  size : Nat
  /-- `alignof(Arg)`. -/
  align : Nat
  /-- `std::is_trivially_destructible<fmt::remove_cvref_t<Arg>>::value`. -/
  triviallyDestructible : Bool
  size_pos : 0 < size
  align_pos : 0 < align
  /-- Pointers, character arrays and trivially copyable types have trivial destructors. -/
  destructible : kind = .cString ∨ kind = .triviallyCopyable → triviallyDestructible = true
  deriving DecidableEq

/-- `detail::is_type_of_c_string<Arg>()`. -/
def isTypeOfCString (t : ArgType) : Bool := t.kind == .cString

/-- `detail::is_type_of_string<Arg>()`. -/
def isTypeOfString (t : ArgType) : Bool := t.kind == .string

/-- `detail::need_call_dtor_for<Arg>()`: string-like types are never destroyed, every other type
is destroyed unless its destructor is trivial. -/
def needCallDtorFor (t : ArgType) : Bool :=
  if isTypeOfString t then false else !t.triviallyDestructible

/-- The types that need a destructor call are exactly the placement-constructed ones whose
destructor is not trivial. -/
theorem needCallDtorFor_iff (t : ArgType) :
    needCallDtorFor t = true ↔
      t.kind = .nonTriviallyCopyable ∧ t.triviallyDestructible = false := by
  obtain ⟨k, _, _, d, _, _, hd⟩ := t
  cases k <;> cases d <;> simp [needCallDtorFor, isTypeOfString] at hd ⊢

/-- Whether an argument of type `t` is decoded as a string (`is_type_of_c_string<Arg>() ||
is_type_of_string<Arg>()`). -/
def ArgType.isStringLike (t : ArgType) : Bool := isTypeOfCString t || isTypeOfString t

theorem ArgType.isStringLike_iff (t : ArgType) :
    t.isStringLike = true ↔ t.kind = .cString ∨ t.kind = .string := by
  simp [ArgType.isStringLike, isTypeOfCString, isTypeOfString]

theorem ArgType.kind_of_not_isStringLike {t : ArgType} (h : t.isStringLike = false) :
    t.kind = .triviallyCopyable ∨ t.kind = .nonTriviallyCopyable := by
  simp only [ArgType.isStringLike, isTypeOfCString, isTypeOfString] at h
  cases hk : t.kind <;> simp_all

theorem needCallDtorFor_of_isStringLike {t : ArgType} (h : t.isStringLike = true) :
    needCallDtorFor t = false := by
  rcases (ArgType.isStringLike_iff t).1 h with hk | hk
  · simp [needCallDtorFor, isTypeOfString, hk, t.destructible (.inl hk)]
  · simp [needCallDtorFor, isTypeOfString, hk]

/-! ## Argument values -/

/-- A value passed to `Logger::log`. -/
inductive ArgValue where
  /-- The characters of a C string before its terminator, or the bytes of a string. -/
  | str (s : List UInt8)
  /-- The object representation of a trivially copyable value. -/
  | raw (b : List UInt8)
  /-- A value that is copied by its copy constructor; the copy has the same value. -/
  | obj (v : Nat)
  deriving DecidableEq, Repr

/-- Which values a type has: a C string holds no zero byte before its terminator (a string may),
and a trivially copyable value is `sizeof` bytes. -/
def ArgValue.Fits : ArgValue → ArgType → Prop
  | .str s, t => (t.kind = .cString ∧ 0 ∉ s) ∨ t.kind = .string
  | .raw b, t => t.kind = .triviallyCopyable ∧ b.length = t.size
  | .obj _, t => t.kind = .nonTriviallyCopyable

/-- An argument of `Logger::log`: a value of its type. -/
structure Arg where
  type : ArgType
  value : ArgValue
  fits : value.Fits type

namespace Arg

/-- The characters of a string-like argument. -/
def chars (a : Arg) : List UInt8 := match a.value with
  | .str s => s
  | _ => []

/-- The object representation of a trivially copyable argument. -/
def bytes (a : Arg) : List UInt8 := match a.value with
  | .raw b => b
  | _ => []

/-- The value of a placement-constructed argument. -/
def object (a : Arg) : Nat := match a.value with
  | .obj v => v
  | _ => 0

/-- `strlen(arg)` of a C string argument, whose bytes are its characters and a terminator. -/
def strlen (a : Arg) : Nat := ((a.chars ++ [0]).takeWhile (· ≠ 0)).length

/-- An owned string with no zero byte: the arguments the zero-terminated wire format can carry.
C strings and the other kinds always are. -/
def ZeroFree (a : Arg) : Prop := 0 ∉ a.chars

instance (a : Arg) : Decidable a.ZeroFree := inferInstanceAs (Decidable (0 ∉ a.chars))

theorem chars_of_string_like {a : Arg} (h : a.type.isStringLike = true) :
    a.value = .str a.chars := by
  obtain ⟨t, v, hv⟩ := a
  rcases (ArgType.isStringLike_iff t).1 h with hk | hk <;>
    cases v <;> simp [ArgValue.Fits, hk, chars] at hv ⊢

theorem value_of_trivially {a : Arg} (h : a.type.kind = .triviallyCopyable) :
    a.value = .raw a.bytes ∧ a.bytes.length = a.type.size := by
  obtain ⟨t, v, hv⟩ := a
  dsimp only at h
  cases v <;> simp [ArgValue.Fits, h, bytes] at hv ⊢
  exact hv

theorem value_of_nontrivially {a : Arg} (h : a.type.kind = .nonTriviallyCopyable) :
    a.value = .obj a.object := by
  obtain ⟨t, v, hv⟩ := a
  dsimp only at h
  cases v <;> simp [ArgValue.Fits, h, object] at hv ⊢

theorem zeroFree_of_cString {a : Arg} (h : a.type.kind = .cString) : a.ZeroFree := by
  obtain ⟨t, v, hv⟩ := a
  dsimp only at h
  cases v <;> simp [ArgValue.Fits, h, ZeroFree, chars] at hv ⊢
  exact hv

/-- The `strlen` of a C string argument is the number of its characters. -/
theorem strlen_of_zeroFree {a : Arg} (h : a.ZeroFree) : a.strlen = a.chars.length := by
  have hall : a.chars.takeWhile (fun x => !decide (x = 0)) = a.chars :=
    List.takeWhile_eq_self_iff.2 fun x hx => by
      have hx0 : x ≠ 0 := fun h0 => h (h0 ▸ hx)
      simpa using hx0
  simp [strlen, List.takeWhile_append, hall]

end Arg

/-! ## What fmt formats -/

/-- A value as fmt formats it. -/
inductive FmtValue where
  /-- A `char const*` (fmt's `cstring_type`) to the characters `s` and a terminator: fmt
  formats the characters, or with the `p` presentation the pointer itself. -/
  | cString (s : List UInt8)
  /-- A `string_view` (fmt's `string_type`): fmt formats its characters, and has no `p`
  presentation for it. -/
  | string (s : List UInt8)
  /-- A trivially copyable value, by its object representation. -/
  | raw (t : ArgType) (b : List UInt8)
  /-- A placement-constructed value. -/
  | obj (t : ArgType) (v : Nat)
  deriving DecidableEq

/-- The value `fmt::format(format, args...)` formats for an original argument: a C string is a
`char const*`, an owned string a `string_view`. -/
def Arg.fmtValue (a : Arg) : FmtValue :=
  match a.value with
  | .str s => if isTypeOfCString a.type then .cString s else .string s
  | .raw b => .raw a.type b
  | .obj v => .obj a.type v

/-- The value the backend formats for an argument: `decodeArgs` passes a C string, as it passes
an owned string, as a `string_view` of its characters. -/
def Arg.decodedValue (a : Arg) : FmtValue :=
  match a.value with
  | .str s => .string s
  | .raw b => .raw a.type b
  | .obj v => .obj a.type v

/-- A `fmt::basic_format_arg` as `decodeArgs` builds it: a `string_view` (pointer and size) into
the buffer, or `make_arg(*(ArgType*)in)`, which refers to the value at `in`. -/
inductive FmtArg where
  | stringView (data size : Nat)
  | value (t : ArgType) (data : Nat)
  deriving DecidableEq

/-! ## Types of a 64-bit target -/

/-- `std::string` on a 64-bit target. -/
def stdString : ArgType := ⟨.string, 32, 8, false, by decide, by decide, by decide⟩

/-- A string literal `char const[2]`. -/
def charArray2 : ArgType := ⟨.cString, 2, 1, true, by decide, by decide, by decide⟩

/-- A string literal `char const[6]`. -/
def charArray6 : ArgType := ⟨.cString, 6, 1, true, by decide, by decide, by decide⟩

/-- `int`. -/
def int32 : ArgType := ⟨.triviallyCopyable, 4, 4, true, by decide, by decide, by decide⟩

/-- `uint32_t`. -/
def uint32 : ArgType := ⟨.triviallyCopyable, 4, 4, true, by decide, by decide, by decide⟩

/-- A class of 8 bytes with a user-provided copy constructor and destructor. -/
def classType : ArgType := ⟨.nonTriviallyCopyable, 8, 8, false, by decide, by decide, by decide⟩

end Quill
