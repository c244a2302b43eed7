/-
# The call site's metadata and its file name

`LogMacroMetadata` (`LogMacroMetadata.h`) and `MacroMetadata` (`MacroMetadata.h`) hold the
compile-time description of a logging call site: its path, the file name within the path, the
message format, the level and the kind of event.  Both constructors compute the file name with
`_extract_source_file_name`, but the two classes compute it differently:

* `LogMacroMetadata` by three constexpr recursions, `_str_slant` (is there a delimiter?),
  `_str_end` (where is the terminator?) and `_r_slant` (scan back from the terminator);
* `MacroMetadata` by a loop that remembers the position after the last delimiter passed.

A NUL-terminated string is modelled by its characters before the terminator, and a pointer into
it by its offset from the start.  The main results:

* `extractSourceFileName_last_delimiter`: the loop returns the offset just past the last
  delimiter, or the start when there is none, so `filename()` is a suffix with no delimiter;
* `rSlant_misses_leading_delimiter`: `_r_slant` returns `str_begin` without reading it, so for a
  path whose only delimiter is its first character the recursive version returns the whole path;
* `extractSourceFileName_agree_iff`: on every other string the two versions agree.
-/
import Mathlib.Data.List.Basic

set_option autoImplicit false

namespace Quill

/-! ## Levels and events -/

/-- `quill::LogLevel`.  Its header is not among the sources; the enumerators are listed in the
order of `_log_level_to_string`'s table, which the enumerator's value indexes. -/
inductive LogLevel where
  | traceL3 | traceL2 | traceL1 | debug | info | warning | error | critical | backtrace | none
  deriving DecidableEq, Repr

/-- The enumerator's underlying value. -/
def LogLevel.toNat : LogLevel → Nat
  | .traceL3 => 0
  | .traceL2 => 1
  | .traceL1 => 2
  | .debug => 3
  | .info => 4
  | .warning => 5
  | .error => 6
  | .critical => 7
  | .backtrace => 8
  | .none => 9

/-- Levels compare by their underlying values, as the built-in comparison of an enum class. -/
instance : LE LogLevel := ⟨fun a b => a.toNat ≤ b.toNat⟩

instance (a b : LogLevel) : Decidable (a ≤ b) := inferInstanceAs (Decidable (a.toNat ≤ b.toNat))

/-- `LogMacroMetadata::Event` and `MacroMetadata::Event`. -/
inductive Event where
  | log | initBacktrace | flushBacktrace | flush
  deriving DecidableEq, Repr

/-! ## Strings and the path delimiter -/

/-- The terminating NUL character. -/
def nul : Char := Char.ofNat 0

/-- `path_delimiter` of `Common.h`: a backslash on Windows, a slash elsewhere. -/
def pathDelimiter (win32 : Bool) : Char := if win32 then '\\' else '/'

theorem pathDelimiter_ne_nul (win32 : Bool) : pathDelimiter win32 ≠ nul := by
  cases win32 <;> decide

/-- `*str` for the pointer `str` into the string `s`: the terminator at offset `s.length`. -/
def charAt (s : List Char) (str : Nat) : Char := (s ++ [nul]).getD str nul

theorem charAt_append_length (pre rest : List Char) (c : Char) :
    charAt (pre ++ c :: rest) pre.length = c := by
  rw [charAt, List.getD_eq_getElem?_getD, List.append_assoc,
    List.getElem?_append_right (le_refl _)]
  simp

/-- Past a character `c`, the string holds only the characters after it and the terminator. -/
theorem charAt_ne_of_gt {pre rest : List Char} {c d : Char} (hd : d ≠ nul) (hr : d ∉ rest)
    {j : Nat} (hj : pre.length < j) : charAt (pre ++ c :: rest) j ≠ d := by
  obtain ⟨i, rfl⟩ : ∃ i, j = pre.length + 1 + i := ⟨j - pre.length - 1, by omega⟩
  have hget : charAt (pre ++ c :: rest) (pre.length + 1 + i) = (rest ++ [nul]).getD i nul := by
    simp [charAt, List.getD_eq_getElem?_getD, List.getElem?_append_right, Nat.add_assoc,
      Nat.add_comm 1 i]
  rw [hget, List.getD_eq_getElem?_getD]
  cases h : (rest ++ [nul])[i]? with
  | none => exact hd.symm
  | some x =>
    have hx : x ∈ rest ++ [nul] := List.getElem?_mem h
    rintro rfl
    simp only [List.mem_append, List.mem_singleton] at hx
    exact hx.elim hr hd

/-- A string with a delimiter splits at its last one. -/
theorem exists_last_split {d : Char} {s : List Char} (h : d ∈ s) :
    ∃ pre rest, s = pre ++ d :: rest ∧ d ∉ rest := by
  induction s with
  | nil => simp at h
  | cons c s ih =>
    by_cases hs : d ∈ s
    · obtain ⟨pre, rest, rfl, hr⟩ := ih hs
      exact ⟨c :: pre, rest, rfl, hr⟩
    · have hc : c = d := by simpa [hs, eq_comm] using h
      exact ⟨[], s, by simp [hc], hs⟩

/-! ## The recursive version of `LogMacroMetadata` -/

/-- `_str_end(str)`: the offset of the terminator; `rest` are the characters from `str` on. -/
def strEnd : List Char → Nat → Nat
  | [], str => str
  | _ :: rest, str => strEnd rest (str + 1)

/-- `_str_slant(str)`: whether a delimiter comes before the terminator.  At the terminator
`*str == path_delimiter` is false, and so is `*str`. -/
def strSlant (win32 : Bool) : List Char → Bool
  | [] => false
  | c :: rest => if c = pathDelimiter win32 then true else strSlant win32 rest

/-- `_r_slant(str_begin, str)` with `str_begin` at offset 0: scanning back from `str`, the offset
after the first delimiter met; `str_begin` itself is returned without being read. -/
def rSlant (win32 : Bool) (s : List Char) : Nat → Nat
  | 0 => 0
  | str + 1 => if charAt s (str + 1) = pathDelimiter win32 then str + 2 else rSlant win32 s str

/-- `LogMacroMetadata::_extract_source_file_name(str)`. -/
def LogMacroMetadata.extractSourceFileName (win32 : Bool) (s : List Char) : Nat :=
  if strSlant win32 s then rSlant win32 s (strEnd s 0) else 0

theorem strEnd_eq (rest : List Char) (str : Nat) : strEnd rest str = str + rest.length := by
  induction rest generalizing str with
  | nil => rfl
  | cons c rest ih =>
    rw [strEnd, ih]
    simp only [List.length_cons]
    omega

theorem strSlant_iff (win32 : Bool) (s : List Char) :
    strSlant win32 s = true ↔ pathDelimiter win32 ∈ s := by
  induction s with
  | nil => simp [strSlant]
  | cons c s ih =>
    by_cases hc : c = pathDelimiter win32
    · simp [strSlant, hc]
    · simp [strSlant, hc, ih, Ne.symm hc]

/-- A stretch with no delimiter is skipped. -/
theorem rSlant_of_no_delimiter (win32 : Bool) (s : List Char) {k n : Nat} (hk : k ≤ n)
    (h : ∀ j, k < j → j ≤ n → charAt s j ≠ pathDelimiter win32) :
    rSlant win32 s n = rSlant win32 s k := by
  induction n with
  | zero => rw [Nat.le_zero.1 hk]
  | succ n ih =>
    rcases Nat.lt_or_ge k (n + 1) with hlt | hge
    · rw [rSlant, if_neg (h _ hlt le_rfl)]
      exact ih (by omega) fun j hj hjn => h j hj (by omega)
    · rw [Nat.le_antisymm hk hge]

/-- The recursive version returns the offset after the last delimiter, except when that
delimiter is the first character. -/
theorem logExtract_of_split (win32 : Bool) {pre rest : List Char}
    (hr : pathDelimiter win32 ∉ rest) :
    LogMacroMetadata.extractSourceFileName win32 (pre ++ pathDelimiter win32 :: rest) =
      if pre = [] then 0 else pre.length + 1 := by
  have hs : strSlant win32 (pre ++ pathDelimiter win32 :: rest) = true := by
    simp [strSlant_iff]
  have hskip := @rSlant_of_no_delimiter win32 (pre ++ pathDelimiter win32 :: rest) pre.length
    (pre ++ pathDelimiter win32 :: rest).length (by simp)
    fun j hj _ => charAt_ne_of_gt (pathDelimiter_ne_nul win32) hr hj
  rw [LogMacroMetadata.extractSourceFileName, if_pos hs, strEnd_eq, Nat.zero_add, hskip]
  cases pre with
  | nil => rfl
  | cons c pre =>
    have hc := charAt_append_length (c :: pre) rest (pathDelimiter win32)
    rw [List.length_cons] at hc ⊢
    rw [rSlant, if_pos hc]
    simp

theorem logExtract_of_not_mem (win32 : Bool) {s : List Char} (h : pathDelimiter win32 ∉ s) :
    LogMacroMetadata.extractSourceFileName win32 s = 0 := by
  rw [LogMacroMetadata.extractSourceFileName, if_neg (by rwa [strSlant_iff])]

/-! ## The loop of `MacroMetadata` -/

/-- The loop `while (*path) { if (*path++ == path_delimiter) { file = path; } }`: `rest` are the
characters from `path` on, and `file` is the offset after the last delimiter passed. -/
def extractLoop (win32 : Bool) : List Char → Nat → Nat → Nat
  | [], _, file => file
  | c :: rest, path, file =>
    extractLoop win32 rest (path + 1) (if c = pathDelimiter win32 then path + 1 else file)

/-- `MacroMetadata::_extract_source_file_name(path)`: `file` starts at `path`. -/
def MacroMetadata.extractSourceFileName (win32 : Bool) (s : List Char) : Nat :=
  extractLoop win32 s 0 0

theorem extractLoop_of_not_mem (win32 : Bool) {rest : List Char}
    (h : pathDelimiter win32 ∉ rest) (path file : Nat) :
    extractLoop win32 rest path file = file := by
  induction rest generalizing path with
  | nil => rfl
  | cons c rest ih =>
    simp only [List.mem_cons, not_or] at h
    rw [extractLoop, if_neg (Ne.symm h.1), ih h.2]

theorem extractLoop_of_split (win32 : Bool) {rest : List Char}
    (hr : pathDelimiter win32 ∉ rest) (pre : List Char) (path file : Nat) :
    extractLoop win32 (pre ++ pathDelimiter win32 :: rest) path file = path + pre.length + 1 := by
  induction pre generalizing path file with
  | nil => simp [extractLoop, extractLoop_of_not_mem win32 hr]
  | cons c pre ih =>
    rw [List.cons_append, extractLoop, ih, List.length_cons]
    omega

/-- **The loop finds the last delimiter.**  `MacroMetadata::_extract_source_file_name(s)` returns
`s + (i + 1)` for the index `i` of the last delimiter of `s`, and `s` itself when there is none;
so `filename()` is a suffix of `pathname()` without a delimiter. -/
theorem extractSourceFileName_last_delimiter (win32 : Bool) (s : List Char) :
    (pathDelimiter win32 ∉ s ∧ MacroMetadata.extractSourceFileName win32 s = 0) ∨
      ∃ pre rest, s = pre ++ pathDelimiter win32 :: rest ∧ pathDelimiter win32 ∉ rest ∧
        MacroMetadata.extractSourceFileName win32 s = pre.length + 1 := by
  by_cases h : pathDelimiter win32 ∈ s
  · obtain ⟨pre, rest, rfl, hr⟩ := exists_last_split h
    refine .inr ⟨pre, rest, rfl, hr, ?_⟩
    rw [MacroMetadata.extractSourceFileName, extractLoop_of_split win32 hr, Nat.zero_add]
  · exact .inl ⟨h, extractLoop_of_not_mem win32 h 0 0⟩

/-- **`_r_slant` never reads `str_begin`.**  For a path whose only delimiter is its first
character, the recursive version returns the whole path and the loop the rest after the
delimiter. -/
theorem rSlant_misses_leading_delimiter (win32 : Bool) (rest : List Char)
    (h : pathDelimiter win32 ∉ rest) :
    LogMacroMetadata.extractSourceFileName win32 (pathDelimiter win32 :: rest) = 0 ∧
      MacroMetadata.extractSourceFileName win32 (pathDelimiter win32 :: rest) = 1 :=
  ⟨@logExtract_of_split win32 [] rest h, extractLoop_of_split win32 h [] 0 0⟩

/-- `/main` on a POSIX target. -/
theorem rSlant_misses_leading_delimiter_main :
    '/' ∉ ['m', 'a', 'i', 'n'] ∧
      LogMacroMetadata.extractSourceFileName false ['/', 'm', 'a', 'i', 'n'] = 0 ∧
      MacroMetadata.extractSourceFileName false ['/', 'm', 'a', 'i', 'n'] = 1 :=
  ⟨by decide, rSlant_misses_leading_delimiter false ['m', 'a', 'i', 'n'] (by decide)⟩

/-- **Where the two versions agree.**  The recursive and the loop version of
`_extract_source_file_name` return the same pointer exactly when the string is not a delimiter
followed by delimiter-free characters. -/
theorem extractSourceFileName_agree_iff (win32 : Bool) (s : List Char) :
    LogMacroMetadata.extractSourceFileName win32 s = MacroMetadata.extractSourceFileName win32 s ↔
      ¬∃ rest, s = pathDelimiter win32 :: rest ∧ pathDelimiter win32 ∉ rest := by
  by_cases h : pathDelimiter win32 ∈ s
  · obtain ⟨pre, rest, rfl, hr⟩ := exists_last_split h
    rw [logExtract_of_split win32 hr, MacroMetadata.extractSourceFileName,
      extractLoop_of_split win32 hr]
    cases pre with
    | nil => simp [hr]
    | cons c pre => simp
  · rw [logExtract_of_not_mem win32 h, MacroMetadata.extractSourceFileName,
      extractLoop_of_not_mem win32 h]
    simp only [true_iff, not_exists, not_and]
    rintro rest rfl
    simp at h

/-! ## The metadata -/

/-- The fields of `LogMacroMetadata` and `MacroMetadata` the model reads: the path, the offset of
the file name in it, the message format, the level and the event. -/
structure MacroMetadata where
  pathname : List Char
  filename : Nat
  messageFormat : List Char
  level : LogLevel
  event : Event

/-- `LogMacroMetadata(lineno, pathname, func, message_format, level, event)`. -/
def LogMacroMetadata.new (win32 : Bool) (pathname messageFormat : List Char) (level : LogLevel)
    (event : Event) : MacroMetadata :=
  ⟨pathname, LogMacroMetadata.extractSourceFileName win32 pathname, messageFormat, level, event⟩

/-- `MacroMetadata(lineno, pathname, func, message_format, level, event)`. -/
def MacroMetadata.new (win32 : Bool) (pathname messageFormat : List Char) (level : LogLevel)
    (event : Event) : MacroMetadata :=
  ⟨pathname, MacroMetadata.extractSourceFileName win32 pathname, messageFormat, level, event⟩

end Quill
