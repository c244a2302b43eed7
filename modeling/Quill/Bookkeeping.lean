/-
# `format_to`'s bookkeeping, whatever the bytes

`format_to<Args...>` declares `const std::byte* dtor_args[std::max(num_dtors, 1)]`;
`decodeArgs` stores in `dtor_args[DestructIdx]` the address of each argument whose type needs a
destructor call, and `destructArgs` reads them back to call `~ArgType()`.  The results of the
other modules are about records `Logger::log` wrote.  Here the bytes are arbitrary: a record
misframed by an owned string with a zero byte, or any other corruption, and the results say what
the bookkeeping still guarantees:

* `decodeArgs_spec`: whenever `decodeArgs` returns, the array holds, from `DestructIdx` on, the
  addresses of exactly the format arguments whose type needs a destructor, and those addresses
  increase from the aligned `in` to below the returned pointer;
* `decodeArgs_map_eq`: the array never makes `decodeArgs` fail: any array with room for the
  `num_dtors` addresses gives the same pointer and format arguments;
* `decodeArgs_bookkeeping`: so with the array `format_to` declares, `destructArgs` reads back
  one address per argument that needs a destructor, none of them indeterminate, all distinct;
* `formatTo_destroyed`: what `format_to` destroys lies, increasing, between `data` and the
  pointer it returns, which is where the backend reads the next record.
-/
import Quill.Codec

set_option autoImplicit false

namespace Quill

/-! ## Where the format arguments point -/

/-- The address a format argument refers to: the first character of a `string_view`, or the
value `make_arg` refers to. -/
def FmtArg.data : FmtArg → Nat
  | .stringView data _ => data
  | .value _ data => data

/-- The addresses of the format arguments whose type needs a destructor call, in order: where
`destructArgs` has to call `~ArgType()`. -/
def dtorSlots : List FmtArg → List Nat
  | [] => []
  | .stringView _ _ :: args => dtorSlots args
  | .value t q :: args => if needCallDtorFor t then q :: dtorSlots args else dtorSlots args

theorem dtorSlots_sublist (args : List FmtArg) :
    (dtorSlots args).Sublist (args.map FmtArg.data) := by
  induction args with
  | nil => exact List.Sublist.slnil
  | cons a args ih =>
    cases a with
    | stringView _ _ => exact ih.cons _
    | value t q =>
      by_cases h : needCallDtorFor t
      · simpa [dtorSlots, h, FmtArg.data] using ih.cons₂ q
      · simpa [dtorSlots, h] using ih.cons q

theorem numDtors_cons (t : ArgType) (ts : List ArgType) :
    numDtors (t :: ts) = (if needCallDtorFor t then 1 else 0) + numDtors ts := by
  cases h : needCallDtorFor t <;> simp [numDtors, List.count_cons, h, Nat.add_comm]

/-- The format arguments lie at increasing addresses, from `p` to below `ret`. -/
def Spread (args : List FmtArg) (p ret : Nat) : Prop :=
  p ≤ ret ∧ (args.map FmtArg.data).Pairwise (· < ·) ∧ ∀ a ∈ args, p ≤ a.data ∧ a.data < ret

/-- An argument at `q` in front of arguments spread from past `q`. -/
theorem Spread.cons {p q q' ret : Nat} {a : FmtArg} {args : List FmtArg} (hp : p ≤ q)
    (hq : q < q') (ha : a.data = q) (h : Spread args q' ret) : Spread (a :: args) p ret := by
  obtain ⟨hret, hsort, hmem⟩ := h
  refine ⟨by omega, List.pairwise_cons.2 ⟨?_, hsort⟩, ?_⟩
  · intro x hx
    obtain ⟨b, hb, rfl⟩ := List.mem_map.1 hx
    have := (hmem b hb).1
    omega
  · intro b hb
    rcases List.mem_cons.1 hb with rfl | hb
    · omega
    · have := hmem b hb
      omega

/-! ## One run of `decodeArgs` -/

section decodeArgs

variable {m : Mem} {readEnd : Nat}

/-- **What `decodeArgs` does with any bytes.**  Started at `DestructIdx = d` with room for the
`num_dtors` addresses it records, `decodeArgs` returns, if it returns, the array with the
addresses of the format arguments whose type needs a destructor stored from `d` on, and format
arguments whose addresses increase from `in` to below the returned pointer. -/
theorem decodeArgs_spec (tys : List ArgType) {d p ret : Nat} {dtors dtors' : CArray}
    {args : List FmtArg} (hroom : d + numDtors tys ≤ dtors.size)
    (h : decodeArgs m readEnd tys d dtors p = some (ret, args, dtors')) :
    dtors' = dtors.fill d (dtorSlots args) ∧ (dtorSlots args).length = numDtors tys ∧
      Spread args p ret := by
  induction tys generalizing d p ret dtors dtors' args with
  | nil =>
    cases h
    exact ⟨rfl, rfl, le_rfl, List.Pairwise.nil, fun _ h => absurd h (List.not_mem_nil _)⟩
  | cons t ts ih =>
    have hq := le_alignPointer p t.align_pos
    rw [numDtors_cons] at hroom
    cases hs : t.isStringLike
    · have hsize := t.size_pos
      cases hdt : needCallDtorFor t
      · rw [decodeArgs_cons_plain hs hdt] at h
        obtain ⟨⟨ret', args', dtors''⟩, hrest, hr⟩ := Option.map_eq_some'.1 h
        cases hr
        simp only [hdt] at hroom
        obtain ⟨hd, hlen, hspread⟩ := ih (by omega) hrest
        exact ⟨by simpa [dtorSlots, hdt] using hd,
          by simpa [dtorSlots, hdt, numDtors_cons] using hlen,
          hspread.cons hq (by omega) rfl⟩
      · simp only [hdt, if_true] at hroom
        simp only [decodeArgs_cons_dtor hs hdt, CArray.write_eq_some (by omega : d < dtors.size),
          Option.bind_eq_bind, Option.some_bind, Option.bind_eq_some] at h
        obtain ⟨⟨ret', args', dtors''⟩, hrest, hr⟩ := h
        cases hr
        obtain ⟨hd, hlen, hspread⟩ := ih (by simp; omega) hrest
        exact ⟨by simpa [dtorSlots, hdt, CArray.fill] using hd,
          by simpa [dtorSlots, hdt, numDtors_cons, Nat.add_comm] using hlen,
          hspread.cons hq (by omega) rfl⟩
    · have hdt := needCallDtorFor_of_isStringLike hs
      simp only [hdt] at hroom
      simp only [decodeArgs_cons_string hs, Option.bind_eq_bind, Option.bind_eq_some] at h
      obtain ⟨size, -, ⟨ret', args', dtors''⟩, hrest, hr⟩ := h
      cases hr
      obtain ⟨hd, hlen, hspread⟩ := ih (by omega) hrest
      exact ⟨by simpa [dtorSlots] using hd,
        by simpa [dtorSlots, numDtors_cons, hdt] using hlen,
        hspread.cons hq (by omega) rfl⟩

/-- Decoding one more argument in front commutes with forgetting the array. -/
theorem map_proj_bind (x : Option (Nat × List FmtArg × CArray)) (a : FmtArg) :
    (x.bind fun r => pure (r.1, a :: r.2.1, r.2.2)).map (fun r => (r.1, r.2.1)) =
      (x.map fun r => (r.1, r.2.1)).map fun r => (r.1, a :: r.2) := by
  cases x <;> rfl

/-- **The array never makes `decodeArgs` fail.**  Any two arrays with room for the `num_dtors`
addresses from `d` on give the same pointer and format arguments: the writes to
`destruct_args[DestructIdx]` stay in bounds, and only a string running past the readable bytes
stops the decoding. -/
theorem decodeArgs_map_eq (tys : List ArgType) {d p : Nat} {dtors dtors' : CArray}
    (h1 : d + numDtors tys ≤ dtors.size) (h2 : d + numDtors tys ≤ dtors'.size) :
    (decodeArgs m readEnd tys d dtors p).map (fun r => (r.1, r.2.1)) =
      (decodeArgs m readEnd tys d dtors' p).map (fun r => (r.1, r.2.1)) := by
  induction tys generalizing d p dtors dtors' with
  | nil => rfl
  | cons t ts ih =>
    rw [numDtors_cons] at h1 h2
    cases hs : t.isStringLike
    · cases hdt : needCallDtorFor t
      · simp only [hdt, Bool.false_eq_true, if_false, Nat.zero_add] at h1 h2
        rw [decodeArgs_cons_plain hs hdt, decodeArgs_cons_plain hs hdt]
        simp only [← bind_pure_comp, Option.bind_eq_bind, Function.comp_def, map_proj_bind]
        rw [@ih d _ dtors dtors' h1 h2]
      · simp only [hdt, if_true] at h1 h2
        rw [decodeArgs_cons_dtor hs hdt, decodeArgs_cons_dtor hs hdt,
          CArray.write_eq_some (by omega : d < dtors.size),
          CArray.write_eq_some (by omega : d < dtors'.size)]
        simp only [Option.bind_eq_bind, Option.some_bind, map_proj_bind]
        rw [@ih (d + 1) _ (dtors.set d _) (dtors'.set d _) (by simp; omega) (by simp; omega)]
    · have hdt := needCallDtorFor_of_isStringLike hs
      simp only [hdt, Bool.false_eq_true, if_false, Nat.zero_add] at h1 h2
      rw [decodeArgs_cons_string hs, decodeArgs_cons_string hs]
      cases strlen m (alignPointer t.align p) (readEnd - alignPointer t.align p) with
      | none => rfl
      | some size =>
        simp only [Option.bind_eq_bind, Option.some_bind, map_proj_bind]
        rw [@ih d _ dtors dtors' h1 h2]

end decodeArgs

/-! ## With the array `format_to` declares -/

/-- With the array `format_to` declares, whenever `decodeArgs` returns, `destructArgs` reads back
the addresses it recorded, one per argument whose type needs a destructor. -/
theorem destructArgs_of_decodeArgs {m : Mem} {readEnd p ret : Nat} {tys : List ArgType}
    {args : List FmtArg} {dtors : CArray}
    (h : decodeArgs m readEnd tys 0 (CArray.uninit (max (numDtors tys) 1)) p =
      some (ret, args, dtors)) :
    destructArgs dtors tys 0 = some (dtorSlots args) ∧ (dtorSlots args).length = numDtors tys ∧
      Spread args p ret := by
  have hroom : 0 + numDtors tys ≤ (CArray.uninit (max (numDtors tys) 1)).size :=
    (Nat.zero_add _).trans_le (le_max_left _ _)
  obtain ⟨rfl, hlen, hspread⟩ := decodeArgs_spec tys hroom h
  exact ⟨destructArgs_of_reads tys hlen fun j hj => CArray.read_fill _ 0 _ hj (hlen ▸ hroom),
    hlen, hspread⟩

/-- The addresses to destroy increase, inside the span of the format arguments. -/
theorem Spread.dtorSlots {args : List FmtArg} {p ret : Nat} (h : Spread args p ret) :
    (dtorSlots args).Pairwise (· < ·) ∧ ∀ x ∈ dtorSlots args, p ≤ x ∧ x < ret := by
  obtain ⟨-, hsort, hmem⟩ := h
  refine ⟨hsort.sublist (dtorSlots_sublist args), fun x hx => ?_⟩
  obtain ⟨a, ha, rfl⟩ := List.mem_map.1 ((dtorSlots_sublist args).subset hx)
  exact hmem a ha

/-- **`format_to`'s bookkeeping holds whatever the bytes.**  For every buffer, every read
position and every type list, with the array `dtor_args[std::max(num_dtors, 1)]` that
`format_to` declares: the array changes nothing in what `decodeArgs` decodes (any array with room
for `num_dtors` addresses gives the same pointer and format arguments, so no write to it is out
of bounds); and whenever `decodeArgs` returns, `destructArgs` reads back, with no indeterminate
element, one address per format argument whose type needs a destructor, that argument's own
address, all distinct, while the format arguments lie at strictly increasing addresses from
`data` to below the returned pointer. -/
theorem decodeArgs_bookkeeping (m : Mem) (readEnd p : Nat) (tys : List ArgType) :
    (∀ dtors : CArray, numDtors tys ≤ dtors.size →
      (decodeArgs m readEnd tys 0 dtors p).map (fun r => (r.1, r.2.1)) =
        (decodeArgs m readEnd tys 0 (CArray.uninit (max (numDtors tys) 1)) p).map
          fun r => (r.1, r.2.1)) ∧
    ∀ ret args dtors,
      decodeArgs m readEnd tys 0 (CArray.uninit (max (numDtors tys) 1)) p =
        some (ret, args, dtors) →
      destructArgs dtors tys 0 = some (dtorSlots args) ∧
        (dtorSlots args).length = numDtors tys ∧ (dtorSlots args).Nodup ∧
        (args.map FmtArg.data).Pairwise (· < ·) ∧ ∀ a ∈ args, p ≤ a.data ∧ a.data < ret := by
  refine ⟨fun dtors h => decodeArgs_map_eq tys (by omega)
    ((Nat.zero_add _).trans_le (le_max_left _ _)), fun ret args dtors h => ?_⟩
  obtain ⟨hd, hlen, hspread⟩ := destructArgs_of_decodeArgs h
  exact ⟨hd, hlen, hspread.dtorSlots.1.imp Nat.ne_of_lt, hspread.2⟩

/-- What `format_to` destroys, whatever the bytes: addresses that increase from `data` on and
lie below the pointer it returns, itself at or after `data`. -/
theorem formatTo_destroyed {vformatTo : List Char → List FmtValue → Formatted}
    {tys : List ArgType} {format : List Char} {m : Mem} {readEnd p : Nat} {out : List Char}
    {o : FormatOutcome} (h : formatTo vformatTo tys format m readEnd p out = some o) :
    (∀ next, o.ret = .ok next → p ≤ next) ∧ o.destroyed.Pairwise (· < ·) ∧
      ∀ x ∈ o.destroyed, p ≤ x ∧ ∀ next, o.ret = .ok next → x < next := by
  obtain ⟨ret, dtors, -, hdec, -, -, ⟨e, -, hret, hd⟩ | ⟨-, hret, hd⟩⟩ := formatTo_eq_some h
  · rw [hret, hd]
    exact ⟨fun _ hn => (by cases hn), List.Pairwise.nil,
      fun _ h => absurd h (List.not_mem_nil _)⟩
  · obtain ⟨hd', -, hspread⟩ := destructArgs_of_decodeArgs hdec
    have hdestroyed : o.destroyed = dtorSlots o.args := Option.some.inj (hd.symm.trans hd')
    rw [hret, hdestroyed]
    exact ⟨fun next hn => (by cases hn; exact hspread.1), hspread.dtorSlots.1, fun x hx =>
      ⟨(hspread.dtorSlots.2 x hx).1,
        fun next hn => (by cases hn; exact (hspread.dtorSlots.2 x hx).2)⟩⟩

end Quill
