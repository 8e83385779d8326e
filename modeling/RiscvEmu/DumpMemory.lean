import RiscvEmu.Helper
import RiscvEmu.Lib.Outcome

namespace RiscvEmu

/-! `debug_dump_memory` of `helper.c`, with the indices that it reads.  Its `i` is
an `int`, which is never negative, and is compared with 64-bit lengths. -/

def intMax : Nat := 2 ^ 31 - 1

/-- The loop over rows of eight bytes: the indices read, and `i` at its end. -/
def debugDumpRows (len : BitVec 64) (i : Nat) : Except Fault (List Nat × Nat) :=
  if BitVec.ofNat 64 i < len - 8 then
    if _within : i + 7 < len.toNat ∧ i + 8 ≤ intMax then do
      let (reads, last) ← debugDumpRows len (i + 8)
      return (List.range' i 8 ++ reads, last)
    else .error .undefined
  else .ok ([], i)
termination_by len.toNat - i
decreasing_by omega

/-- The loop over the bytes that are left. -/
def debugDumpRest (len : BitVec 64) (i : Nat) : Except Fault (List Nat) :=
  if BitVec.ofNat 64 i < len then
    if _within : i < len.toNat ∧ i + 1 ≤ intMax then do
      let reads ← debugDumpRest len (i + 1)
      return i :: reads
    else .error .undefined
  else .ok []
termination_by len.toNat - i
decreasing_by omega

/-- `debug_dump_memory` on a buffer of `len` bytes. -/
def debugDumpMemory (len : BitVec 64) : Except Fault (List Nat) := do
  let (reads, i) ← debugDumpRows len 0
  let rest ← debugDumpRest len i
  return reads ++ rest

section DumpMemory

variable {len : BitVec 64} {i last : Nat} {reads : List Nat}

theorem index_lt_iff {bound : BitVec 64} (small : i ≤ intMax) :
    BitVec.ofNat 64 i < bound ↔ i < bound.toNat := by
  have isMax : intMax = 2 ^ 31 - 1 := rfl
  rw [BitVec.lt_def, BitVec.toNat_ofNat, Nat.mod_eq_of_lt (by omega)]

/-- The indices up to `last`, cut after the first `count`. -/
theorem range'_append_of_le {count : Nat} (within : i + count ≤ last) :
    List.range' i count ++ List.range' (i + count) (last - (i + count)) =
      List.range' i (last - i) := by
  have joined := List.range'_append_1 (s := i) (m := count) (n := last - (i + count))
  rwa [show count + (last - (i + count)) = last - i by omega] at joined

theorem debugDumpRows_ok (large : 8 ≤ len.toNat) (small : len.toNat ≤ intMax)
    (within : i ≤ len.toNat) :
    ∃ last, i ≤ last ∧ last ≤ len.toNat ∧
      debugDumpRows len i = .ok (List.range' i (last - i), last) := by
  have shorter : (len - 8).toNat = len.toNat - 8 := by bv_omega
  induction i using debugDumpRows.induct len with
  | case1 i more inside induction =>
      rw [index_lt_iff (within.trans small), shorter] at more
      obtain ⟨last, later, atMost, rows⟩ := induction (by omega)
      refine ⟨last, by omega, atMost, ?_⟩
      rw [debugDumpRows, if_pos, dif_pos inside, rows]
      · exact congrArg (fun reads => Except.ok (reads, last)) (range'_append_of_le later)
      · rwa [index_lt_iff (within.trans small), shorter]
  | case2 i more outside =>
      rw [index_lt_iff (within.trans small), shorter] at more
      have isMax : intMax = 2 ^ 31 - 1 := rfl
      exact absurd ⟨by omega, by omega⟩ outside
  | case3 i atEnd =>
      refine ⟨i, le_rfl, within, ?_⟩
      rw [debugDumpRows, if_neg atEnd, Nat.sub_self]
      rfl

theorem debugDumpRest_ok (small : len.toNat ≤ intMax) (within : i ≤ len.toNat) :
    debugDumpRest len i = .ok (List.range' i (len.toNat - i)) := by
  induction i using debugDumpRest.induct len with
  | case1 i more inside induction =>
      have oneMore : len.toNat - i = len.toNat - (i + 1) + 1 := by omega
      rw [debugDumpRest, if_pos more, dif_pos inside, induction inside.1, oneMore,
        List.range'_succ]
      rfl
  | case2 i more outside =>
      rw [index_lt_iff (within.trans small)] at more
      exact absurd ⟨more, more.trans_le small⟩ outside
  | case3 i atEnd =>
      rw [index_lt_iff (within.trans small)] at atEnd
      have nothingLeft : len.toNat - i = 0 := by omega
      rw [debugDumpRest, if_neg (by rwa [index_lt_iff (within.trans small)]),
        nothingLeft]
      rfl

theorem debugDumpRows_le_intMax (start : i ≤ intMax)
    (rows : debugDumpRows len i = .ok (reads, last)) : last ≤ intMax := by
  induction i using debugDumpRows.induct len generalizing reads with
  | case1 i more inside induction =>
      rw [debugDumpRows, if_pos more, dif_pos inside] at rows
      obtain ⟨⟨later, last'⟩, again, isEnd⟩ := Outcome.bind_eq_ok_iff.mp rows
      cases isEnd
      exact induction inside.2 again
  | case2 i more outside =>
      rw [debugDumpRows, if_pos more, dif_neg outside] at rows
      cases rows
  | case3 i atEnd =>
      rw [debugDumpRows, if_neg atEnd] at rows
      cases rows
      exact start

theorem debugDumpRest_le_intMax (start : i ≤ intMax)
    (rest : debugDumpRest len i = .ok reads) : len.toNat ≤ intMax := by
  induction i using debugDumpRest.induct len generalizing reads with
  | case1 i more inside induction =>
      rw [debugDumpRest, if_pos more, dif_pos inside] at rest
      obtain ⟨later, again, -⟩ := Outcome.bind_eq_ok_iff.mp rest
      exact induction inside.2 again
  | case2 i more outside =>
      rw [debugDumpRest, if_pos more, dif_neg outside] at rest
      cases rest
  | case3 i atEnd =>
      rw [index_lt_iff start] at atEnd
      omega

/-- The dump reads the whole buffer when it holds a row and its length is an
`int`. -/
theorem debugDumpMemory_ok (large : 8 ≤ len.toNat) (small : len.toNat ≤ intMax) :
    debugDumpMemory len = .ok (List.range len.toNat) := by
  obtain ⟨last, -, atMost, rows⟩ :=
    debugDumpRows_ok large small (Nat.zero_le len.toNat)
  have joined : List.range' 0 last ++ List.range' last (len.toNat - last) =
      List.range' 0 len.toNat := by
    simpa using range'_append_of_le (i := 0) ((Nat.zero_add last).trans_le atMost)
  rw [debugDumpMemory, rows, List.range_eq_range', ← joined]
  exact congrArg (· >>= fun rest => pure (List.range' 0 last ++ rest))
    (debugDumpRest_ok small atMost)

theorem debugDumpMemory_ok_iff :
    (∃ reads, debugDumpMemory len = .ok reads) ↔
      8 ≤ len.toNat ∧ len.toNat ≤ intMax := by
  constructor
  · rintro ⟨reads, dumped⟩
    obtain ⟨⟨rows, last⟩, first, again⟩ := Outcome.bind_eq_ok_iff.mp dumped
    obtain ⟨rest, second, -⟩ := Outcome.bind_eq_ok_iff.mp again
    have ends : len.toNat ≤ intMax :=
      debugDumpRest_le_intMax (debugDumpRows_le_intMax (Nat.zero_le _) first) second
    refine ⟨?_, ends⟩
    -- Below eight the bound of the first loop wraps around.
    by_contra short
    rw [debugDumpRows, if_pos (by bv_omega), dif_neg (by omega)] at first
    cases first
  · exact fun ⟨large, small⟩ => ⟨_, debugDumpMemory_ok large small⟩

end DumpMemory

end RiscvEmu
