import RiscvEmu.DumpMemory
import RiscvEmu.Lib.Traced

namespace RiscvEmu

open Traced (Follows Logs)

/-! The bytes that `debug_dump_memory` reads one after the other, up to its return
or to what C does not define. -/

abbrev ByteReads := Traced Nat Fault

/-- `mem[i]` of a buffer of `len` bytes. -/
def dumpByte (len : BitVec 64) (i : Nat) : ByteReads Unit :=
  Traced.call i (if i < len.toNat then .ok () else .error .undefined)

/-- `count` bytes from `mem[i]` on. -/
def dumpBytes (len : BitVec 64) : Nat → Nat → ByteReads Unit
  | _, 0 => pure ()
  | i, count + 1 => do
      dumpByte len i
      dumpBytes len (i + 1) count

/-- The loop over rows of eight bytes, and `i` at its end. -/
def debugDumpRowsReads (len : BitVec 64) (i : Nat) : ByteReads Nat :=
  if BitVec.ofNat 64 i < len - 8 then do
    dumpBytes len i 8
    if _fits : i + 8 ≤ intMax then debugDumpRowsReads len (i + 8)
    else Traced.lift (.error .undefined)
  else return i
termination_by intMax - i
decreasing_by omega

/-- The loop over the bytes that are left. -/
def debugDumpRestReads (len : BitVec 64) (i : Nat) : ByteReads Unit :=
  if BitVec.ofNat 64 i < len then do
    dumpByte len i
    if _fits : i + 1 ≤ intMax then debugDumpRestReads len (i + 1)
    else Traced.lift (.error .undefined)
  else return ()
termination_by intMax - i
decreasing_by omega

/-- `debug_dump_memory` on a buffer of `len` bytes. -/
def debugDumpMemoryReads (len : BitVec 64) : ByteReads Unit := do
  let i ← debugDumpRowsReads len 0
  debugDumpRestReads len i

/-- The dump returns, and reads each byte of the buffer once and in order. -/
structure DumpsOnce (len : BitVec 64) : Prop where
  returns : (debugDumpMemoryReads len).result = .ok ()
  reads : (debugDumpMemoryReads len).log = List.range len.toNat

section DumpReads

variable {len : BitVec 64} {i count : Nat}

/-! A row. -/

theorem dumpBytes_follows : (dumpBytes len i count).Follows (List.range' i count) := by
  induction count generalizing i with
  | zero => exact Follows.pure ()
  | succ count induction =>
      exact (Follows.call i _).bind fun _ _ => induction

theorem dumpBytes_result :
    (dumpBytes len i (count + 1)).result =
      if i + count < len.toNat then .ok () else .error .undefined := by
  induction count generalizing i with
  | zero =>
      rw [dumpBytes, dumpBytes, dumpByte, Traced.bind_result, Traced.call_result,
        Nat.add_zero]
      by_cases inside : i < len.toNat
      · rw [if_pos inside]
        rfl
      · rw [if_neg inside]
        rfl
  | succ count induction =>
      rw [dumpBytes, Traced.bind_result, induction, dumpByte, Traced.call_result,
        show i + 1 + count = i + (count + 1) by omega]
      by_cases inside : i < len.toNat
      · rw [if_pos inside]
        rfl
      · rw [if_neg inside, if_neg (by omega)]
        rfl

/-- A row that is cut short reads the byte after the buffer. -/
theorem dumpBytes_of_short (within : i ≤ len.toNat) (short : len.toNat < i + count) :
    (dumpBytes len i count).log = List.range' i (len.toNat - i + 1) ∧
      (dumpBytes len i count).result = .error .undefined := by
  induction count generalizing i with
  | zero => omega
  | succ count induction =>
      refine ⟨?_, dumpBytes_result.trans (if_neg (by omega))⟩
      rw [dumpBytes]
      by_cases inside : i < len.toNat
      · obtain ⟨log, -⟩ := induction (i := i + 1) inside (by omega)
        rw [Traced.log_bind_ok (a := ()) (if_pos inside), log,
          show len.toNat - i + 1 = len.toNat - (i + 1) + 1 + 1 by omega]
        rfl
      · rw [Traced.log_bind_error (if_neg inside),
          show len.toNat - i + 1 = 1 by omega]
        rfl

/-! Without the log the loops are those of the dump. -/

theorem debugDumpRowsReads_result :
    (debugDumpRowsReads len i).result = (debugDumpRows len i).map Prod.snd := by
  induction i using debugDumpRowsReads.induct len with
  | case1 i more induction =>
      rw [debugDumpRowsReads, debugDumpRows, if_pos more, if_pos more,
        Traced.bind_result, dumpBytes_result]
      by_cases inside : i + 7 < len.toNat
      · rw [if_pos inside]
        by_cases fits : i + 8 ≤ intMax
        · rw [dif_pos fits, dif_pos ⟨inside, fits⟩]
          refine (induction fits).trans ?_
          cases debugDumpRows len (i + 8) <;> rfl
        · rw [dif_neg fits, dif_neg fun within => fits within.2]
          rfl
      · have outside : ¬ (i + 7 < len.toNat ∧ i + 8 ≤ intMax) :=
          fun within => inside within.1
        rw [if_neg inside, dif_neg outside]
        rfl
  | case2 i atEnd =>
      rw [debugDumpRowsReads, debugDumpRows, if_neg atEnd, if_neg atEnd]
      rfl

theorem debugDumpRestReads_result :
    (debugDumpRestReads len i).result = (debugDumpRest len i).map fun _ => () := by
  induction i using debugDumpRestReads.induct len with
  | case1 i more induction =>
      rw [debugDumpRestReads, debugDumpRest, if_pos more, if_pos more,
        Traced.bind_result, dumpByte, Traced.call_result]
      by_cases inside : i < len.toNat
      · rw [if_pos inside]
        by_cases fits : i + 1 ≤ intMax
        · rw [dif_pos fits, dif_pos ⟨inside, fits⟩]
          refine (induction fits).trans ?_
          cases debugDumpRest len (i + 1) <;> rfl
        · rw [dif_neg fits, dif_neg fun within => fits within.2]
          rfl
      · have outside : ¬ (i < len.toNat ∧ i + 1 ≤ intMax) :=
          fun within => inside within.1
        rw [if_neg inside, dif_neg outside]
        rfl
  | case2 i atEnd =>
      rw [debugDumpRestReads, debugDumpRest, if_neg atEnd, if_neg atEnd]
      rfl

theorem debugDumpMemoryReads_result :
    (debugDumpMemoryReads len).result = (debugDumpMemory len).map fun _ => () := by
  rw [debugDumpMemoryReads, debugDumpMemory, Traced.bind_result,
    debugDumpRowsReads_result]
  cases debugDumpRows len 0 with
  | error fault => rfl
  | ok rows =>
      refine debugDumpRestReads_result.trans ?_
      obtain ⟨reads, i⟩ := rows
      dsimp only [Bind.bind, Except.bind]
      cases debugDumpRest len i <;> rfl

/-! What the loops read when the buffer holds a row. -/

theorem debugDumpRowsReads_follows (large : 8 ≤ len.toNat) (small : i ≤ intMax)
    (within : i ≤ len.toNat) :
    ∃ last, i ≤ last ∧ last ≤ len.toNat ∧
      (debugDumpRowsReads len i).Follows (List.range' i (last - i)) ∧
      ∀ j, (debugDumpRowsReads len i).result = .ok j → j = last ∧ j ≤ intMax := by
  have shorter : (len - 8).toNat = len.toNat - 8 := by bv_omega
  induction i using debugDumpRowsReads.induct len with
  | case1 i more induction =>
      rw [debugDumpRowsReads, if_pos more]
      rw [index_lt_iff small, shorter] at more
      by_cases fits : i + 8 ≤ intMax
      · obtain ⟨last, later, atMost, follows, ends⟩ :=
          induction fits fits (by omega)
        refine ⟨last, by omega, atMost, ?_, fun j returned => ?_⟩
        · rw [dif_pos fits, ← range'_append_of_le later]
          exact dumpBytes_follows.bind fun _ _ => follows
        · rw [dif_pos fits, Traced.bind_result, dumpBytes_result,
            if_pos (by omega)] at returned
          exact ends j returned
      · refine ⟨i + 8, by omega, by omega, ?_, fun j returned => ?_⟩
        · rw [dif_neg fits, show i + 8 - i = 8 by omega, ← List.append_nil (List.range' i 8)]
          exact dumpBytes_follows.bind fun _ _ => Follows.lift _
        · rw [dif_neg fits, Traced.bind_result, dumpBytes_result,
            if_pos (by omega)] at returned
          cases returned
  | case2 i atEnd =>
      refine ⟨i, le_rfl, within, ?_, fun j returned => ?_⟩
      · rw [debugDumpRowsReads, if_neg atEnd, Nat.sub_self]
        exact Follows.pure i
      · rw [debugDumpRowsReads, if_neg atEnd] at returned
        obtain rfl := Except.ok.inj returned
        exact ⟨rfl, small⟩

theorem debugDumpRestReads_follows (small : i ≤ intMax) (within : i ≤ len.toNat) :
    (debugDumpRestReads len i).Follows (List.range' i (len.toNat - i)) := by
  induction i using debugDumpRestReads.induct len with
  | case1 i more induction =>
      rw [debugDumpRestReads, if_pos more]
      rw [index_lt_iff small] at more
      rw [show len.toNat - i = len.toNat - (i + 1) + 1 by omega, List.range'_succ]
      refine (Follows.call i _).bind fun _ _ => ?_
      by_cases fits : i + 1 ≤ intMax
      · rw [dif_pos fits]
        exact induction fits fits more
      · rw [dif_neg fits]
        exact Follows.fault _ _
  | case2 i atEnd =>
      rw [debugDumpRestReads, if_neg atEnd]
      rw [index_lt_iff small] at atEnd
      rw [show len.toNat - i = 0 by omega]
      exact Follows.pure ()

theorem debugDumpMemoryReads_follows (large : 8 ≤ len.toNat) :
    (debugDumpMemoryReads len).Follows (List.range len.toNat) := by
  obtain ⟨last, -, atMost, follows, ends⟩ :=
    debugDumpRowsReads_follows large (Nat.zero_le intMax) (Nat.zero_le len.toNat)
  have joined : List.range' 0 last ++ List.range' last (len.toNat - last) =
      List.range' 0 len.toNat := by
    simpa using range'_append_of_le (i := 0) ((Nat.zero_add last).trans_le atMost)
  rw [debugDumpMemoryReads, List.range_eq_range', ← joined]
  refine follows.bind fun j returned => ?_
  obtain ⟨rfl, small⟩ := ends j returned
  exact debugDumpRestReads_follows small atMost

/-- With less than a row in the buffer the bound of the first loop wraps around, and
the row goes on past the end. -/
theorem debugDumpMemoryReads_of_short (short : len.toNat < 8) :
    (debugDumpMemoryReads len).log = List.range (len.toNat + 1) ∧
      (debugDumpMemoryReads len).result = .error .undefined := by
  have more : BitVec.ofNat 64 0 < len - 8 := by bv_omega
  obtain ⟨log, result⟩ : (dumpBytes len 0 8).log = List.range' 0 (len.toNat - 0 + 1) ∧
      (dumpBytes len 0 8).result = .error .undefined :=
    dumpBytes_of_short (Nat.zero_le len.toNat) (by omega)
  have rows : (debugDumpRowsReads len 0).log = List.range (len.toNat + 1) ∧
      (debugDumpRowsReads len 0).result = .error .undefined := by
    rw [debugDumpRowsReads, if_pos more, Traced.log_bind_error result,
      Traced.bind_result, result, log, List.range_eq_range']
    exact ⟨rfl, rfl⟩
  rw [debugDumpMemoryReads, Traced.log_bind_error rows.2, Traced.bind_result, rows.2]
  exact ⟨rows.1, rfl⟩

theorem debugDumpMemoryReads_ok_iff :
    (debugDumpMemoryReads len).result = .ok () ↔
      8 ≤ len.toNat ∧ len.toNat ≤ intMax := by
  rw [debugDumpMemoryReads_result, Outcome.map_eq_ok_iff, ← debugDumpMemory_ok_iff]
  simp

/-- The dump reads the whole buffer and nothing else when it holds a row; its index
reaches the end when that is an `int`. -/
theorem dumpsOnce_iff : DumpsOnce len ↔ 8 ≤ len.toNat ∧ len.toNat ≤ intMax := by
  rw [← debugDumpMemoryReads_ok_iff]
  refine ⟨DumpsOnce.returns, fun returns => ⟨returns, ?_⟩⟩
  have large := (debugDumpMemoryReads_ok_iff.mp returns).1
  exact (debugDumpMemoryReads_follows large).complete () returns

/-- What the dump returns with is what it read. -/
theorem debugDumpMemory_eq_log (returns : (debugDumpMemoryReads len).result = .ok ()) :
    debugDumpMemory len = .ok (debugDumpMemoryReads len).log := by
  obtain ⟨large, small⟩ := debugDumpMemoryReads_ok_iff.mp returns
  rw [debugDumpMemory_ok large small, (dumpsOnce_iff.mpr ⟨large, small⟩).reads]

theorem debugDumpMemoryReads_inside_iff :
    (debugDumpMemoryReads len).Logs (· < len.toNat) ↔ 8 ≤ len.toNat := by
  constructor
  · intro inside
    by_contra short
    obtain ⟨log, -⟩ := debugDumpMemoryReads_of_short (not_le.mp short)
    have outside : len.toNat ∈ (debugDumpMemoryReads len).log := by
      rw [log]
      exact List.self_mem_range_succ
    exact absurd (inside _ outside) (lt_irrefl _)
  · exact fun large => (debugDumpMemoryReads_follows large).logs fun i member =>
      List.mem_range.mp member

end DumpReads

end RiscvEmu
