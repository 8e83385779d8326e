import Mathlib.Tactic.Ring
import Mathlib.Tactic.IntervalCases

namespace RiscvEmu.LittleEndian

/-! Little-endian numbers: the number that a list of bytes spells, the same
number as a machine word, and the bytes of a word. -/

/-- The number whose `i`-th byte, counted from the least significant one, is the
`i`-th element of the list. -/
def number : List (BitVec 8) → Nat
  | [] => 0
  | byte :: rest => byte.toNat + 256 * number rest

/-- The number as a `width`-bit word. -/
def word (width : Nat) (bytes : List (BitVec 8)) : BitVec width :=
  BitVec.ofNat width (number bytes)

/-- Byte `index` of a word: its bits `8 * index` to `8 * index + 7`. -/
def byteAt (value : BitVec width) (index : Nat) : BitVec 8 :=
  (value >>> (8 * index)).setWidth 8

@[simp] theorem number_nil : number [] = 0 := rfl

@[simp] theorem number_cons (byte : BitVec 8) (rest : List (BitVec 8)) :
    number (byte :: rest) = byte.toNat + 256 * number rest := rfl

@[simp] theorem word_nil (width : Nat) : word width [] = 0 := rfl

theorem number_append (left right : List (BitVec 8)) :
    number (left ++ right) = number left + 256 ^ left.length * number right := by
  induction left with
  | nil => simp
  | cons byte rest induction =>
      simp only [List.cons_append, number_cons, induction, List.length_cons,
        pow_succ]
      ring

theorem number_lt (bytes : List (BitVec 8)) :
    number bytes < 256 ^ bytes.length := by
  induction bytes with
  | nil => simp
  | cons byte rest induction =>
      have bound := byte.isLt
      simp only [number_cons, List.length_cons, pow_succ]
      omega

theorem number_injective {left right : List (BitVec 8)}
    (length : left.length = right.length) (equal : number left = number right) :
    left = right := by
  induction left generalizing right with
  | nil => exact (List.length_eq_zero_iff.mp length.symm).symm
  | cons byte rest induction =>
      cases right with
      | nil => simp at length
      | cons byte' rest' =>
          have bound := byte.isLt
          have bound' := byte'.isLt
          simp only [number_cons] at equal
          have head : byte = byte' := BitVec.eq_of_toNat_eq (by omega)
          have tail : rest = rest' :=
            induction (by simpa using length) (by omega)
          rw [head, tail]

theorem number_lt_two_pow {width : Nat} {bytes : List (BitVec 8)}
    (fits : 8 * bytes.length ≤ width) : number bytes < 2 ^ width := by
  calc
    number bytes < 256 ^ bytes.length := number_lt bytes
    _ = 2 ^ (8 * bytes.length) := by rw [pow_mul]; rfl
    _ ≤ 2 ^ width := Nat.pow_le_pow_right (by omega) fits

theorem toNat_word {width : Nat} {bytes : List (BitVec 8)}
    (fits : 8 * bytes.length ≤ width) :
    (word width bytes).toNat = number bytes := by
  rw [word, BitVec.toNat_ofNat, Nat.mod_eq_of_lt (number_lt_two_pow fits)]

theorem setWidth_word {width : Nat} {bytes : List (BitVec 8)}
    (fits : 8 * bytes.length ≤ width) (width' : Nat) :
    (word width bytes).setWidth width' = word width' bytes := by
  apply BitVec.eq_of_toNat_eq
  rw [BitVec.toNat_setWidth, toNat_word fits, word, BitVec.toNat_ofNat]

/-- The low byte of a word is the first of its bytes. -/
theorem setWidth_word_cons {width : Nat} (byte : BitVec 8)
    (rest : List (BitVec 8)) (fits : 8 * (rest.length + 1) ≤ width) :
    (word width (byte :: rest)).setWidth 8 = byte := by
  have bound := byte.isLt
  rw [setWidth_word (by simpa using fits)]
  apply BitVec.eq_of_toNat_eq
  rw [word, BitVec.toNat_ofNat, number_cons]
  omega

theorem word_injective {width : Nat} {left right : List (BitVec 8)}
    (fits : 8 * left.length ≤ width) (length : left.length = right.length)
    (equal : word width left = word width right) : left = right := by
  apply number_injective length
  rw [← toNat_word fits, ← toNat_word (length ▸ fits), equal]

/-- The sign of a number is that of its last byte. -/
theorem msb_word (bytes : List (BitVec 8)) (byte : BitVec 8) {width : Nat}
    (fits : width = 8 * (bytes.length + 1)) :
    (word width (bytes ++ [byte])).msb = byte.msb := by
  subst fits
  have low := number_lt bytes
  have place : 2 ^ (8 * (bytes.length + 1) - 1) = 256 ^ bytes.length * 128 := by
    rw [show (256 : Nat) = 2 ^ 8 by rfl, show (128 : Nat) = 2 ^ 7 by rfl,
      ← pow_mul, ← pow_add]
    congr 1
  rw [BitVec.msb_eq_decide, BitVec.msb_eq_decide,
    toNat_word (by rw [List.length_append, List.length_singleton]),
    number_append, number_cons, number_nil, mul_zero, add_zero, place,
    decide_eq_decide]
  constructor
  · intro large
    by_contra small
    have bound : byte.toNat ≤ 127 := by omega
    have := Nat.mul_le_mul_left (256 ^ bytes.length) bound
    omega
  · intro large
    have bound : 128 ≤ byte.toNat := large
    have := Nat.mul_le_mul_left (256 ^ bytes.length) bound
    omega

/-- Or-ing in the next byte at its place appends it to the bytes assembled so
far. -/
theorem word_or_shiftLeft {width : Nat} (bytes : List (BitVec 8))
    (byte : BitVec 8) (fits : 8 * (bytes.length + 1) ≤ width) :
    word width bytes ||| (byte.setWidth width <<< (8 * bytes.length)) =
      word width (bytes ++ [byte]) := by
  apply BitVec.eq_of_toNat_eq
  have low : number bytes < 2 ^ (8 * bytes.length) :=
    number_lt_two_pow le_rfl
  have place : byte.toNat * 2 ^ (8 * bytes.length) < 2 ^ width := by
    calc
      byte.toNat * 2 ^ (8 * bytes.length) <
          2 ^ 8 * 2 ^ (8 * bytes.length) :=
        Nat.mul_lt_mul_of_pos_right byte.isLt (by positivity)
      _ = 2 ^ (8 * (bytes.length + 1)) := by rw [← pow_add]; ring_nf
      _ ≤ 2 ^ width := Nat.pow_le_pow_right (by omega) fits
  have whole : byte.toNat < 2 ^ width :=
    lt_of_lt_of_le byte.isLt (Nat.pow_le_pow_right (by omega) (by omega))
  rw [BitVec.toNat_or, toNat_word (by omega),
    toNat_word (by simpa using fits), BitVec.toNat_shiftLeft,
    BitVec.toNat_setWidth, Nat.mod_eq_of_lt whole, Nat.shiftLeft_eq,
    Nat.mod_eq_of_lt place, number_append, number_cons, number_nil,
    Nat.or_comm, ← Nat.shiftLeft_eq, ← Nat.shiftLeft_add_eq_or_of_lt low,
    Nat.shiftLeft_eq, show (256 : Nat) = 2 ^ 8 by rfl, ← pow_mul]
  ring

theorem number_bytes (value : BitVec width) (count : Nat)
    (fits : 8 * count ≤ width) :
    number ((List.range count).map (byteAt value)) =
      value.toNat % 2 ^ (8 * count) := by
  induction count with
  | zero => simp [Nat.mod_one]
  | succ count induction =>
      have byte : (byteAt value count).toNat =
          value.toNat / 2 ^ (8 * count) % 2 ^ 8 := by
        simp [byteAt, Nat.shiftRight_eq_div_pow]
      rw [List.range_succ, List.map_append, number_append, List.map_cons,
        List.map_nil, number_cons, number_nil, induction (by omega),
        List.length_map, List.length_range, byte,
        show (256 : Nat) = 2 ^ 8 by rfl, ← pow_mul,
        show 8 * (count + 1) = 8 * count + 8 by ring, Nat.pow_add,
        Nat.mod_mul]
      ring

theorem word_bytes {width : Nat} (value : BitVec width) (count : Nat)
    (fits : 8 * count ≤ width) :
    (word width ((List.range count).map (byteAt value))).toNat =
      value.toNat % 2 ^ (8 * count) := by
  rw [toNat_word (by simpa using fits), number_bytes value count fits]

end RiscvEmu.LittleEndian
