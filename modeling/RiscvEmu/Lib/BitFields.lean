import Mathlib.Tactic.Ring
import Mathlib.Tactic.IntervalCases
import Mathlib.Tactic.Positivity

namespace RiscvEmu.BitFields

/-! Words cut into fields and put together from fields, sign extension by
or-ing, and the arithmetic shift as a loop of logical shifts. -/

theorem toNat_append (high : BitVec n) (low : BitVec m) :
    (high ++ low).toNat = high.toNat * 2 ^ m + low.toNat := by
  rw [BitVec.toNat_append, ← Nat.shiftLeft_add_eq_or_of_lt low.isLt,
    Nat.shiftLeft_eq]

theorem append_inj {high high' : BitVec n} {low low' : BitVec m}
    (equal : high ++ low = high' ++ low') : high = high' ∧ low = low' := by
  have numbers := congrArg BitVec.toNat equal
  rw [toNat_append, toNat_append] at numbers
  have lowEqual := congrArg (· % 2 ^ m) numbers
  simp only [Nat.mul_add_mod_self_right, Nat.mod_eq_of_lt low.isLt,
    Nat.mod_eq_of_lt low'.isLt] at lowEqual
  rw [lowEqual] at numbers
  have highEqual := Nat.eq_of_mul_eq_mul_right (Nat.two_pow_pos m)
    (Nat.add_right_cancel numbers)
  exact ⟨BitVec.eq_of_toNat_eq highEqual, BitVec.eq_of_toNat_eq lowEqual⟩

theorem toNat_extract (x : BitVec n) (start size : Nat) :
    (x.extractLsb' start size).toNat = x.toNat / 2 ^ start % 2 ^ size := by
  rw [BitVec.extractLsb'_toNat, Nat.shiftRight_eq_div_pow]

theorem toNat_append_mod (high : BitVec n) (low : BitVec m) {k : Nat}
    (within : k ≤ m) :
    (high ++ low).toNat % 2 ^ k = low.toNat % 2 ^ k := by
  obtain ⟨rest, rfl⟩ := Nat.exists_eq_add_of_le within
  rw [toNat_append, pow_add, ← mul_assoc, mul_right_comm,
    Nat.mul_add_mod_self_right]

/-- Two words that agree on two adjacent slices agree on the slice they
cover. -/
theorem extract_join {x y : BitVec n} {start low high : Nat}
    (lowEqual : x.extractLsb' start low = y.extractLsb' start low)
    (highEqual : x.extractLsb' (start + low) high =
      y.extractLsb' (start + low) high) :
    x.extractLsb' start (low + high) = y.extractLsb' start (low + high) := by
  have split : ∀ number : Nat, number / 2 ^ start % 2 ^ (low + high) =
      number / 2 ^ start % 2 ^ low +
        2 ^ low * (number / 2 ^ (start + low) % 2 ^ high) := by
    intro number
    rw [pow_add, Nat.mod_mul, Nat.div_div_eq_div_mul, ← pow_add]
  apply BitVec.eq_of_toNat_eq
  rw [toNat_extract, toNat_extract, split, split, ← toNat_extract,
    ← toNat_extract, ← toNat_extract, ← toNat_extract, lowEqual, highEqual]

theorem eq_of_extract {x y : BitVec n}
    (equal : x.extractLsb' 0 n = y.extractLsb' 0 n) : x = y := by
  simpa using equal

theorem toNat_shiftRight_and_mask (x : BitVec n) (start size : Nat)
    (fits : size ≤ n) :
    ((x >>> start) &&& BitVec.ofNat n (2 ^ size - 1)).toNat =
      x.toNat / 2 ^ start % 2 ^ size := by
  have mask : 2 ^ size - 1 < 2 ^ n := by
    have := Nat.pow_le_pow_right (show 0 < 2 by omega) fits
    have := Nat.two_pow_pos size
    omega
  rw [BitVec.toNat_and, BitVec.toNat_ofNat, Nat.mod_eq_of_lt mask,
    Nat.and_two_pow_sub_one_eq_mod, BitVec.toNat_ushiftRight,
    Nat.shiftRight_eq_div_pow]

/-! Machine operations as arithmetic on the numbers a word stands for. -/

theorem ofInt_sub (n : Nat) (x y : Int) :
    BitVec.ofInt n (x - y) = BitVec.ofInt n x - BitVec.ofInt n y := by
  rw [Int.sub_eq_add_neg, BitVec.ofInt_add, BitVec.ofInt_neg,
    BitVec.sub_eq_add_neg]

theorem ofInt_two_pow (n k : Nat) :
    BitVec.ofInt n (2 ^ k) = BitVec.twoPow n k := by
  apply BitVec.eq_of_toNat_eq
  rw [BitVec.toNat_ofInt, BitVec.toNat_twoPow]
  norm_cast

theorem ofInt_mul_two_pow (n : Nat) (x : Int) (k : Nat) :
    BitVec.ofInt n (x * 2 ^ k) = BitVec.ofInt n x <<< k := by
  rw [BitVec.ofInt_mul, BitVec.shiftLeft_eq_mul_twoPow, ofInt_two_pow]

theorem ofNat_div_two_pow (x : BitVec n) (k : Nat) :
    BitVec.ofNat n (x.toNat / 2 ^ k) = x >>> k := by
  apply BitVec.eq_of_toNat_eq
  rw [BitVec.toNat_ofNat, BitVec.toNat_ushiftRight, Nat.shiftRight_eq_div_pow,
    Nat.mod_eq_of_lt (lt_of_le_of_lt (Nat.div_le_self _ _) x.isLt)]

theorem ofInt_fdiv_two_pow (x : BitVec n) (k : Nat) :
    BitVec.ofInt n (x.toInt.fdiv (2 ^ k)) = x.sshiftRight k := by
  rw [BitVec.sshiftRight, Int.fdiv_eq_ediv_of_nonneg _ (by positivity),
    Int.shiftRight_eq_div_pow]
  norm_cast

theorem ofInt_toInt_of_le (x : BitVec n) {m : Nat} (narrower : m ≤ n) :
    BitVec.ofInt m x.toInt = x.setWidth m :=
  BitVec.signExtend_eq_setWidth_of_le x narrower

theorem and_one_shiftLeft_ne_zero (x : BitVec n) {i : Nat} (bound : i < n) :
    x &&& (1#n <<< i) ≠ 0 ↔ x.getLsbD i = true := by
  have nonzero : BitVec.twoPow n i ≠ 0 := by
    intro zero
    have bit := congrArg (BitVec.getLsbD · i) zero
    simp [bound] at bit
  rw [← BitVec.twoPow_eq, BitVec.and_twoPow]
  cases x.getLsbD i with
  | false => simp
  | true => simpa using nonzero

theorem getLsbD_foldl_or (term : α → BitVec n) (list : List α)
    (initial : BitVec n) (i : Nat) :
    (list.foldl (fun x a => x ||| term a) initial).getLsbD i =
      (initial.getLsbD i || list.any fun a => (term a).getLsbD i) := by
  induction list generalizing initial with
  | nil => simp
  | cons head tail induction =>
      rw [List.foldl_cons, induction, BitVec.getLsbD_or, List.any_cons,
        Bool.or_assoc]

/-- Shifting right by one place and keeping the sign bit, `count` times, is the
arithmetic shift by `count`. -/
theorem iterate_shiftRight_or_sign {sign x : BitVec n} (width : 0 < n)
    (isSign : ∀ i, sign.getLsbD i = (decide (i = n - 1) && x.msb))
    (count : Nat) :
    (List.range count).foldl (fun (v : BitVec n) _ => (v >>> 1) ||| sign) x =
      x.sshiftRight count := by
  induction count with
  | zero => simp
  | succ count induction =>
      rw [List.range_succ, List.foldl_append, induction]
      apply BitVec.eq_of_getLsbD_eq
      intro i bound
      simp only [List.foldl_cons, List.foldl_nil, BitVec.getLsbD_or,
        BitVec.getLsbD_ushiftRight, BitVec.getLsbD_sshiftRight, isSign]
      by_cases last : i = n - 1
      · subst last
        simp [show n ≤ 1 + (n - 1) by omega, show ¬ n ≤ n - 1 by omega,
          show ¬ count + 1 + (n - 1) < n by omega]
      · simp only [last, decide_false, Bool.false_and, Bool.or_false,
          show ¬ n ≤ i by omega, show ¬ n ≤ 1 + i by omega,
          show count + (1 + i) = count + 1 + i by omega]

/-- Sign extension by or-ing the sign into the upper positions; the positions
may start at the sign bit itself. -/
theorem signExtend_eq_foldl_or (x : BitVec n) (width start : Nat)
    (atSign : start = n ∨ start + 1 = n)
    (bit : BitVec width)
    (isSign : ∀ i, bit.getLsbD i = (decide (i = 0) && x.msb)) :
    (List.range' start (width - start)).foldl
        (fun v i => v ||| (bit <<< i)) (x.setWidth width) =
      x.signExtend width := by
  apply BitVec.eq_of_getLsbD_eq
  intro i bound
  rw [getLsbD_foldl_or, BitVec.getLsbD_setWidth, BitVec.getLsbD_signExtend]
  have terms : ((List.range' start (width - start)).any fun a =>
      (bit <<< a).getLsbD i) = (decide (start ≤ i) && x.msb) := by
    rw [Bool.eq_iff_iff, List.any_eq_true]
    simp only [List.mem_range'_1, BitVec.getLsbD_shiftLeft, isSign,
      Bool.and_eq_true, decide_eq_true_eq, Bool.not_eq_true',
      decide_eq_false_iff_not]
    constructor
    · rintro ⟨a, ⟨low, high⟩, ⟨-, above⟩, zero, sign⟩
      exact ⟨by omega, sign⟩
    · rintro ⟨low, sign⟩
      exact ⟨i, ⟨low, by omega⟩, ⟨bound, by omega⟩, by omega, sign⟩
  rw [terms]
  simp only [bound, decide_true, Bool.true_and]
  by_cases inside : i < n
  · simp only [inside, if_true]
    by_cases above : start ≤ i
    · have last : i = n - 1 := by omega
      subst last
      simp [BitVec.msb_eq_getLsbD_last]
    · simp [above]
  · have outside : x.getLsbD i = false := BitVec.getLsbD_of_ge x i (by omega)
    simp [inside, outside, show start ≤ i by omega]

theorem setWidth_signExtend (x : BitVec n) {low wide : Nat} (inside : low ≤ n)
    (wider : n ≤ wide) : (x.signExtend wide).setWidth low = x.setWidth low := by
  apply BitVec.eq_of_getLsbD_eq
  intro i bound
  rw [BitVec.getLsbD_setWidth, BitVec.getLsbD_setWidth,
    BitVec.getLsbD_signExtend, if_pos (by omega),
    decide_eq_true (show i < wide by omega), Bool.true_and]

/-- The signed value of a word of `bits` bits. -/
def twosComplement (bits value : Nat) : Int :=
  if value < 2 ^ (bits - 1) then value else value - 2 ^ bits

theorem toInt_eq_twosComplement (x : BitVec n) (positive : 0 < n) :
    x.toInt = twosComplement n x.toNat := by
  have double : 2 ^ n = 2 * 2 ^ (n - 1) := by
    rw [← pow_succ', Nat.sub_add_cancel positive]
  rw [BitVec.toInt_eq_toNat_cond, twosComplement]
  by_cases clear : x.toNat < 2 ^ (n - 1)
  · rw [if_pos (by omega), if_pos clear]
  · rw [if_neg (by omega), if_neg clear]
    norm_cast

theorem eq_twosComplement_iff {bits value : Nat} :
    (value : Int) = twosComplement bits value ↔ value < 2 ^ (bits - 1) := by
  rw [twosComplement]
  by_cases clear : value < 2 ^ (bits - 1)
  · simp [clear]
  · have positive : (0 : Int) < 2 ^ bits := by positivity
    rw [if_neg clear]
    exact iff_of_false (by omega) clear

/-- A number that fits in fewer bits is found again in them. -/
theorem setWidth_setWidth_of_lt {x : BitVec n} {bits : Nat} (wide : Nat)
    (below : x.toNat < 2 ^ bits) :
    (x.setWidth bits).setWidth wide = x.setWidth wide := by
  apply BitVec.eq_of_toNat_eq
  simp only [BitVec.toNat_setWidth, Nat.mod_eq_of_lt below]

/-- Extending with zeros extends the sign only where the sign is clear. -/
theorem setWidth_eq_signExtend_iff (x : BitVec n) {width : Nat}
    (positive : 0 < n) (wider : n < width) :
    x.setWidth width = x.signExtend width ↔ x.msb = false := by
  constructor
  · intro same
    have last := congrArg (BitVec.getLsbD · (width - 1)) same
    simp only [BitVec.getLsbD_setWidth, BitVec.getLsbD_signExtend] at last
    rw [BitVec.getLsbD_of_ge x (width - 1) (by omega), Bool.and_false,
      if_neg (show ¬ width - 1 < n by omega),
      decide_eq_true (show width - 1 < width by omega), Bool.true_and] at last
    exact last.symm
  · intro clear
    exact (BitVec.signExtend_eq_setWidth_of_msb_false clear).symm

end RiscvEmu.BitFields
