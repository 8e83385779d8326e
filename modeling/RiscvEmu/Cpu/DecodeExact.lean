import RiscvEmu.Cpu.DecodeFields

namespace RiscvEmu

open BitFields

/-! The six decode handlers deliver the manual's fields and lose nothing. -/

/-- The decoded structure agrees with the manual on every field it has. -/
structure DecodedR.Exact (ins : DecodedR) (word : BitVec 32) : Prop where
  opcode : ins.opcode.toNat = (Isa.opcode word).toNat
  rd : ins.rd.toNat = (Isa.rd word).toNat
  func3 : ins.func3.toNat = (Isa.funct3 word).toNat
  rs1 : ins.rs1.toNat = (Isa.rs1 word).toNat
  rs2 : ins.rs2.toNat = (Isa.rs2 word).toNat
  func7 : ins.func7.toNat = (Isa.funct7 word).toNat

structure DecodedI.Exact (ins : DecodedI) (word : BitVec 32) : Prop where
  opcode : ins.opcode.toNat = (Isa.opcode word).toNat
  rd : ins.rd.toNat = (Isa.rd word).toNat
  func3 : ins.func3.toNat = (Isa.funct3 word).toNat
  rs1 : ins.rs1.toNat = (Isa.rs1 word).toNat
  imm : ins.imm.toInt = (Isa.immI word).toInt
  range : -2 ^ 11 ≤ ins.imm.toInt ∧ ins.imm.toInt < 2 ^ 11

structure DecodedS.Exact (ins : DecodedS) (word : BitVec 32) : Prop where
  opcode : ins.opcode.toNat = (Isa.opcode word).toNat
  func3 : ins.func3.toNat = (Isa.funct3 word).toNat
  rs1 : ins.rs1.toNat = (Isa.rs1 word).toNat
  rs2 : ins.rs2.toNat = (Isa.rs2 word).toNat
  imm : ins.imm.toInt = (Isa.immS word).toInt
  range : -2 ^ 11 ≤ ins.imm.toInt ∧ ins.imm.toInt < 2 ^ 11

structure DecodedB.Exact (ins : DecodedB) (word : BitVec 32) : Prop where
  opcode : ins.opcode.toNat = (Isa.opcode word).toNat
  func3 : ins.func3.toNat = (Isa.funct3 word).toNat
  rs1 : ins.rs1.toNat = (Isa.rs1 word).toNat
  rs2 : ins.rs2.toNat = (Isa.rs2 word).toNat
  imm : ins.imm.toInt = (Isa.immB word).toInt
  range : -2 ^ 12 ≤ ins.imm.toInt ∧ ins.imm.toInt < 2 ^ 12
  even : ins.imm.toInt % 2 = 0

structure DecodedU.Exact (ins : DecodedU) (word : BitVec 32) : Prop where
  opcode : ins.opcode.toNat = (Isa.opcode word).toNat
  rd : ins.rd.toNat = (Isa.rd word).toNat
  imm : ins.imm.toInt = (Isa.immU word).toInt
  range : -2 ^ 31 ≤ ins.imm.toInt ∧ ins.imm.toInt < 2 ^ 31
  multiple : ins.imm.toInt % 2 ^ 12 = 0

structure DecodedJ.Exact (ins : DecodedJ) (word : BitVec 32) : Prop where
  opcode : ins.opcode.toNat = (Isa.opcode word).toNat
  rd : ins.rd.toNat = (Isa.rd word).toNat
  imm : ins.imm.toInt = (Isa.immJ word).toInt
  range : -2 ^ 20 ≤ ins.imm.toInt ∧ ins.imm.toInt < 2 ^ 20
  even : ins.imm.toInt % 2 = 0

/-- A decode handler called with the word's own opcode: it delivers a structure
whenever it has memory for one, every structure it delivers is exact, and no two
words yield the same one. -/
structure ExactDecoder
    (decoder : Bool → BitVec 32 → Option α → BitVec 8 → DecodeResult α)
    (exactly : α → BitVec 32 → Prop) : Prop where
  delivers : ∀ malloc word retDecoded, (retDecoded.isSome || malloc) = true →
    ((decoder malloc word retDecoded
      (decodeOpcode word)).retDecoded).isSome = true
  exact : ∀ malloc word retDecoded ins,
    (decoder malloc word retDecoded (decodeOpcode word)).retDecoded =
      some ins → exactly ins word
  lossless : ∀ malloc malloc' word word' retDecoded retDecoded' ins,
    (decoder malloc word retDecoded (decodeOpcode word)).retDecoded =
      some ins →
    (decoder malloc' word' retDecoded' (decodeOpcode word')).retDecoded =
      some ins → word = word'

theorem exactDecoder_of_decodeIns
    {decoder : Bool → BitVec 32 → Option α → BitVec 8 → DecodeResult α}
    {exactly : α → BitVec 32 → Prop}
    (decoded : BitVec 32 → α) (handler : BitVec 32 → ExecutionHandler)
    (isFrame : ∀ malloc word retDecoded,
      decoder malloc word retDecoded (decodeOpcode word) =
        decodeIns malloc retDecoded (decoded word) (handler word))
    (exact : ∀ word, exactly (decoded word) word)
    (injective : ∀ ins word word',
      exactly ins word → exactly ins word' → word = word') :
    ExactDecoder decoder exactly := by
  have delivered : ∀ malloc word retDecoded ins,
      (decoder malloc word retDecoded (decodeOpcode word)).retDecoded =
        some ins → ins = decoded word := by
    intro malloc word retDecoded ins h
    rw [isFrame, decodeIns] at h
    split at h
    · exact (Option.some.inj h).symm
    · simp at h
  constructor
  · intro malloc word retDecoded available
    rw [isFrame, decodeIns, if_pos available]
    rfl
  · intro malloc word retDecoded ins h
    rw [delivered malloc word retDecoded ins h]
    exact exact word
  · intro malloc malloc' word word' retDecoded retDecoded' ins h h'
    have first := delivered malloc word retDecoded ins h
    have second := delivered malloc' word' retDecoded' ins h'
    apply injective ins
    · rw [first]
      exact exact word
    · rw [second]
      exact exact word'

private theorem toInt_signExtend_bounds (x : BitVec (n + 1))
    (fits : n + 1 ≤ 64) :
    (x.signExtend 64).toInt = x.toInt ∧
      -2 ^ n ≤ (x.signExtend 64).toInt ∧ (x.signExtend 64).toInt < 2 ^ n := by
  rw [BitVec.toInt_signExtend_of_le fits]
  exact ⟨rfl, BitVec.le_toInt x, BitVec.toInt_lt⟩

private theorem toInt_multiple {x : BitVec n} (low : Nat) (fits : low ≤ n)
    (multiple : x.toNat % 2 ^ low = 0) : x.toInt % 2 ^ low = 0 := by
  have power : (2 : Int) ^ low ∣ 2 ^ n := pow_dvd_pow 2 fits
  have natural : (2 : Int) ^ low ∣ x.toNat := by
    exact_mod_cast Nat.dvd_of_mod_eq_zero multiple
  rw [BitVec.toInt_eq_toNat_cond]
  apply Int.emod_eq_zero_of_dvd
  split
  · exact natural
  · exact_mod_cast Int.dvd_sub natural power

/-! An immediate determines the slices of the word it was made of. -/

private theorem immS_slices {word word' : BitVec 32}
    (equal : Isa.immS word = Isa.immS word') :
    word.extractLsb' 25 7 = word'.extractLsb' 25 7 ∧
      word.extractLsb' 7 5 = word'.extractLsb' 7 5 :=
  append_inj equal

private theorem immB_slices {word word' : BitVec 32}
    (equal : Isa.immB word = Isa.immB word') :
    word.extractLsb' 25 7 = word'.extractLsb' 25 7 ∧
      word.extractLsb' 7 5 = word'.extractLsb' 7 5 := by
  obtain ⟨bit12, rest⟩ := append_inj equal
  obtain ⟨bit11, rest⟩ := append_inj rest
  obtain ⟨bits10to5, rest⟩ := append_inj rest
  obtain ⟨bits4to1, -⟩ := append_inj rest
  exact ⟨extract_join bits10to5 bit12, extract_join bit11 bits4to1⟩

private theorem immJ_slices {word word' : BitVec 32}
    (equal : Isa.immJ word = Isa.immJ word') :
    word.extractLsb' 12 20 = word'.extractLsb' 12 20 := by
  obtain ⟨bit20, rest⟩ := append_inj equal
  obtain ⟨bits19to12, rest⟩ := append_inj rest
  obtain ⟨bit11, rest⟩ := append_inj rest
  obtain ⟨bits10to1, -⟩ := append_inj rest
  exact extract_join bits19to12
    (extract_join bit11 (extract_join bits10to1 bit20))

private theorem slices_eq {start size : Nat} {word word' : BitVec 32}
    {field : Nat} (first : field = (word.extractLsb' start size).toNat)
    (second : field = (word'.extractLsb' start size).toNat) :
    word.extractLsb' start size = word'.extractLsb' start size :=
  BitVec.eq_of_toNat_eq (first.symm.trans second)

theorem decodeInsR_exact : ExactDecoder decodeInsR DecodedR.Exact := by
  refine exactDecoder_of_decodeIns _ _ (fun _ _ _ => rfl) ?_ ?_
  · intro word
    exact ⟨toNat_decodeOpcode word, toNat_decodeRd word,
      toNat_decodeFunc3 word, toNat_decodeRs1 word, toNat_decodeRs2 word,
      toNat_decodeFunc7 word⟩
  · intro ins word word' first second
    have opcode := slices_eq first.opcode second.opcode
    have rd := slices_eq first.rd second.rd
    have func3 := slices_eq first.func3 second.func3
    have rs1 := slices_eq first.rs1 second.rs1
    have rs2 := slices_eq first.rs2 second.rs2
    have func7 := slices_eq first.func7 second.func7
    exact eq_of_extract (extract_join opcode (extract_join rd
      (extract_join func3 (extract_join rs1 (extract_join rs2 func7)))))

theorem decodeInsI_exact : ExactDecoder decodeInsI DecodedI.Exact := by
  refine exactDecoder_of_decodeIns _ _ (fun _ _ _ => rfl) ?_ ?_
  · intro word
    obtain ⟨value, range⟩ :=
      toInt_signExtend_bounds (Isa.immI word) (by decide)
    rw [← decodeImmI_eq] at value range
    exact ⟨toNat_decodeOpcode word, toNat_decodeRd word,
      toNat_decodeFunc3 word, toNat_decodeRs1 word, value, range⟩
  · intro ins word word' first second
    have opcode := slices_eq first.opcode second.opcode
    have rd := slices_eq first.rd second.rd
    have func3 := slices_eq first.func3 second.func3
    have rs1 := slices_eq first.rs1 second.rs1
    have imm := BitVec.eq_of_toInt_eq (first.imm.symm.trans second.imm)
    exact eq_of_extract (extract_join opcode (extract_join rd
      (extract_join func3 (extract_join rs1 imm))))

theorem decodeInsS_exact : ExactDecoder decodeInsS DecodedS.Exact := by
  refine exactDecoder_of_decodeIns _ _ (fun _ _ _ => rfl) ?_ ?_
  · intro word
    obtain ⟨value, range⟩ :=
      toInt_signExtend_bounds (Isa.immS word) (by decide)
    rw [← decodeImmS_eq] at value range
    exact ⟨toNat_decodeOpcode word, toNat_decodeFunc3 word,
      toNat_decodeRs1 word, toNat_decodeRs2 word, value, range⟩
  · intro ins word word' first second
    have opcode := slices_eq first.opcode second.opcode
    have func3 := slices_eq first.func3 second.func3
    have rs1 := slices_eq first.rs1 second.rs1
    have rs2 := slices_eq first.rs2 second.rs2
    obtain ⟨high, low⟩ := immS_slices
      (BitVec.eq_of_toInt_eq (first.imm.symm.trans second.imm))
    exact eq_of_extract (extract_join opcode (extract_join low
      (extract_join func3 (extract_join rs1 (extract_join rs2 high)))))

theorem decodeInsB_exact : ExactDecoder decodeInsB DecodedB.Exact := by
  refine exactDecoder_of_decodeIns _ _ (fun _ _ _ => rfl) ?_ ?_
  · intro word
    obtain ⟨value, range⟩ :=
      toInt_signExtend_bounds (Isa.immB word) (by decide)
    rw [← decodeImmB_eq] at value range
    have even : (Isa.immB word).toInt % 2 ^ 1 = 0 :=
      toInt_multiple 1 (by decide)
        ((toNat_append_mod _ _ (by decide)).trans
          ((toNat_append_mod _ _ (by decide)).trans
            ((toNat_append_mod _ _ (by decide)).trans
              (toNat_append_mod _ 0#1 (by decide)))))
    exact ⟨toNat_decodeOpcode word, toNat_decodeFunc3 word,
      toNat_decodeRs1 word, toNat_decodeRs2 word, value, range,
      by rwa [value, ← pow_one 2]⟩
  · intro ins word word' first second
    have opcode := slices_eq first.opcode second.opcode
    have func3 := slices_eq first.func3 second.func3
    have rs1 := slices_eq first.rs1 second.rs1
    have rs2 := slices_eq first.rs2 second.rs2
    obtain ⟨high, low⟩ := immB_slices
      (BitVec.eq_of_toInt_eq (first.imm.symm.trans second.imm))
    exact eq_of_extract (extract_join opcode (extract_join low
      (extract_join func3 (extract_join rs1 (extract_join rs2 high)))))

theorem decodeInsU_exact : ExactDecoder decodeInsU DecodedU.Exact := by
  refine exactDecoder_of_decodeIns _ _ (fun _ _ _ => rfl) ?_ ?_
  · intro word
    obtain ⟨value, range⟩ :=
      toInt_signExtend_bounds (Isa.immU word) (by decide)
    rw [← decodeImmU_eq] at value range
    have multiple : (Isa.immU word).toInt % 2 ^ 12 = 0 :=
      toInt_multiple 12 (by decide) (toNat_append_mod _ 0#12 (by decide))
    exact ⟨toNat_decodeOpcode word, toNat_decodeRd word, value,
      range, by rw [value]; exact multiple⟩
  · intro ins word word' first second
    have opcode := slices_eq first.opcode second.opcode
    have rd := slices_eq first.rd second.rd
    have imm := (append_inj
      (BitVec.eq_of_toInt_eq (first.imm.symm.trans second.imm))).1
    exact eq_of_extract (extract_join opcode (extract_join rd imm))

theorem decodeInsJ_exact : ExactDecoder decodeInsJ DecodedJ.Exact := by
  refine exactDecoder_of_decodeIns _ _ (fun _ _ _ => rfl) ?_ ?_
  · intro word
    obtain ⟨value, range⟩ :=
      toInt_signExtend_bounds (Isa.immJ word) (by decide)
    rw [← decodeImmJ_eq] at value range
    have even : (Isa.immJ word).toInt % 2 ^ 1 = 0 :=
      toInt_multiple 1 (by decide)
        ((toNat_append_mod _ _ (by decide)).trans
          ((toNat_append_mod _ _ (by decide)).trans
            ((toNat_append_mod _ _ (by decide)).trans
              (toNat_append_mod _ 0#1 (by decide)))))
    exact ⟨toNat_decodeOpcode word, toNat_decodeRd word, value,
      range, by rwa [value, ← pow_one 2]⟩
  · intro ins word word' first second
    have opcode := slices_eq first.opcode second.opcode
    have rd := slices_eq first.rd second.rd
    have imm := immJ_slices
      (BitVec.eq_of_toInt_eq (first.imm.symm.trans second.imm))
    exact eq_of_extract (extract_join opcode (extract_join rd imm))

theorem decoders_exact_and_lossless :
    ExactDecoder decodeInsR DecodedR.Exact ∧
      ExactDecoder decodeInsI DecodedI.Exact ∧
      ExactDecoder decodeInsS DecodedS.Exact ∧
      ExactDecoder decodeInsB DecodedB.Exact ∧
      ExactDecoder decodeInsU DecodedU.Exact ∧
      ExactDecoder decodeInsJ DecodedJ.Exact :=
  ⟨decodeInsR_exact, decodeInsI_exact, decodeInsS_exact, decodeInsB_exact,
    decodeInsU_exact, decodeInsJ_exact⟩

end RiscvEmu
