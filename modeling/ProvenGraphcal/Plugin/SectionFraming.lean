import Mathlib.Tactic.Linarith
import ProvenGraphcal.Plugin.ManifestSection

/-!
# The section framing of a module

What the reader of the lengths and the walker accept, as a relation between the bytes of a module
and the sections that they frame.
-/

namespace ProvenGraphcal.Plugin

open Leb128
open List (append_assoc cons_append drop_left flatMap_cons length_append length_cons length_take)

/-! ## LEB128 -/

theorem and_0x7F_toNat (byte : UInt8) : (byte &&& 0x7F).toUInt32.toNat = byte.toNat % 128 := by
  rw [UInt8.toNat_toUInt32, UInt8.toNat_and]
  exact Nat.and_two_pow_sub_one_eq_mod byte.toNat 7

theorem and_0x80_eq_zero (byte : UInt8) : byte &&& 0x80 = 0 ↔ byte.toNat < 128 := by
  have h : ∀ n : Fin 256, UInt8.ofFin n &&& 0x80 = 0 ↔ (UInt8.ofFin n).toNat < 128 := by
    decide +kernel
  exact h byte.toFin

theorem and_0xF0_eq_zero (byte : UInt8) : byte &&& 0xF0 = 0 ↔ byte.toNat < 16 := by
  have h : ∀ n : Fin 256, UInt8.ofFin n &&& 0xF0 = 0 ↔ (UInt8.ofFin n).toNat < 16 := by
    decide +kernel
  exact h byte.toFin

variable {index : ℕ}

/-- The next group stands above the groups that were read. -/
theorem or_shiftLeft_toNat {value bits : UInt32} (hindex : index ≤ 4)
    (hvalue : value.toNat < 2 ^ (7 * index)) (hbits : 2 ^ (7 * index) * bits.toNat < 2 ^ 32) :
    (value ||| bits <<< (7 * index).toUInt32).toNat =
      value.toNat + 2 ^ (7 * index) * bits.toNat := by
  have hshift : (7 * index).toUInt32.toNat % 32 = 7 * index := by
    show (7 * index) % 2 ^ 32 % 32 = 7 * index
    omega
  rw [UInt32.toNat_or, UInt32.toNat_shiftLeft, hshift, Nat.shiftLeft_eq, Nat.mul_comm bits.toNat,
    Nat.mod_eq_of_lt hbits, Nat.or_comm, ← Nat.two_pow_add_eq_or_of_lt hvalue, Nat.add_comm]

variable {n : ℕ}

/-- What the loop has still to read: the groups of one number that fits above those in `value`. -/
theorem decodeFrom_eq_some {bytes : List UInt8} {value v : UInt32} (hlen : bytes.length + index ≤ 5)
    (hvalue : value.toNat < 2 ^ (7 * index)) :
    decodeFrom index value bytes = some (v, n) ↔
      ∃ encoding rest, bytes = encoding ++ rest ∧ Terminated encoding ∧
        v.toNat = value.toNat + 2 ^ (7 * index) * Leb128.value encoding ∧
        n = index + encoding.length := by
  induction bytes generalizing index value with
  | nil =>
    refine ⟨nofun, fun ⟨encoding, rest, h, hterm, _⟩ => ?_⟩
    have hnil := (List.append_eq_nil_iff.mp h.symm).1
    have hpos := hterm.length_pos
    rw [hnil] at hpos
    exact absurd hpos (lt_irrefl 0)
  | cons byte bytes ih =>
    rw [length_cons] at hlen
    have hpow : 2 ^ (7 * (index + 1)) = 2 ^ (7 * index) * 128 := by
      rw [Nat.mul_succ, Nat.pow_add]
    by_cases hlast : index = 4 ∧ byte &&& 0xF0 ≠ 0
    · -- the fifth byte carries bits that no 32-bit value has
      obtain ⟨hindex, hbits⟩ := hlast
      rw [decodeFrom, if_pos ⟨hindex, hbits⟩]
      refine ⟨nofun, fun ⟨encoding, rest, h, hterm, hv, _⟩ => ?_⟩
      rw [Ne, and_0xF0_eq_zero] at hbits
      have hbytes : bytes = [] := List.eq_nil_of_length_eq_zero (by omega)
      subst hbytes hindex
      cases hterm with
      | last hbyte =>
        rw [List.singleton_append, List.cons.injEq] at h
        rw [← h.1] at hv hbyte
        have hlt := v.toNat_lt
        rw [Leb128.value, Leb128.value, Nat.mod_eq_of_lt hbyte] at hv
        omega
      | continued hbyte hrest =>
        rw [cons_append, List.cons.injEq] at h
        have hpos := hrest.length_pos
        rw [(List.append_eq_nil_iff.mp h.2.symm).1] at hpos
        exact absurd hpos (lt_irrefl 0)
    · have hbits : 2 ^ (7 * index) * (byte &&& 0x7F).toUInt32.toNat < 2 ^ 32 := by
        rw [and_0x7F_toNat]
        by_cases hindex : index = 4
        · have hsmall : byte.toNat < 16 :=
            (and_0xF0_eq_zero byte).mp (not_not.mp fun h => hlast ⟨hindex, h⟩)
          subst hindex
          omega
        · have hle : 2 ^ (7 * index) ≤ 2 ^ 21 := Nat.pow_le_pow_right (by omega) (by omega)
          have hmod : byte.toNat % 128 < 128 := Nat.mod_lt _ (by omega)
          calc 2 ^ (7 * index) * (byte.toNat % 128) ≤ 2 ^ 21 * 127 :=
                Nat.mul_le_mul hle (by omega)
            _ < 2 ^ 32 := by omega
      have hnext := or_shiftLeft_toNat (by omega) hvalue hbits
      rw [and_0x7F_toNat] at hnext
      rw [decodeFrom, if_neg hlast]
      by_cases hstop : byte.toNat < 128
      · rw [if_pos ((and_0x80_eq_zero byte).mpr hstop)]
        refine ⟨fun h => ?_, fun ⟨encoding, rest, h, hterm, hv, hn⟩ => ?_⟩
        · cases h
          exact ⟨[byte], bytes, rfl, .last hstop, by rw [hnext]; rfl, rfl⟩
        · have hsplit := hterm.eq_of_append (.last hstop) (h.symm.trans List.singleton_append.symm)
          subst hsplit
          rw [Option.some.injEq, Prod.mk.injEq]
          refine ⟨UInt32.toNat_inj.mp ?_, hn.symm⟩
          rw [hnext, hv]
          rfl
      · rw [if_neg (mt (and_0x80_eq_zero byte).mp hstop)]
        have hgrown : (value ||| (byte &&& 0x7F).toUInt32 <<< (7 * index).toUInt32).toNat <
            2 ^ (7 * (index + 1)) := by
          have hmod : byte.toNat % 128 < 128 := Nat.mod_lt _ (by omega)
          nlinarith
        rw [ih (by omega) hgrown, hnext]
        constructor
        · rintro ⟨encoding, rest, rfl, hterm, hv, hn⟩
          refine ⟨byte :: encoding, rest, rfl, .continued (not_lt.mp hstop) hterm, ?_, ?_⟩
          · rw [hv, hpow, Leb128.value]
            ring
          · rw [hn, length_cons]
            omega
        · rintro ⟨encoding, rest, h, hterm, hv, hn⟩
          cases hterm with
          | last hbyte =>
            rw [List.singleton_append, List.cons.injEq] at h
            exact absurd (h.1 ▸ hbyte) hstop
          | continued hbyte hrest =>
            rw [cons_append, List.cons.injEq] at h
            obtain ⟨rfl, rfl⟩ := h
            refine ⟨_, rest, rfl, hrest, ?_, ?_⟩
            · rw [hv, hpow, Leb128.value]
              ring
            · rw [hn, length_cons]
              omega

/-- The reader accepts the encodings of the 32-bit numbers, and reads no more than these. -/
theorem decodeLeb128U32_eq_some {bytes : List UInt8} {v : UInt32} :
    decodeLeb128U32 bytes = some (v, n) ↔
      ∃ encoding rest, bytes = encoding ++ rest ∧ Encodes 32 encoding v.toNat ∧
        n = encoding.length := by
  have hlen : (bytes.take 5).length + 0 ≤ 5 := by
    rw [length_take]
    omega
  rw [decodeLeb128U32, decodeFrom_eq_some hlen (by decide)]
  constructor
  · rintro ⟨encoding, rest, h, hterm, hv, hn⟩
    have hbytes : bytes = encoding ++ (rest ++ bytes.drop 5) := by
      rw [← append_assoc, ← h, List.take_append_drop]
    have hle : encoding.length ≤ 5 := by
      have hsum := congrArg List.length h
      rw [length_append] at hsum
      omega
    refine ⟨encoding, rest ++ bytes.drop 5, hbytes, ⟨hterm, hle, ?_, v.toNat_lt⟩, ?_⟩
    · rw [hv, Nat.mul_zero, Nat.pow_zero, Nat.one_mul]
      exact (Nat.zero_add _).symm
    · rw [hn, Nat.zero_add]
  · rintro ⟨encoding, rest, rfl, hencodes, rfl⟩
    have hle : encoding.length ≤ 5 := hencodes.length_le
    refine ⟨encoding, rest.take (5 - encoding.length), ?_, hencodes.terminated, ?_, ?_⟩
    · rw [List.take_append, List.take_of_length_le hle]
    · rw [hencodes.value_eq, Nat.mul_zero, Nat.pow_zero, Nat.one_mul]
      exact (Nat.zero_add _).symm
    · rw [Nat.zero_add]

theorem and_0x7F_toUInt8_toNat (value : UInt32) :
    (value &&& 0x7F).toUInt8.toNat = value.toNat % 128 := by
  rw [UInt32.toNat_toUInt8, UInt32.toNat_and]
  have hmask := Nat.and_two_pow_sub_one_eq_mod value.toNat 7
  show (value.toNat &&& 2 ^ 7 - 1) % 2 ^ 8 = value.toNat % 128
  omega

theorem or_0x80_toNat {byte : UInt8} (h : byte.toNat < 128) :
    (byte ||| 0x80).toNat = byte.toNat + 128 := by
  rw [UInt8.toNat_or, Nat.or_comm]
  have hsum := Nat.two_pow_add_eq_or_of_lt (i := 7) h 1
  show 2 ^ 7 * 1 ||| byte.toNat = byte.toNat + 128
  rw [← hsum]
  omega

theorem encodeLeb128U32_value (value : UInt32) :
    Terminated (encodeLeb128U32 value) ∧
      Leb128.value (encodeLeb128U32 value) = value.toNat := by
  induction value using encodeLeb128U32.induct with
  | case1 value hstop =>
    have hlt : value.toNat / 128 = 0 := by
      rw [← toNat_shiftRight_seven, hstop]
      rfl
    have hbyte := and_0x7F_toUInt8_toNat value
    rw [encodeLeb128U32, if_pos hstop]
    refine ⟨.last (by omega), ?_⟩
    show (value &&& 0x7F).toUInt8.toNat % 128 + 128 * 0 = value.toNat
    omega
  | case2 value hgo ih =>
    have hbyte := and_0x7F_toUInt8_toNat value
    have hlt : (value &&& 0x7F).toUInt8.toNat < 128 := by omega
    have hor := or_0x80_toNat hlt
    rw [encodeLeb128U32, if_neg hgo]
    refine ⟨.continued (by omega) ih.1, ?_⟩
    rw [Leb128.value, ih.2, hor, toNat_shiftRight_seven]
    omega

theorem length_encodeLeb128U32_le (value : UInt32) {k : ℕ} (hk : 0 < k)
    (hlt : value.toNat < 2 ^ (7 * k)) : (encodeLeb128U32 value).length ≤ k := by
  induction k generalizing value with
  | zero => exact absurd hk (lt_irrefl 0)
  | succ k ih =>
    rw [encodeLeb128U32]
    split
    · exact hk
    · next hgo =>
      have hne : value.toNat / 128 ≠ 0 := by
        rw [← toNat_shiftRight_seven]
        exact fun hzero => hgo (UInt32.toNat_inj.mp hzero)
      have hk' : k ≠ 0 := by
        intro hzero
        subst hzero
        omega
      have hrest : (value >>> 7).toNat < 2 ^ (7 * k) := by
        rw [toNat_shiftRight_seven]
        rw [Nat.mul_succ, Nat.pow_add] at hlt
        omega
      rw [length_cons]
      exact Nat.succ_le_succ (ih _ (by omega) hrest)

/-- The writer writes an encoding of its number. -/
theorem encodeLeb128U32_encodes (value : UInt32) :
    Encodes 32 (encodeLeb128U32 value) value.toNat := by
  obtain ⟨hterm, hvalue⟩ := encodeLeb128U32_value value
  refine ⟨hterm, ?_, hvalue, value.toNat_lt⟩
  exact length_encodeLeb128U32_le value (by omega) (value.toNat_lt.trans (by decide))

theorem encodeLeb128U32_encodes_ofNat (h : n < 2 ^ 32) :
    Encodes 32 (encodeLeb128U32 (UInt32.ofNat n)) n := by
  have hencodes := encodeLeb128U32_encodes (UInt32.ofNat n)
  rwa [UInt32.toNat_ofNat', Nat.mod_eq_of_lt h] at hencodes

/-- A section as it stands in a module: its id, the bytes of its size field and its body. -/
structure Section where
  id : UInt8
  size : List UInt8
  body : List UInt8

def Section.bytes (section_ : Section) : List UInt8 :=
  section_.id :: (section_.size ++ section_.body)

/-- The section is well formed, and is the given custom section or none. -/
inductive Section.Reads (section_ : Section) : Option CustomSection → Prop
  | other (hid : section_.id ≠ customSectionId)
      (hsize : Encodes 32 section_.size section_.body.length) : Section.Reads section_ none
  | custom {nameLen : List UInt8} {name : String} {payload : List UInt8}
      (hid : section_.id = customSectionId)
      (hsize : Encodes 32 section_.size section_.body.length)
      (hname : Encodes 32 nameLen (asBytes name).length)
      (hbody : section_.body = nameLen ++ asBytes name ++ payload) :
      Section.Reads section_ (some ⟨name, payload⟩)

/-- Well formed sections, with the custom sections among them. -/
inductive Frames : List Section → List CustomSection → Prop
  | nil : Frames [] []
  | other {section_ : Section} {sections : List Section} {customs : List CustomSection}
      (h : section_.Reads none) (hrest : Frames sections customs) :
      Frames (section_ :: sections) customs
  | custom {section_ : Section} {found : CustomSection} {sections : List Section}
      {customs : List CustomSection} (h : section_.Reads (some found))
      (hrest : Frames sections customs) : Frames (section_ :: sections) (found :: customs)

/-- A module with these sections, in this order. -/
structure WellFramed (wasm : List UInt8) (sections : List Section)
    (customs : List CustomSection) : Prop where
  bytes_eq : wasm = emptyModule ++ sections.flatMap Section.bytes
  frames : Frames sections customs

theorem Frames.append {sections sections' : List Section} {customs customs' : List CustomSection}
    (h : Frames sections customs) (h' : Frames sections' customs') :
    Frames (sections ++ sections') (customs ++ customs') := by
  induction h with
  | nil => exact h'
  | other hread _ ih => exact .other hread ih
  | custom hread _ ih => exact .custom hread ih

theorem fromUtf8_eq_some {bytes : List UInt8} {name : String} :
    fromUtf8 bytes = some name ↔ bytes = asBytes name := by
  unfold fromUtf8 String.fromUTF8? asBytes
  constructor
  · intro h
    split at h
    · cases h
      rfl
    · cases h
  · intro h
    subst h
    exact dif_pos name.isValidUTF8

theorem slice_eq_ok {bytes : List UInt8} {start finish : ℕ} (hle : start ≤ finish)
    (hlen : finish ≤ bytes.length) : slice bytes start finish = .ok ((bytes.take finish).drop start) :=
  if_pos ⟨hle, hlen⟩

theorem slice_rest {bytes : List UInt8} {start : ℕ} (hle : start ≤ bytes.length) :
    slice bytes start bytes.length = .ok (bytes.drop start) := by
  rw [slice_eq_ok hle le_rfl, List.take_length]

theorem slice_append (before middle rest : List UInt8) :
    slice (before ++ middle ++ rest) before.length (before ++ middle).length = .ok middle := by
  rw [slice_eq_ok (by simp) (by simp), List.take_left, drop_left]

variable {offset : ℕ}

theorem readCustomSection_append {nameLen nameBytes payload : List UInt8}
    (hencodes : Encodes 32 nameLen nameBytes.length) :
    readCustomSection (nameLen ++ nameBytes ++ payload) offset =
      match fromUtf8 nameBytes with
      | none => .error (.failed (.invalidSectionName offset))
      | some name => .ok ⟨name, payload⟩ := by
  have hnat : (UInt32.ofNat nameBytes.length).toNat = nameBytes.length := by
    rw [UInt32.toNat_ofNat', Nat.mod_eq_of_lt hencodes.lt]
  have hdecode : decodeLeb128U32 (nameLen ++ nameBytes ++ payload) =
      some (UInt32.ofNat nameBytes.length, nameLen.length) :=
    decodeLeb128U32_eq_some.mpr ⟨nameLen, nameBytes ++ payload, append_assoc _ _ _,
      by rwa [hnat], rfl⟩
  have hend : nameLen.length + nameBytes.length = (nameLen ++ nameBytes).length :=
    length_append.symm
  have hfits : ¬ (nameLen ++ nameBytes ++ payload).length < (nameLen ++ nameBytes).length := by
    rw [@length_append _ (nameLen ++ nameBytes) payload]
    omega
  have hpayload : slice (nameLen ++ nameBytes ++ payload) (nameLen ++ nameBytes).length
      (nameLen ++ nameBytes ++ payload).length = .ok payload := by
    rw [slice_rest (by simp), drop_left]
  unfold readCustomSection
  rw [hdecode]
  dsimp only
  rw [hnat, hend, if_neg hfits, slice_append, hpayload]
  rfl

/-- A custom section's body is the length of a name, the name and the payload. -/
theorem readCustomSection_cases (body : List UInt8) (offset : ℕ) :
    readCustomSection body offset = .error (.failed (.invalidSectionName offset)) ∨
      ∃ nameLen nameBytes payload, body = nameLen ++ nameBytes ++ payload ∧
        Encodes 32 nameLen nameBytes.length := by
  unfold readCustomSection
  cases hdecode : decodeLeb128U32 body with
  | none => exact .inl rfl
  | some decoded =>
    obtain ⟨encoding, rest, rfl, hencodes, hconsumed⟩ := decodeLeb128U32_eq_some.mp hdecode
    dsimp only
    rw [hconsumed, length_append]
    by_cases hshort : encoding.length + rest.length < encoding.length + decoded.1.toNat
    · exact .inl (if_pos hshort)
    · refine .inr ⟨encoding, rest.take decoded.1.toNat, rest.drop decoded.1.toNat, ?_, ?_⟩
      · rw [append_assoc, List.take_append_drop]
      · rwa [length_take, min_eq_left (by omega)]

theorem readCustomSection_ne_outOfRange (body : List UInt8) (offset : ℕ) :
    readCustomSection body offset ≠ .error .outOfRange := by
  rcases readCustomSection_cases body offset with h | ⟨nameLen, nameBytes, payload, rfl, hencodes⟩
  · rw [h]
    exact nofun
  · rw [readCustomSection_append hencodes]
    split <;> exact nofun

variable {found : CustomSection}

theorem readCustomSection_eq_ok {body : List UInt8} :
    readCustomSection body offset = .ok found ↔
      ∃ nameLen, Encodes 32 nameLen (asBytes found.name).length ∧
        body = nameLen ++ asBytes found.name ++ found.payload := by
  constructor
  · intro h
    rcases readCustomSection_cases body offset with herr | ⟨nameLen, nameBytes, payload, rfl, henc⟩
    · rw [herr] at h
      cases h
    · rw [readCustomSection_append henc] at h
      cases hname : fromUtf8 nameBytes with
      | none =>
        rw [hname] at h
        cases h
      | some name =>
        rw [hname] at h
        cases h
        rw [fromUtf8_eq_some] at hname
        subst hname
        exact ⟨nameLen, henc, rfl⟩
  · rintro ⟨nameLen, henc, rfl⟩
    rw [readCustomSection_append henc, fromUtf8_eq_some.mpr rfl]

/-! ## The walk -/

/-- The walker before `bytes`, which follow `before`. -/
def SectionWalker.facing (before bytes : List UInt8) : SectionWalker :=
  ⟨before ++ bytes, before.length⟩

theorem SectionWalker.facing_append (before bytes rest : List UInt8) :
    SectionWalker.facing (before ++ bytes) rest =
      ⟨before ++ (bytes ++ rest), before.length + bytes.length⟩ := by
  rw [SectionWalker.facing, append_assoc, length_append]

theorem SectionWalker.readLeb128U32_facing (before encoding rest : List UInt8)
    (hencodes : Encodes 32 encoding n) :
    (SectionWalker.facing before (encoding ++ rest)).readLeb128U32 =
      .ok (UInt32.ofNat n, .facing (before ++ encoding) rest) := by
  have hdecode : decodeLeb128U32 (encoding ++ rest) = some (UInt32.ofNat n, encoding.length) := by
    refine decodeLeb128U32_eq_some.mpr ⟨encoding, rest, rfl, ?_, rfl⟩
    rwa [UInt32.toNat_ofNat', Nat.mod_eq_of_lt hencodes.lt]
  have hslice : slice (before ++ (encoding ++ rest)) before.length
      (before ++ (encoding ++ rest)).length = .ok (encoding ++ rest) := by
    rw [slice_rest (by simp), drop_left]
  rw [SectionWalker.facing_append]
  unfold SectionWalker.readLeb128U32 SectionWalker.facing
  rw [hslice]
  simp only [bind, Except.bind, hdecode]

variable {section_ : Section}

/-- The walker reads the section it stands before. -/
theorem SectionWalker.readSection_facing (before rest : List UInt8)
    (hsize : Encodes 32 section_.size section_.body.length) :
    (SectionWalker.facing before (section_.bytes ++ rest)).readSection =
      if section_.id ≠ customSectionId then .ok (none, .facing (before ++ section_.bytes) rest)
      else (readCustomSection section_.body (before.length + 1 + section_.size.length)).map
        fun found => (some found, .facing (before ++ section_.bytes) rest) := by
  obtain ⟨id, size, body⟩ := section_
  have hid : byteAt (before ++ (id :: (size ++ body) ++ rest)) before.length = .ok id := by
    unfold byteAt
    rw [List.getElem?_append_right le_rfl, Nat.sub_self]
    rfl
  have hread : SectionWalker.readLeb128U32
      ⟨before ++ (id :: (size ++ body) ++ rest), before.length + 1⟩ =
      .ok (UInt32.ofNat body.length, .facing (before ++ [id] ++ size) (body ++ rest)) := by
    have h := SectionWalker.readLeb128U32_facing (before ++ [id]) size (body ++ rest) hsize
    simpa [SectionWalker.facing] using h
  have hnat : (UInt32.ofNat body.length).toNat = body.length := by
    rw [UInt32.toNat_ofNat', Nat.mod_eq_of_lt hsize.lt]
  have hfits : ¬ (before ++ [id] ++ size ++ (body ++ rest)).length <
      (before ++ [id] ++ size).length + body.length := by
    simp only [length_append]
    omega
  have hslice : slice (before ++ [id] ++ size ++ (body ++ rest)) (before ++ [id] ++ size).length
      ((before ++ [id] ++ size).length + body.length) = .ok body := by
    rw [← append_assoc _ body rest, ← length_append, slice_append]
  have hend : SectionWalker.facing (before ++ id :: (size ++ body)) rest =
      ⟨before ++ [id] ++ size ++ (body ++ rest), (before ++ [id] ++ size).length + body.length⟩ := by
    simp [SectionWalker.facing, Nat.add_assoc, Nat.add_comm, Nat.add_left_comm]
  have hoffset : (before ++ [id] ++ size).length + body.length - body.length =
      before.length + 1 + size.length := by
    rw [Nat.add_sub_cancel, length_append, length_append, List.length_singleton]
  unfold SectionWalker.readSection Section.bytes
  show (byteAt (before ++ (id :: (size ++ body) ++ rest)) before.length >>= _) = _
  rw [hid]
  show (SectionWalker.readLeb128U32
    ⟨before ++ (id :: (size ++ body) ++ rest), before.length + 1⟩ >>= _) = _
  rw [hread, hend]
  simp only [bind, Except.bind, SectionWalker.facing, hnat, if_neg hfits, hslice, hoffset]
  split
  · rfl
  · cases readCustomSection body (before.length + 1 + size.length) <;> rfl

theorem SectionWalker.readLeb128U32_cases (before rest : List UInt8) :
    (SectionWalker.facing before rest).readLeb128U32 =
        .error (.failed (.malformedLength before.length)) ∨
      ∃ encoding rest' n, rest = encoding ++ rest' ∧ Encodes 32 encoding n := by
  cases hdecode : decodeLeb128U32 rest with
  | none =>
    have hslice : slice (before ++ rest) before.length (before ++ rest).length = .ok rest := by
      rw [slice_rest (by simp), drop_left]
    refine .inl ?_
    unfold SectionWalker.readLeb128U32 SectionWalker.facing
    rw [hslice]
    simp only [bind, Except.bind, hdecode]
  | some decoded =>
    obtain ⟨encoding, rest', hsplit, hencodes, -⟩ := decodeLeb128U32_eq_some.mp hdecode
    exact .inr ⟨encoding, rest', _, hsplit, hencodes⟩

/-- Whatever follows, the walker fails or stands before a section whose size fits. -/
theorem SectionWalker.readSection_cases (before : List UInt8) {bytes : List UInt8}
    (hne : bytes ≠ []) :
    (∃ error, (SectionWalker.facing before bytes).readSection = .error (.failed error)) ∨
      ∃ (section_ : Section) (rest : List UInt8), bytes = section_.bytes ++ rest ∧
        Encodes 32 section_.size section_.body.length := by
  obtain ⟨id, tail, rfl⟩ := List.exists_cons_of_ne_nil hne
  have hid : byteAt (before ++ id :: tail) before.length = .ok id := by
    unfold byteAt
    rw [List.getElem?_append_right le_rfl, Nat.sub_self]
    rfl
  have hnext : (⟨before ++ id :: tail, before.length + 1⟩ : SectionWalker) =
      .facing (before ++ [id]) tail := by
    rw [SectionWalker.facing, length_append, append_assoc]
    rfl
  rcases SectionWalker.readLeb128U32_cases (before ++ [id]) tail with
    herror | ⟨encoding, tail', n, rfl, hencodes⟩
  · refine .inl ⟨.malformedLength (before ++ [id]).length, ?_⟩
    show (byteAt (before ++ id :: tail) before.length >>= _) = _
    rw [hid]
    show (SectionWalker.readLeb128U32 ⟨before ++ id :: tail, before.length + 1⟩ >>= _) = _
    rw [hnext, herror]
    rfl
  · by_cases hfits : tail'.length < n
    · have hread := SectionWalker.readLeb128U32_facing (before ++ [id]) encoding tail' hencodes
      have hnat : (UInt32.ofNat n).toNat = n := by
        rw [UInt32.toNat_ofNat', Nat.mod_eq_of_lt hencodes.lt]
      have hshort : (before ++ [id] ++ encoding ++ tail').length <
          (before ++ [id] ++ encoding).length + n := by
        rw [@length_append _ (before ++ [id] ++ encoding) tail']
        omega
      refine .inl ⟨.truncated (before ++ [id] ++ encoding).length, ?_⟩
      show (byteAt (before ++ id :: (encoding ++ tail')) before.length >>= _) = _
      rw [hid]
      show (SectionWalker.readLeb128U32
        ⟨before ++ id :: (encoding ++ tail'), before.length + 1⟩ >>= _) = _
      rw [hnext, hread]
      simp only [bind, Except.bind, SectionWalker.facing, hnat, if_pos hshort]
    · refine .inr ⟨⟨id, encoding, tail'.take n⟩, tail'.drop n, ?_, ?_⟩
      · rw [Section.bytes, cons_append, append_assoc, List.take_append_drop]
      · show Encodes 32 encoding (tail'.take n).length
        rwa [length_take, min_eq_left (not_lt.mp hfits)]

/-- One section is read, with the custom section that it is, or the walk fails there. -/
theorem SectionWalker.readSection_spec (before : List UInt8) {bytes : List UInt8}
    (hne : bytes ≠ []) :
    (∃ error, (SectionWalker.facing before bytes).readSection = .error (.failed error)) ∨
      ∃ (section_ : Section) (found : Option CustomSection) (rest : List UInt8),
        bytes = section_.bytes ++ rest ∧ section_.Reads found ∧
          (SectionWalker.facing before bytes).readSection =
            .ok (found, .facing (before ++ section_.bytes) rest) := by
  rcases SectionWalker.readSection_cases before hne with herror | ⟨section_, rest, rfl, hsize⟩
  · exact .inl herror
  rw [SectionWalker.readSection_facing before rest hsize]
  by_cases hid : section_.id ≠ customSectionId
  · rw [if_pos hid]
    exact .inr ⟨section_, none, rest, rfl, .other hid hsize, rfl⟩
  · rw [if_neg hid]
    cases hcustom : readCustomSection section_.body (before.length + 1 + section_.size.length) with
    | error stop =>
      cases stop with
      | failed error => exact .inl ⟨error, rfl⟩
      | outOfRange => exact absurd hcustom (readCustomSection_ne_outOfRange _ _)
    | ok found =>
      obtain ⟨nameLen, hname, hbody⟩ := readCustomSection_eq_ok.mp hcustom
      exact .inr ⟨section_, some found, rest, rfl, .custom (not_not.mp hid) hsize hname hbody, rfl⟩

theorem Section.Reads.readSection {section_ : Section} {found : Option CustomSection}
    (h : section_.Reads found) (before rest : List UInt8) :
    (SectionWalker.facing before (section_.bytes ++ rest)).readSection =
      .ok (found, .facing (before ++ section_.bytes) rest) := by
  cases h with
  | other hid hsize => rw [SectionWalker.readSection_facing before rest hsize, if_pos hid]
  | @custom nameLen name payload hid hsize hname hbody =>
    have hcustom : readCustomSection section_.body (before.length + 1 + section_.size.length) =
        .ok ⟨name, payload⟩ :=
      readCustomSection_eq_ok.mpr ⟨nameLen, hname, hbody⟩
    rw [SectionWalker.readSection_facing before rest hsize, if_neg (not_not.mpr hid), hcustom]
    rfl

section Loop

variable {σ : Type} (f : σ → CustomSection → Except SectionError σ)

theorem SectionWalker.forSections_eq (walker : SectionWalker) (state : σ) :
    walker.forSections f state =
      match walker.nextSection with
      | .error stop => .error stop
      | .ok (none, _) => .ok state
      | .ok (some custom, walker') =>
        match f state custom with
        | .error error => .error (.failed error)
        | .ok state' => walker'.forSections f state' := by
  rw [SectionWalker.forSections]
  split
  · next stop hnext => rw [hnext]
  · next walker' hnext => rw [hnext]
  · next custom walker' hnext =>
    cases hf : f state custom with
    | error error => simp only [hnext, hf]
    | ok state' => simp only [hnext, hf]

theorem SectionWalker.lt_length_facing (before : List UInt8) {bytes : List UInt8}
    (hne : bytes ≠ []) : (SectionWalker.facing before bytes).pos <
      (SectionWalker.facing before bytes).bytes.length := by
  show before.length < (before ++ bytes).length
  rw [length_append]
  exact Nat.lt_add_of_pos_right (List.length_pos_of_ne_nil hne)

theorem SectionWalker.forSections_nil (before : List UInt8) (state : σ) :
    (SectionWalker.facing before []).forSections f state = .ok state := by
  have hdone : ¬ (SectionWalker.facing before []).pos <
      (SectionWalker.facing before []).bytes.length := by
    show ¬ before.length < (before ++ []).length
    rw [List.append_nil]
    exact lt_irrefl _
  rw [SectionWalker.forSections_eq, SectionWalker.nextSection_done hdone]

theorem SectionWalker.forSections_error {before bytes : List UInt8} {stop : Stop}
    (hne : bytes ≠ []) (hread : (SectionWalker.facing before bytes).readSection = .error stop)
    (state : σ) : (SectionWalker.facing before bytes).forSections f state = .error stop := by
  have hnext := SectionWalker.nextSection_error (SectionWalker.lt_length_facing before hne) hread
  rw [SectionWalker.forSections_eq, hnext]

theorem SectionWalker.forSections_congr {walker walker' : SectionWalker}
    (h : walker.nextSection = walker'.nextSection) (state : σ) :
    walker.forSections f state = walker'.forSections f state := by
  rw [SectionWalker.forSections_eq, SectionWalker.forSections_eq, h]

theorem SectionWalker.forSections_other (h : section_.Reads none) (before rest : List UInt8)
    (state : σ) :
    (SectionWalker.facing before (section_.bytes ++ rest)).forSections f state =
      (SectionWalker.facing (before ++ section_.bytes) rest).forSections f state :=
  SectionWalker.forSections_congr f (SectionWalker.nextSection_skip
    (SectionWalker.lt_length_facing before (by simp [Section.bytes])) (h.readSection before rest))
    state

theorem SectionWalker.forSections_custom (h : section_.Reads (some found))
    (before rest : List UInt8) (state : σ) :
    (SectionWalker.facing before (section_.bytes ++ rest)).forSections f state =
      match f state found with
      | .error error => .error (.failed error)
      | .ok state' =>
        (SectionWalker.facing (before ++ section_.bytes) rest).forSections f state' := by
  have hne : section_.bytes ++ rest ≠ [] := by simp [Section.bytes]
  have hnext := SectionWalker.nextSection_custom (SectionWalker.lt_length_facing before hne)
    (h.readSection before rest)
  rw [SectionWalker.forSections_eq, hnext]

/-- On well formed sections the loop runs over the custom sections, in their order. -/
theorem Frames.forSections {sections : List Section} {customs : List CustomSection}
    (h : Frames sections customs) (before : List UInt8) (state : σ) :
    (SectionWalker.facing before (sections.flatMap Section.bytes)).forSections f state =
      (customs.foldlM f state).mapError .failed := by
  induction h generalizing before state with
  | nil => exact SectionWalker.forSections_nil f before state
  | other hread _ ih =>
    rw [flatMap_cons, SectionWalker.forSections_other f hread, ih]
  | @custom section_ found sections customs hread _ ih =>
    rw [flatMap_cons, SectionWalker.forSections_custom f hread, List.foldlM_cons]
    cases f state found with
    | error error => rfl
    | ok state' => exact ih _ state'

/-- The loop ends with an error, or all the bytes are well formed sections. -/
theorem SectionWalker.forSections_cases (before bytes : List UInt8) (state : σ) :
    (∃ error, (SectionWalker.facing before bytes).forSections f state = .error (.failed error)) ∨
      ∃ sections customs, bytes = sections.flatMap Section.bytes ∧ Frames sections customs := by
  induction hlen : bytes.length using Nat.strong_induction_on generalizing before bytes state with
  | _ n ih =>
    by_cases hnil : bytes = []
    · exact .inr ⟨[], [], hnil, .nil⟩
    rcases SectionWalker.readSection_spec before hnil with
      ⟨error, herror⟩ | ⟨section_, found, rest, rfl, hread, -⟩
    · exact .inl ⟨error, SectionWalker.forSections_error f hnil herror state⟩
    have hlt : rest.length < n := by
      rw [← hlen, Section.bytes, cons_append, length_cons, length_append]
      omega
    cases found with
    | none =>
      rw [SectionWalker.forSections_other f hread]
      rcases ih rest.length hlt (before ++ section_.bytes) rest state rfl with
        herror | ⟨sections, customs, hbytes, hframes⟩
      · exact .inl herror
      · refine .inr ⟨section_ :: sections, customs, ?_, .other hread hframes⟩
        rw [flatMap_cons, ← hbytes]
    | some found =>
      rw [SectionWalker.forSections_custom f hread]
      cases f state found with
      | error error => exact .inl ⟨error, rfl⟩
      | ok state' =>
        rcases ih rest.length hlt (before ++ section_.bytes) rest state' rfl with
          herror | ⟨sections, customs, hbytes, hframes⟩
        · exact .inl herror
        · refine .inr ⟨section_ :: sections, found :: customs, ?_, .custom hread hframes⟩
          rw [flatMap_cons, ← hbytes]

end Loop

end ProvenGraphcal.Plugin
