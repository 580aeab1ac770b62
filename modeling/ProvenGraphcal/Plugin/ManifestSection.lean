import ProvenGraphcal.Library.Checked
import ProvenGraphcal.Library.Leb128

/-!
# The manifest section of a WebAssembly module

The walk over the section framing of a binary, and the manifest custom section that a plugin
carries. Slices are lists of bytes; an index or a range outside them, where the program panics, is
an outcome of its own.
-/

namespace ProvenGraphcal.Plugin

/-- The header every module starts with: the magic and the format version 1. -/
def emptyModule : List UInt8 := [0x00, 0x61, 0x73, 0x6D, 0x01, 0x00, 0x00, 0x00]

def customSectionId : UInt8 := 0

def manifestSection : String := "graphcal-manifest"

def maxManifestBytes : ℕ := 256 * 1024

inductive SectionError
  | notAWasmModule
  | unsupportedWasmVersion (found : ℕ)
  | truncated (offset : ℕ)
  | malformedLength (offset : ℕ)
  | invalidSectionName (offset : ℕ)
  | missingManifest
  | duplicateManifest
  | manifestPayloadTooLarge (bytes max : ℕ)
  | tooLarge
  deriving DecidableEq

/-- How a walk ends early: with an error, or by a read outside the bytes. -/
inductive Stop
  | failed (error : SectionError)
  | outOfRange
  deriving DecidableEq

def decodeFrom : ℕ → UInt32 → List UInt8 → Option (UInt32 × ℕ)
  | _, _, [] => none
  | index, value, byte :: rest =>
    let bits := (byte &&& 0x7F).toUInt32
    -- The fifth byte may only contribute the low 4 bits.
    if index = 4 ∧ byte &&& 0xF0 ≠ 0 then none
    else
      let value := value ||| bits <<< (7 * index).toUInt32
      if byte &&& 0x80 = 0 then some (value, index + 1) else decodeFrom (index + 1) value rest

/-- The value at the start of `bytes` and the number of bytes it takes. -/
def decodeLeb128U32 (bytes : List UInt8) : Option (UInt32 × ℕ) := decodeFrom 0 0 (bytes.take 5)

theorem toNat_shiftRight_seven (value : UInt32) : (value >>> 7).toNat = value.toNat / 128 := by
  rw [UInt32.toNat_shiftRight]
  exact Nat.shiftRight_eq_div_pow _ 7

def encodeLeb128U32 (value : UInt32) : List UInt8 :=
  let byte := (value &&& 0x7F).toUInt8
  if value >>> 7 = 0 then [byte] else (byte ||| 0x80) :: encodeLeb128U32 (value >>> 7)
termination_by value.toNat
decreasing_by
  rename_i h
  have hne : (value >>> 7).toNat ≠ 0 := fun hzero => h (UInt32.toNat_inj.mp hzero)
  rw [toNat_shiftRight_seven] at hne ⊢
  omega

/-! ## The walker -/

/-- One custom section encountered by the walker. -/
structure CustomSection where
  name : String
  payload : List UInt8
  deriving DecidableEq

def byteAt (bytes : List UInt8) (index : ℕ) : Except Stop UInt8 :=
  match bytes[index]? with
  | some byte => .ok byte
  | none => .error .outOfRange

/-- `&bytes[start..finish]`. -/
def slice (bytes : List UInt8) (start finish : ℕ) : Except Stop (List UInt8) :=
  if start ≤ finish ∧ finish ≤ bytes.length then .ok ((bytes.take finish).drop start)
  else .error .outOfRange

def asBytes (name : String) : List UInt8 := name.toUTF8.data.toList

def fromUtf8 (bytes : List UInt8) : Option String := String.fromUTF8? ⟨bytes.toArray⟩

/-- Cursor over a binary's section framing. -/
structure SectionWalker where
  bytes : List UInt8
  pos : ℕ

def u32FromLeBytes (a b c d : UInt8) : ℕ :=
  a.toNat + 2 ^ 8 * b.toNat + 2 ^ 16 * c.toNat + 2 ^ 24 * d.toNat

def SectionWalker.new (wasm : List UInt8) : Except Stop SectionWalker :=
  if wasm.length < emptyModule.length then .error (.failed .notAWasmModule)
  else do
    let magic ← slice wasm 0 4
    if magic ≠ emptyModule.take 4 then .error (.failed .notAWasmModule)
    else do
      let a ← byteAt wasm 4
      let b ← byteAt wasm 5
      let c ← byteAt wasm 6
      let d ← byteAt wasm 7
      let version := u32FromLeBytes a b c d
      if version ≠ 1 then .error (.failed (.unsupportedWasmVersion version))
      else .ok ⟨wasm, emptyModule.length⟩

def SectionWalker.readLeb128U32 (walker : SectionWalker) : Except Stop (UInt32 × SectionWalker) := do
  let rest ← slice walker.bytes walker.pos walker.bytes.length
  match decodeLeb128U32 rest with
  | some (value, consumed) => .ok (value, { walker with pos := walker.pos + consumed })
  | none => .error (.failed (.malformedLength walker.pos))

/-- The name and the payload of a custom section's body, which starts at `offset`. -/
def readCustomSection (body : List UInt8) (offset : ℕ) : Except Stop CustomSection :=
  match decodeLeb128U32 body with
  | none => .error (.failed (.invalidSectionName offset))
  | some (nameLen, nameLenBytes) =>
    let nameEnd := nameLenBytes + nameLen.toNat
    if body.length < nameEnd then .error (.failed (.invalidSectionName offset))
    else do
      let nameBytes ← slice body nameLenBytes nameEnd
      match fromUtf8 nameBytes with
      | none => .error (.failed (.invalidSectionName offset))
      | some name => do
        let payload ← slice body nameEnd body.length
        .ok ⟨name, payload⟩

/-- One section: the custom section it is, if it is one, and the walker behind it. -/
def SectionWalker.readSection (walker : SectionWalker) :
    Except Stop (Option CustomSection × SectionWalker) := do
  let id ← byteAt walker.bytes walker.pos
  let (size, walker) ← SectionWalker.readLeb128U32 { walker with pos := walker.pos + 1 }
  let finish := walker.pos + size.toNat
  if walker.bytes.length < finish then .error (.failed (.truncated walker.pos))
  else do
    let body ← slice walker.bytes walker.pos finish
    if id ≠ customSectionId then .ok (none, { walker with pos := finish })
    else do
      let custom ← readCustomSection body (finish - size.toNat)
      .ok (some custom, { walker with pos := finish })

variable {walker walker' : SectionWalker}

theorem SectionWalker.readLeb128U32_ok {value : UInt32}
    (h : walker.readLeb128U32 = .ok (value, walker')) :
    walker'.bytes = walker.bytes ∧ walker.pos ≤ walker'.pos := by
  obtain ⟨rest, -, h⟩ := Checked.bind_eq_ok.mp h
  cases hdecode : decodeLeb128U32 rest with
  | none =>
    rw [hdecode] at h
    cases h
  | some decoded =>
    rw [hdecode] at h
    cases h
    exact ⟨rfl, Nat.le_add_right _ _⟩

variable {custom : Option CustomSection}

/-- A section that is read lies behind the walker. -/
theorem SectionWalker.readSection_ok (h : walker.readSection = .ok (custom, walker')) :
    walker'.bytes = walker.bytes ∧ walker.pos < walker'.pos ∧
      walker'.pos ≤ walker.bytes.length := by
  obtain ⟨id, -, h⟩ := Checked.bind_eq_ok.mp h
  obtain ⟨⟨size, sized⟩, hread, h⟩ := Checked.bind_eq_ok.mp h
  obtain ⟨hbytes, hpos⟩ := SectionWalker.readLeb128U32_ok hread
  have hbytes : sized.bytes = walker.bytes := hbytes
  have hpos : walker.pos + 1 ≤ sized.pos := hpos
  dsimp only at h
  split at h
  · cases h
  · obtain ⟨body, -, h⟩ := Checked.bind_eq_ok.mp h
    split at h
    · cases h
      refine ⟨hbytes, ?_, ?_⟩
      · show walker.pos < sized.pos + size.toNat
        omega
      · show sized.pos + size.toNat ≤ walker.bytes.length
        rw [← hbytes]
        omega
    · obtain ⟨name, -, h⟩ := Checked.bind_eq_ok.mp h
      cases h
      refine ⟨hbytes, ?_, ?_⟩
      · show walker.pos < sized.pos + size.toNat
        omega
      · show sized.pos + size.toNat ≤ walker.bytes.length
        rw [← hbytes]
        omega

/-- Advance to the next custom section, skipping the other sections. -/
def SectionWalker.nextSection (walker : SectionWalker) :
    Except Stop (Option CustomSection × SectionWalker) :=
  if walker.pos < walker.bytes.length then
    match _h : walker.readSection with
    | .error stop => .error stop
    | .ok (none, walker') => SectionWalker.nextSection walker'
    | .ok (some custom, walker') => .ok (some custom, walker')
  else .ok (none, walker)
termination_by walker.bytes.length - walker.pos
decreasing_by
  have hread := SectionWalker.readSection_ok _h
  rw [hread.1]
  omega

theorem SectionWalker.nextSection_eq (walker : SectionWalker) : walker.nextSection =
    if walker.pos < walker.bytes.length then
      match walker.readSection with
      | .error stop => .error stop
      | .ok (none, walker') => walker'.nextSection
      | .ok (some custom, walker') => .ok (some custom, walker')
    else .ok (none, walker) := by
  rw [SectionWalker.nextSection]
  congr 1
  split <;> simp_all

theorem SectionWalker.nextSection_done (hdone : ¬ walker.pos < walker.bytes.length) :
    walker.nextSection = .ok (none, walker) := by
  rw [SectionWalker.nextSection_eq, if_neg hdone]

section

variable (hlt : walker.pos < walker.bytes.length)

include hlt

theorem SectionWalker.nextSection_error {stop : Stop} (hread : walker.readSection = .error stop) :
    walker.nextSection = .error stop := by
  rw [SectionWalker.nextSection_eq, if_pos hlt, hread]

theorem SectionWalker.nextSection_skip (hread : walker.readSection = .ok (none, walker')) :
    walker.nextSection = walker'.nextSection := by
  rw [SectionWalker.nextSection_eq, if_pos hlt, hread]

theorem SectionWalker.nextSection_custom {custom : CustomSection}
    (hread : walker.readSection = .ok (some custom, walker')) :
    walker.nextSection = .ok (some custom, walker') := by
  rw [SectionWalker.nextSection_eq, if_pos hlt, hread]

end

theorem SectionWalker.nextSection_ok (h : walker.nextSection = .ok (custom, walker')) :
    walker'.bytes = walker.bytes ∧ walker.pos ≤ walker'.pos ∧
      (custom.isSome → walker.pos < walker'.pos ∧ walker'.pos ≤ walker.bytes.length) := by
  induction walker using SectionWalker.nextSection.induct with
  | case1 walker hlt stop hread =>
    rw [SectionWalker.nextSection_error hlt hread] at h
    cases h
  | case2 walker hlt next hread ih =>
    rw [SectionWalker.nextSection_skip hlt hread] at h
    obtain ⟨hbytes, hpos, -⟩ := SectionWalker.readSection_ok hread
    obtain ⟨hbytes', hpos', hsome⟩ := ih h
    rw [hbytes] at hbytes' hsome
    exact ⟨hbytes', by omega, fun hcustom => ⟨by have := (hsome hcustom).1; omega,
      (hsome hcustom).2⟩⟩
  | case3 walker hlt found next hread =>
    rw [SectionWalker.nextSection_custom hlt hread] at h
    cases h
    obtain ⟨hbytes, hpos, hle⟩ := SectionWalker.readSection_ok hread
    exact ⟨hbytes, hpos.le, fun _ => ⟨hpos, hle⟩⟩
  | case4 walker hdone =>
    rw [SectionWalker.nextSection_done hdone] at h
    cases h
    exact ⟨rfl, le_refl _, nofun⟩

/-- The loop over the custom sections, `f` its body. -/
def SectionWalker.forSections {σ : Type} (f : σ → CustomSection → Except SectionError σ)
    (walker : SectionWalker) (state : σ) : Except Stop σ :=
  match _h : walker.nextSection with
  | .error stop => .error stop
  | .ok (none, _) => .ok state
  | .ok (some custom, walker') =>
    match f state custom with
    | .error error => .error (.failed error)
    | .ok state' => SectionWalker.forSections f walker' state'
termination_by walker.bytes.length - walker.pos
decreasing_by
  have hnext := SectionWalker.nextSection_ok _h
  have hpos := hnext.2.2 rfl
  rw [hnext.1]
  omega

def extractStep (manifest : Option (List UInt8)) (custom : CustomSection) :
    Except SectionError (Option (List UInt8)) :=
  if custom.name = manifestSection then
    if manifest.isSome then .error .duplicateManifest else .ok (some custom.payload)
  else .ok manifest

/-- The payload of the unique manifest custom section. -/
def extractManifest (wasm : List UInt8) : Except Stop (List UInt8) := do
  let walker ← SectionWalker.new wasm
  let manifest ← walker.forSections extractStep none
  match manifest with
  | some payload => .ok payload
  | none => .error (.failed .missingManifest)

def embedStep (_ : Unit) (custom : CustomSection) : Except SectionError Unit :=
  if custom.name = manifestSection then .error .duplicateManifest else .ok ()

def u32TryFrom (n : ℕ) : Except Stop UInt32 :=
  if n < 2 ^ 32 then .ok (UInt32.ofNat n) else .error (.failed .tooLarge)

/-- Append `payload` as the manifest custom section. -/
def embedManifest (wasm payload : List UInt8) : Except Stop (List UInt8) :=
  if maxManifestBytes < payload.length then
    .error (.failed (.manifestPayloadTooLarge payload.length maxManifestBytes))
  else do
    let walker ← SectionWalker.new wasm
    walker.forSections embedStep ()
    let name := asBytes manifestSection
    let nameLen := encodeLeb128U32 (← u32TryFrom name.length)
    let contentLen ← u32TryFrom (nameLen.length + name.length + payload.length)
    let size := encodeLeb128U32 contentLen
    .ok (wasm ++ [customSectionId] ++ size ++ nameLen ++ name ++ payload)

end ProvenGraphcal.Plugin
