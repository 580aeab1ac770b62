import ProvenGraphcal.Plugin.SectionFraming

/-!
# Embedding a manifest and extracting it
-/

namespace ProvenGraphcal.Plugin

open Leb128

/-- The payloads of the manifest sections among the custom sections. -/
def manifests (customs : List CustomSection) : List (List UInt8) :=
  (customs.filter fun custom => custom.name = manifestSection).map CustomSection.payload

theorem manifests_cons (custom : CustomSection) (customs : List CustomSection) :
    manifests (custom :: customs) =
      if custom.name = manifestSection then custom.payload :: manifests customs
      else manifests customs := by
  unfold manifests
  by_cases h : custom.name = manifestSection
  · rw [List.filter_cons_of_pos (by simpa using h), if_pos h, List.map_cons]
  · rw [List.filter_cons_of_neg (by simpa using h), if_neg h]

theorem version_eq_one {a b c d : UInt8} :
    u32FromLeBytes a b c d = 1 ↔ a = 1 ∧ b = 0 ∧ c = 0 ∧ d = 0 := by
  have hnat : ∀ x y : UInt8, x = y ↔ x.toNat = y.toNat := fun x y => UInt8.toNat_inj.symm
  have ha := a.toNat_lt
  simp only [hnat, u32FromLeBytes]
  show a.toNat + 2 ^ 8 * b.toNat + 2 ^ 16 * c.toNat + 2 ^ 24 * d.toNat = 1 ↔
    a.toNat = 1 ∧ b.toNat = 0 ∧ c.toNat = 0 ∧ d.toNat = 0
  omega

theorem SectionWalker.new_append (rest : List UInt8) :
    SectionWalker.new (emptyModule ++ rest) = .ok (.facing emptyModule rest) := by
  have hlen : ¬ (emptyModule ++ rest).length < emptyModule.length := by
    rw [List.length_append]
    omega
  have hslice : slice (emptyModule ++ rest) 0 4 = .ok (emptyModule.take 4) :=
    slice_append [] (emptyModule.take 4) (emptyModule.drop 4 ++ rest)
  unfold SectionWalker.new
  rw [if_neg hlen, hslice]
  rfl

/-- What the walker starts on has the header of a module. -/
theorem SectionWalker.new_cases (wasm : List UInt8) :
    (∃ error, SectionWalker.new wasm = .error (.failed error)) ∨
      ∃ rest, wasm = emptyModule ++ rest := by
  unfold SectionWalker.new
  by_cases hlen : wasm.length < emptyModule.length
  · exact .inl ⟨.notAWasmModule, if_pos hlen⟩
  rw [if_neg hlen]
  have hle : 8 ≤ wasm.length := not_lt.mp hlen
  have hslice : slice wasm 0 4 = .ok (wasm.take 4) := slice_eq_ok (by omega) (by omega)
  rw [hslice]
  by_cases hmagic : wasm.take 4 ≠ emptyModule.take 4
  · exact .inl ⟨.notAWasmModule, if_pos hmagic⟩
  simp only [bind, Except.bind, if_neg hmagic]
  match wasm, hle with
  | m₀ :: m₁ :: m₂ :: m₃ :: a :: b :: c :: d :: rest, _ =>
    by_cases hversion : u32FromLeBytes a b c d ≠ 1
    · exact .inl ⟨.unsupportedWasmVersion _, if_pos hversion⟩
    · obtain ⟨rfl, rfl, rfl, rfl⟩ := version_eq_one.mp (not_not.mp hversion)
      refine .inr ⟨rest, ?_⟩
      have hmagic : [m₀, m₁, m₂, m₃] = emptyModule.take 4 := not_not.mp hmagic
      show [m₀, m₁, m₂, m₃] ++ (emptyModule.drop 4 ++ rest) = emptyModule ++ rest
      rw [hmagic]
      rfl

theorem foldlM_extractStep_some (customs : List CustomSection) (payload : List UInt8) :
    customs.foldlM extractStep (some payload) =
      if manifests customs = [] then .ok (some payload) else .error .duplicateManifest := by
  induction customs with
  | nil => rfl
  | cons custom customs ih =>
    rw [List.foldlM_cons, manifests_cons, extractStep]
    by_cases h : custom.name = manifestSection
    · simp only [h]
      rfl
    · simp only [if_neg h]
      exact ih

theorem foldlM_extractStep (customs : List CustomSection) :
    customs.foldlM extractStep none =
      match manifests customs with
      | [] => .ok none
      | [payload] => .ok (some payload)
      | _ => .error .duplicateManifest := by
  induction customs with
  | nil => rfl
  | cons custom customs ih =>
    rw [List.foldlM_cons, manifests_cons, extractStep]
    by_cases h : custom.name = manifestSection
    · simp only [h]
      show customs.foldlM extractStep (some custom.payload) = _
      rw [foldlM_extractStep_some]
      cases manifests customs <;> rfl
    · simp only [if_neg h]
      exact ih

theorem WellFramed.forSections {σ : Type} {f : σ → CustomSection → Except SectionError σ}
    {wasm : List UInt8} {sections : List Section} {customs : List CustomSection}
    (h : WellFramed wasm sections customs) (state : σ) :
    SectionWalker.new wasm >>= (fun walker => walker.forSections f state) =
      (customs.foldlM f state).mapError .failed := by
  rw [h.bytes_eq, SectionWalker.new_append]
  exact h.frames.forSections f emptyModule state

/-- A walk that starts at the header ends with an error, or the module is well framed. -/
theorem SectionWalker.walk_cases {σ : Type} (f : σ → CustomSection → Except SectionError σ)
    (wasm : List UInt8) (state : σ) :
    (∃ error, SectionWalker.new wasm >>= (fun walker => walker.forSections f state) =
        .error (.failed error)) ∨
      ∃ sections customs, WellFramed wasm sections customs := by
  rcases SectionWalker.new_cases wasm with ⟨error, herror⟩ | ⟨rest, rfl⟩
  · refine .inl ⟨error, ?_⟩
    rw [herror]
    rfl
  · rw [SectionWalker.new_append]
    rcases SectionWalker.forSections_cases f emptyModule rest state with
      herror | ⟨sections, customs, rfl, hframes⟩
    · exact .inl herror
    · exact .inr ⟨sections, customs, rfl, hframes⟩

theorem SectionWalker.walk_ne_outOfRange {σ : Type}
    (f : σ → CustomSection → Except SectionError σ) (wasm : List UInt8) (state : σ) :
    SectionWalker.new wasm >>= (fun walker => walker.forSections f state) ≠
      .error .outOfRange := by
  rcases SectionWalker.walk_cases f wasm state with ⟨error, h⟩ | ⟨sections, customs, h⟩
  · rw [h]
    exact nofun
  · rw [h.forSections]
    cases customs.foldlM f state <;> exact nofun

theorem extractManifest_eq (wasm : List UInt8) :
    extractManifest wasm =
      (SectionWalker.new wasm >>= fun walker => walker.forSections extractStep none) >>=
        fun manifest => match manifest with
          | some payload => .ok payload
          | none => .error (.failed .missingManifest) := by
  exact (bind_assoc _ _ _).symm

theorem WellFramed.extractManifest {wasm : List UInt8} {sections : List Section}
    {customs : List CustomSection} (h : WellFramed wasm sections customs) :
    Plugin.extractManifest wasm =
      match manifests customs with
      | [] => .error (.failed .missingManifest)
      | [payload] => .ok payload
      | _ => .error (.failed .duplicateManifest) := by
  rw [extractManifest_eq, h.forSections, foldlM_extractStep]
  match manifests customs with
  | [] => rfl
  | [payload] => rfl
  | payload :: payload' :: rest => rfl

theorem extractManifest_eq_ok {wasm payload : List UInt8} :
    extractManifest wasm = .ok payload ↔
      ∃ sections customs, WellFramed wasm sections customs ∧ manifests customs = [payload] := by
  constructor
  · intro h
    rcases SectionWalker.walk_cases extractStep wasm none with
      ⟨error, herror⟩ | ⟨sections, customs, hframed⟩
    · rw [extractManifest_eq, herror] at h
      cases h
    · refine ⟨sections, customs, hframed, ?_⟩
      rw [hframed.extractManifest] at h
      match hmanifests : manifests customs with
      | [] =>
        rw [hmanifests] at h
        cases h
      | [found] =>
        rw [hmanifests] at h
        cases h
        rfl
      | _ :: _ :: _ =>
        rw [hmanifests] at h
        cases h
  · rintro ⟨sections, customs, hframed, hmanifests⟩
    rw [hframed.extractManifest, hmanifests]

theorem extractManifest_ne_outOfRange (wasm : List UInt8) :
    extractManifest wasm ≠ .error .outOfRange := by
  rw [extractManifest_eq]
  intro h
  rcases Checked.bind_eq_error.mp h with hwalk | ⟨manifest, -, hlast⟩
  · exact SectionWalker.walk_ne_outOfRange extractStep wasm none hwalk
  · cases manifest <;> cases hlast

/-! ## Embedding -/

/-- The section that is appended for `payload`. -/
def manifestSectionOf (payload : List UInt8) : Section :=
  let name := asBytes manifestSection
  let nameLen := encodeLeb128U32 (UInt32.ofNat name.length)
  ⟨customSectionId,
    encodeLeb128U32 (UInt32.ofNat (nameLen.length + name.length + payload.length)),
    nameLen ++ name ++ payload⟩

theorem length_manifestSection : (asBytes manifestSection).length = 17 := by decide +kernel

theorem length_nameLen :
    (encodeLeb128U32 (UInt32.ofNat (asBytes manifestSection).length)).length ≤ 5 :=
  (encodeLeb128U32_encodes_ofNat (by rw [length_manifestSection]; omega)).length_le

theorem manifestSectionOf_reads {payload : List UInt8} (h : payload.length ≤ maxManifestBytes) :
    (manifestSectionOf payload).Reads (some ⟨manifestSection, payload⟩) := by
  have hname := length_manifestSection
  have hnameLen := length_nameLen
  have hmax : payload.length ≤ 256 * 1024 := h
  have hencodes : Encodes 32 (encodeLeb128U32 (UInt32.ofNat (asBytes manifestSection).length))
      (asBytes manifestSection).length :=
    encodeLeb128U32_encodes_ofNat (by omega)
  refine .custom rfl ?_ hencodes rfl
  unfold manifestSectionOf
  rw [List.length_append, List.length_append]
  exact encodeLeb128U32_encodes_ofNat (by omega)

theorem foldlM_embedStep (customs : List CustomSection) :
    customs.foldlM embedStep () =
      if manifests customs = [] then .ok () else .error .duplicateManifest := by
  induction customs with
  | nil => rfl
  | cons custom customs ih =>
    rw [List.foldlM_cons, manifests_cons, embedStep]
    by_cases h : custom.name = manifestSection
    · simp only [h]
      rfl
    · simp only [if_neg h]
      exact ih

theorem u32TryFrom_ok {n : ℕ} (h : n < 2 ^ 32) : u32TryFrom n = .ok (UInt32.ofNat n) := if_pos h

theorem embedManifest_eq {wasm payload : List UInt8} (h : payload.length ≤ maxManifestBytes) :
    embedManifest wasm payload =
      (SectionWalker.new wasm >>= fun walker => walker.forSections embedStep ()) >>=
        fun _ => .ok (wasm ++ (manifestSectionOf payload).bytes) := by
  have hname := length_manifestSection
  have hnameLen := length_nameLen
  have hmax : payload.length ≤ 256 * 1024 := h
  have hframe : u32TryFrom (asBytes manifestSection).length =
      .ok (UInt32.ofNat (asBytes manifestSection).length) := u32TryFrom_ok (by omega)
  have hcontent := u32TryFrom_ok (n := (encodeLeb128U32 (UInt32.ofNat
    (asBytes manifestSection).length)).length + (asBytes manifestSection).length +
      payload.length) (by omega)
  unfold embedManifest
  rw [if_neg (not_lt.mpr h), bind_assoc]
  congr 1
  funext walker
  congr 1
  funext _
  simp only [hframe, hcontent, bind, Except.bind, manifestSectionOf, Section.bytes,
    List.append_assoc, List.cons_append, List.nil_append]

theorem WellFramed.embedManifest {wasm payload : List UInt8} {sections : List Section}
    {customs : List CustomSection} (h : WellFramed wasm sections customs)
    (hmax : payload.length ≤ maxManifestBytes) :
    Plugin.embedManifest wasm payload =
      if manifests customs = [] then .ok (wasm ++ (manifestSectionOf payload).bytes)
      else .error (.failed .duplicateManifest) := by
  rw [embedManifest_eq hmax, h.forSections, foldlM_embedStep]
  by_cases hnone : manifests customs = []
  · rw [if_pos hnone, if_pos hnone]
    rfl
  · rw [if_neg hnone, if_neg hnone]
    rfl

theorem embedManifest_ne_outOfRange (wasm payload : List UInt8) :
    embedManifest wasm payload ≠ .error .outOfRange := by
  by_cases h : payload.length ≤ maxManifestBytes
  · rw [embedManifest_eq h]
    intro hstop
    rcases Checked.bind_eq_error.mp hstop with hwalk | ⟨_, _, hlast⟩
    · exact SectionWalker.walk_ne_outOfRange embedStep wasm () hwalk
    · cases hlast
  · rw [embedManifest, if_pos (not_le.mp h)]
    exact nofun

/-- The section that is appended is framed behind those of the module. -/
theorem WellFramed.append_manifest {wasm payload : List UInt8} {sections : List Section}
    {customs : List CustomSection} (h : WellFramed wasm sections customs)
    (hmax : payload.length ≤ maxManifestBytes) :
    WellFramed (wasm ++ (manifestSectionOf payload).bytes)
      (sections ++ [manifestSectionOf payload]) (customs ++ [⟨manifestSection, payload⟩]) := by
  refine ⟨?_, h.frames.append (.custom (manifestSectionOf_reads hmax) .nil)⟩
  rw [h.bytes_eq, List.flatMap_append, List.append_assoc, List.flatMap_singleton]

theorem manifests_append_manifest (customs : List CustomSection) (payload : List UInt8) :
    manifests (customs ++ [⟨manifestSection, payload⟩]) = manifests customs ++ [payload] := by
  simp [manifests]

theorem decodeLeb128U32_encodeLeb128U32_append (value : UInt32) (rest : List UInt8) :
    decodeLeb128U32 (encodeLeb128U32 value ++ rest) =
      some (value, (encodeLeb128U32 value).length) :=
  decodeLeb128U32_eq_some.mpr ⟨_, rest, rfl, encodeLeb128U32_encodes value, rfl⟩

/-- What is read is the number that the bytes read stand for. -/
theorem value_take_decodeLeb128U32 {bytes : List UInt8} {value : UInt32} {n : ℕ}
    (h : decodeLeb128U32 bytes = some (value, n)) :
    n ≤ bytes.length ∧ Leb128.value (bytes.take n) = value.toNat := by
  obtain ⟨encoding, rest, rfl, hencodes, rfl⟩ := decodeLeb128U32_eq_some.mp h
  rw [List.take_left, List.length_append]
  exact ⟨Nat.le_add_right _ _, hencodes.value_eq⟩

theorem decodeLeb128U32_overflow {encoding rest : List UInt8} (hterm : Terminated encoding)
    (hover : 2 ^ 32 ≤ Leb128.value encoding) : decodeLeb128U32 (encoding ++ rest) = none := by
  cases hdecode : decodeLeb128U32 (encoding ++ rest) with
  | none => rfl
  | some decoded =>
    obtain ⟨encoding', rest', hsplit, hencodes, -⟩ := decodeLeb128U32_eq_some.mp hdecode
    rw [hterm.eq_of_append hencodes.terminated hsplit, hencodes.value_eq] at hover
    exact absurd decoded.1.toNat_lt (not_lt.mpr hover)

/-- A manifest within the limit of the format is embedded behind the sections of a module and comes
back out; no walk reads outside the bytes, and only a well framed module with one manifest has its
manifest extracted. -/
theorem manifest_round_trip :
    (∀ wasm sections customs payload, WellFramed wasm sections customs → manifests customs = [] →
      payload.length ≤ maxManifestBytes →
      ∃ out added, embedManifest wasm payload = .ok out ∧ extractManifest out = .ok payload ∧
        out = wasm ++ added.bytes ∧
        WellFramed out (sections ++ [added]) (customs ++ [⟨manifestSection, payload⟩]) ∧
        (∀ again, ∃ error, embedManifest out again = .error (.failed error)) ∧
        ∀ again, again.length ≤ maxManifestBytes →
          embedManifest out again = .error (.failed .duplicateManifest)) ∧
    (∀ (σ : Type) (f : σ → CustomSection → Except SectionError σ) wasm state,
      SectionWalker.new wasm >>= (fun walker => walker.forSections f state) ≠
        .error .outOfRange) ∧
    (∀ wasm, extractManifest wasm ≠ .error .outOfRange) ∧
    (∀ wasm payload, embedManifest wasm payload ≠ .error .outOfRange) ∧
    (∀ wasm payload, extractManifest wasm = .ok payload ↔
      ∃ sections customs, WellFramed wasm sections customs ∧ manifests customs = [payload]) ∧
    (∀ value rest, decodeLeb128U32 (encodeLeb128U32 value ++ rest) =
      some (value, (encodeLeb128U32 value).length)) ∧
    (∀ bytes value n, decodeLeb128U32 bytes = some (value, n) →
      n ≤ bytes.length ∧ Leb128.value (bytes.take n) = value.toNat) ∧
    ∀ encoding rest, Terminated encoding → 2 ^ 32 ≤ Leb128.value encoding →
      decodeLeb128U32 (encoding ++ rest) = none := by
  refine ⟨fun wasm sections customs payload h hnone hmax => ?_, fun σ f wasm state =>
    SectionWalker.walk_ne_outOfRange f wasm state, extractManifest_ne_outOfRange,
    embedManifest_ne_outOfRange, fun wasm payload => extractManifest_eq_ok,
    decodeLeb128U32_encodeLeb128U32_append, fun bytes value n => value_take_decodeLeb128U32,
    fun encoding rest => decodeLeb128U32_overflow⟩
  have hframed := h.append_manifest hmax
  have hone : manifests (customs ++ [⟨manifestSection, payload⟩]) = [payload] := by
    rw [manifests_append_manifest, hnone, List.nil_append]
  have hagain : ∀ again : List UInt8, again.length ≤ maxManifestBytes →
      embedManifest (wasm ++ (manifestSectionOf payload).bytes) again =
        .error (.failed .duplicateManifest) := by
    intro again hsize
    rw [hframed.embedManifest hsize, hone, if_neg (List.cons_ne_nil _ _)]
  refine ⟨_, manifestSectionOf payload, ?_, ?_, rfl, hframed, fun again => ?_, hagain⟩
  · rw [h.embedManifest hmax, if_pos hnone]
  · rw [hframed.extractManifest, hone]
  · by_cases hsize : again.length ≤ maxManifestBytes
    · exact ⟨_, hagain again hsize⟩
    · refine ⟨.manifestPayloadTooLarge again.length maxManifestBytes, ?_⟩
      rw [embedManifest, if_pos (not_le.mp hsize)]

theorem manifest_round_trip_emptyModule :
    ∃ out added, embedManifest emptyModule [7, 9] = .ok out ∧
      extractManifest out = .ok [7, 9] ∧ out = emptyModule ++ added.bytes ∧
      WellFramed out ([] ++ [added]) ([] ++ [⟨manifestSection, [7, 9]⟩]) ∧
      (∀ again, ∃ error, embedManifest out again = .error (.failed error)) ∧
      ∀ again, again.length ≤ maxManifestBytes →
        embedManifest out again = .error (.failed .duplicateManifest) :=
  manifest_round_trip.1 emptyModule [] [] [7, 9] ⟨rfl, .nil⟩ rfl (by decide)

/-- A payload beyond the limit is not embedded. -/
theorem embedManifest_rejects_large :
    WellFramed emptyModule [] [] ∧ manifests [] = [] ∧
      embedManifest emptyModule (List.replicate (maxManifestBytes + 1) 0) =
        .error (.failed (.manifestPayloadTooLarge (maxManifestBytes + 1) maxManifestBytes)) := by
  refine ⟨⟨rfl, .nil⟩, rfl, ?_⟩
  rw [embedManifest, List.length_replicate, if_pos (Nat.lt_succ_self _)]

end ProvenGraphcal.Plugin
