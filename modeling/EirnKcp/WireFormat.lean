import EirnKcp.HandshakeSteps

/-!
# The `MSG0'` wire format

The parser reads seven fields at offsets that the profile fixes. What it
accepts is stated on the bytes at these offsets; the encoder puts the same
fields back in the same order.
-/

set_option autoImplicit false

namespace EirnKcp.WireFormat
open EirnKcp.CheckedCode EirnKcp.ByteCodec EirnKcp.Params EirnKcp.Primitives
open EirnKcp.LatticeZk EirnKcp.Kem EirnKcp.KeyLaws EirnKcp.Zk EirnKcp.ProofCodec
open EirnKcp.LiteProof EirnKcp.StrictProof EirnKcp.Prekey EirnKcp.Handshake
open EirnKcp.HandshakeSteps EirnKcp.IdealSuite

def proofSize (params : EirnParams) : KcpMode → ℕ
  | .lite => params.proofBytes
  | .strict => params.strictProofBytes

def wireSize (params : EirnParams) (mode : KcpMode) : ℕ :=
  1+2*params.pkBytes+4*params.ctBytes+proofSize params mode

def fieldAt (data : Bytes) (offset len : ℕ) : Bytes := (data.drop offset).take len

/-- The seven variable fields of a message. -/
structure WireFields where
  pkA : Bytes
  ekA : Bytes
  ct1 : Bytes
  ct2 : Bytes
  ct3 : Bytes
  ct4 : Bytes
  proof : Bytes

def wireFields (params : EirnParams) (mode : KcpMode) (data : Bytes) : WireFields :=
  let cts := 1+params.pkBytes+params.pkBytes
  { pkA := fieldAt data 1 params.pkBytes
    ekA := fieldAt data (1+params.pkBytes) params.pkBytes
    ct1 := fieldAt data cts params.ctBytes
    ct2 := fieldAt data (cts+params.ctBytes) params.ctBytes
    ct3 := fieldAt data (cts+params.ctBytes+params.ctBytes) params.ctBytes
    ct4 := fieldAt data (cts+params.ctBytes+params.ctBytes+params.ctBytes) params.ctBytes
    proof := fieldAt data
      (cts+params.ctBytes+params.ctBytes+params.ctBytes+params.ctBytes) (proofSize params mode) }

namespace WireFields

def bytes (fields : WireFields) (mode : KcpMode) : Bytes :=
  mode.byte :: (fields.pkA ++ (fields.ekA ++ (fields.ct1 ++ (fields.ct2 ++ (fields.ct3 ++
    (fields.ct4 ++ fields.proof))))))

structure Sized (fields : WireFields) (params : EirnParams) (mode : KcpMode) : Prop where
  pkA : fields.pkA.length = params.pkBytes
  ekA : fields.ekA.length = params.pkBytes
  ct1 : fields.ct1.length = params.ctBytes
  ct2 : fields.ct2.length = params.ctBytes
  ct3 : fields.ct3.length = params.ctBytes
  ct4 : fields.ct4.length = params.ctBytes
  proof : fields.proof.length = proofSize params mode

structure Aligned (f g : WireFields) : Prop where
  pkA : f.pkA.length = g.pkA.length
  ekA : f.ekA.length = g.ekA.length
  ct1 : f.ct1.length = g.ct1.length
  ct2 : f.ct2.length = g.ct2.length
  ct3 : f.ct3.length = g.ct3.length
  ct4 : f.ct4.length = g.ct4.length

theorem Sized.aligned {f g : WireFields} {params : EirnParams} {mode : KcpMode}
    (hf : f.Sized params mode) (hg : g.Sized params mode) : Aligned f g :=
  ⟨hf.pkA.trans hg.pkA.symm, hf.ekA.trans hg.ekA.symm, hf.ct1.trans hg.ct1.symm,
    hf.ct2.trans hg.ct2.symm, hf.ct3.trans hg.ct3.symm, hf.ct4.trans hg.ct4.symm⟩

theorem bytes_injective (f g : WireFields) (mode mode' : KcpMode) (ha : Aligned f g)
    (h : f.bytes mode = g.bytes mode') : f = g ∧ mode = mode' := by
  obtain ⟨hmode, h0⟩ := List.cons.inj h
  obtain ⟨h1, h0⟩ := List.append_inj h0 ha.pkA
  obtain ⟨h2, h0⟩ := List.append_inj h0 ha.ekA
  obtain ⟨h3, h0⟩ := List.append_inj h0 ha.ct1
  obtain ⟨h4, h0⟩ := List.append_inj h0 ha.ct2
  obtain ⟨h5, h0⟩ := List.append_inj h0 ha.ct3
  obtain ⟨h6, h7⟩ := List.append_inj h0 ha.ct4
  constructor
  · cases f
    cases g
    simp only [WireFields.mk.injEq]
    exact ⟨h1, h2, h3, h4, h5, h6, h7⟩
  · cases mode <;> cases mode' <;> first | rfl | cases hmode

theorem bytes_length (fields : WireFields) (params : EirnParams) (mode : KcpMode)
    (h : fields.Sized params mode) : (fields.bytes mode).length = wireSize params mode := by
  simp only [bytes, List.length_cons, List.length_append, h.pkA, h.ekA, h.ct1, h.ct2, h.ct3,
    h.ct4, h.proof, wireSize]
  omega

end WireFields

theorem fieldAt_length (data : Bytes) (offset len : ℕ) (h : offset+len ≤ data.length) :
    (fieldAt data offset len).length = len := by
  rw [fieldAt, List.length_take, List.length_drop]
  omega

theorem fieldAt_append_drop (data : Bytes) (offset len : ℕ) :
    fieldAt data offset len ++ data.drop (offset+len) = data.drop offset := by
  rw [fieldAt, ← List.drop_drop, List.take_append_drop]

theorem wireFields_sized (params : EirnParams) (mode : KcpMode) (data : Bytes)
    (h : data.length = wireSize params mode) :
    (wireFields params mode data).Sized params mode := by
  unfold wireSize at h
  constructor <;> exact fieldAt_length _ _ _ (by omega)

theorem wireFields_bytes (params : EirnParams) (mode : KcpMode) (data : Bytes)
    (hm : data.head? = some mode.byte) (h : data.length = wireSize params mode) :
    (wireFields params mode data).bytes mode = data := by
  have hproof : (wireFields params mode data).proof = data.drop
      (1+params.pkBytes+params.pkBytes+params.ctBytes+params.ctBytes+params.ctBytes+
        params.ctBytes) := by
    apply List.take_of_length_le
    rw [List.length_drop]
    unfold wireSize at h
    omega
  cases data with
  | nil => cases hm
  | cons byte rest =>
    cases hm
    rw [WireFields.bytes, hproof]
    simp only [wireFields, fieldAt_append_drop]
    rfl

theorem wireFields_of_bytes (params : EirnParams) (mode : KcpMode) (fields : WireFields)
    (h : fields.Sized params mode) : wireFields params mode (fields.bytes mode) = fields := by
  have hl := fields.bytes_length params mode h
  exact (WireFields.bytes_injective _ _ mode mode ((wireFields_sized params mode _ hl).aligned h)
    (wireFields_bytes params mode _ rfl hl)).1

theorem proofSize_lt (params : EirnParams) (hs : IsSupportedParams params) (mode : KcpMode) :
    proofSize params mode < 2^16 := by
  have hc := supported_consistent params hs
  cases mode with
  | lite => exact hc.bounded.2.2
  | strict =>
    rw [proofSize, hc.strictProofBytes]
    decide

theorem wireSize_lt (params : EirnParams) (hs : IsSupportedParams params) (mode : KcpMode) :
    wireSize params mode < 2^64 := by
  have hb := (supported_consistent params hs).bounded
  have hp := proofSize_lt params hs mode
  unfold wireSize
  omega

theorem msg0Size_of_lt (params : EirnParams) (mode : KcpMode) (hw : wireSize params mode < 2^64) :
    msg0Size params mode = .ok (wireSize params mode) := by
  have hsize : 1+params.pkBytes*2+params.ctBytes*4+proofSize params mode =
      wireSize params mode := by
    unfold wireSize
    omega
  unfold msg0Size
  rw [usize_ok _ (by omega), ok_bind, usize_ok _ (by omega), ok_bind, usize_ok _ (by omega),
    ok_bind, usize_ok _ (by omega), ok_bind, ← hsize]
  cases mode with
  | lite => exact usize_ok (1+params.pkBytes*2+params.ctBytes*4+proofSize params .lite) (by omega)
  | strict =>
    exact usize_ok (1+params.pkBytes*2+params.ctBytes*4+proofSize params .strict) (by omega)

theorem msg0Size_eq (params : EirnParams) (hs : IsSupportedParams params) (mode : KcpMode) :
    msg0Size params mode = .ok (wireSize params mode) :=
  msg0Size_of_lt params mode (wireSize_lt params hs mode)

example : msg0Size params768 .lite = .ok 14126 := rfl

theorem readDynamicField_eq (data : Bytes) (offset len : ℕ) (h : offset+len ≤ data.length)
    (hb : data.length < 2^64) :
    readDynamicField data offset len = .ok (fieldAt data offset len, offset+len) := by
  rw [readDynamicField, usize_ok _ (by omega), ok_bind, slice_ok _ _ _ (by omega) h,
    Nat.add_sub_cancel_left]
  rfl

theorem readMode_ok_iff (data : Bytes) (mode : KcpMode) :
    Msg0Prime.readMode data = .ok mode ↔ data.head? = some mode.byte := by
  unfold Msg0Prime.readMode
  cases data.head? with
  | none => simp [err]
  | some byte =>
    rw [Option.some.injEq]
    dsimp only
    cases mode with
    | lite => split_ifs with h0 h1 <;> simp_all [err, KcpMode.byte]
    | strict => split_ifs with h0 h1 <;> simp_all [err, KcpMode.byte]

/-- Parsing the fields, in the order of the source. -/
def parseFields (L : Suite) (params : EirnParams) (mode : KcpMode) (fields : WireFields) :
    Result Msg0Prime := do
  let pkA ← PublicKey.fromBytes L fields.pkA params
  let ekA ← PublicKey.fromBytes L fields.ekA params
  let ct1 ← Ciphertext.fromBytes L fields.ct1 params
  let ct2 ← Ciphertext.fromBytes L fields.ct2 params
  let ct3 ← Ciphertext.fromBytes L fields.ct3 params
  let ct4 ← Ciphertext.fromBytes L fields.ct4 params
  match mode with
  | .lite =>
    let proof ← KcpLiteProof.fromBytesWithParams L fields.proof params
    pure ⟨pkA, ekA, ct1, ct2, ct3, ct4, mode, proof, none⟩
  | .strict =>
    let proof ← KcpStrictProof.fromBytes fields.proof
    pure ⟨pkA, ekA, ct1, ct2, ct3, ct4, mode, emptyLiteProof params, some proof⟩

theorem parse_of_lt (L : Suite) (params : EirnParams) (mode : KcpMode)
    (hw : wireSize params mode < 2^64) (data : Bytes) (hm : data.head? = some mode.byte)
    (hl : data.length = wireSize params mode) :
    Msg0Prime.fromBytesWithParams L data params =
      parseFields L params mode (wireFields params mode data) := by
  have hb : data.length < 2^64 := hl ▸ hw
  have hsize := hl
  unfold wireSize at hsize
  have h1 := readDynamicField_eq data 1 params.pkBytes (by omega) hb
  have h2 := readDynamicField_eq data _ params.pkBytes
    (show 1+params.pkBytes+_ ≤ _ by omega) hb
  have h3 := readDynamicField_eq data _ params.ctBytes
    (show 1+params.pkBytes+params.pkBytes+_ ≤ _ by omega) hb
  have h4 := readDynamicField_eq data _ params.ctBytes
    (show 1+params.pkBytes+params.pkBytes+params.ctBytes+_ ≤ _ by omega) hb
  have h5 := readDynamicField_eq data _ params.ctBytes
    (show 1+params.pkBytes+params.pkBytes+params.ctBytes+params.ctBytes+_ ≤ _ by omega) hb
  have h6 := readDynamicField_eq data _ params.ctBytes
    (show 1+params.pkBytes+params.pkBytes+params.ctBytes+params.ctBytes+params.ctBytes+_ ≤ _ by
      omega) hb
  have h7 := readDynamicField_eq data _ (proofSize params mode)
    (show 1+params.pkBytes+params.pkBytes+params.ctBytes+params.ctBytes+params.ctBytes+
      params.ctBytes+_ ≤ _ by omega) hb
  unfold Msg0Prime.fromBytesWithParams
  rw [(readMode_ok_iff data mode).mpr hm, ok_bind, msg0Size_of_lt params mode hw, ok_bind,
    if_neg (not_not_intro hl)]
  simp only [h1, h2, h3, h4, h5, h6, ok_bind, parseFields, wireFields]
  cases mode with
  | lite =>
    simp only [proofSize] at h7
    simp only [h7, ok_bind, proofSize]
  | strict =>
    simp only [proofSize] at h7
    simp only [h7, ok_bind, proofSize]

theorem parse_eq (L : Suite) (params : EirnParams) (hs : IsSupportedParams params)
    (mode : KcpMode) (data : Bytes) (hm : data.head? = some mode.byte)
    (hl : data.length = wireSize params mode) :
    Msg0Prime.fromBytesWithParams L data params =
      parseFields L params mode (wireFields params mode data) :=
  parse_of_lt L params mode (wireSize_lt params hs mode) data hm hl

/-- The proof of the mode is well formed, the other one is the filler. -/
def ProofWellFormed (L : Suite) (params : EirnParams) :
    KcpMode → KcpLiteProof → Option KcpStrictProof → Prop
  | .lite, lite, strict => signatureParses L params lite.response = true ∧ strict = none
  | .strict, lite, strict => lite = emptyLiteProof params ∧
      ∃ proof, strict = some proof ∧ StrictProofValid proof

structure WellFormedMessage (L : Suite) (params : EirnParams) (msg : Msg0Prime) : Prop where
  pkA : msg.pkA.params = params ∧ ValidKeyBytes L params msg.pkA.data
  ekA : msg.ekA.params = params ∧ ValidKeyBytes L params msg.ekA.data
  ct1 : msg.ct1.params = params ∧ msg.ct1.data.length = params.ctBytes
  ct2 : msg.ct2.params = params ∧ msg.ct2.data.length = params.ctBytes
  ct3 : msg.ct3.params = params ∧ msg.ct3.data.length = params.ctBytes
  ct4 : msg.ct4.params = params ∧ msg.ct4.data.length = params.ctBytes
  proof : ProofWellFormed L params msg.kcpMode msg.kcpLiteProof msg.kcpStrictProof

def messageFields (msg : Msg0Prime) (proof : Bytes) : WireFields :=
  ⟨msg.pkA.data, msg.ekA.data, msg.ct1.data, msg.ct2.data, msg.ct3.data, msg.ct4.data, proof⟩

theorem toBytes_ok (msg : Msg0Prime) (data : Bytes) (h : msg.toBytes = .ok data) :
    ∃ proof, msg.proofField = .ok proof ∧ data = (messageFields msg proof).bytes msg.kcpMode := by
  simp only [Msg0Prime.toBytes, bind_ok_iff, pure_ok, Except.ok.injEq] at h
  obtain ⟨_, _, proof, hp, rfl⟩ := h
  exact ⟨proof, hp, rfl⟩

section Messages
variable (L : Suite) (params : EirnParams)

theorem WellFormedMessage.proofField (hs : IsSupportedParams params) (msg : Msg0Prime)
    (h : WellFormedMessage L params msg) :
    ∃ proof, msg.proofField = .ok proof ∧ proof.length = proofSize params msg.kcpMode := by
  have hc := supported_consistent params hs
  have hproof := h.proof
  unfold Msg0Prime.proofField
  cases hm : msg.kcpMode with
  | lite =>
    rw [hm] at hproof
    obtain ⟨hsig, _⟩ := hproof
    refine ⟨_, rfl, ?_⟩
    rw [liteProof_toBytes_length, signatureParses_length L params _ hs hsig, proofSize,
      hc.proofBytes]
  | strict =>
    rw [hm] at hproof
    obtain ⟨_, proof, hsome, _⟩ := hproof
    rw [hsome]
    exact ⟨_, rfl, proof.toBytes.2.trans hc.strictProofBytes.symm⟩

theorem WellFormedMessage.sized (msg : Msg0Prime) (h : WellFormedMessage L params msg)
    (proof : Bytes) (hp : proof.length = proofSize params msg.kcpMode) :
    (messageFields msg proof).Sized params msg.kcpMode :=
  ⟨h.pkA.2.length, h.ekA.2.length, h.ct1.2, h.ct2.2, h.ct3.2, h.ct4.2, hp⟩

theorem WellFormedMessage.toBytes_eq (hs : IsSupportedParams params) (msg : Msg0Prime)
    (h : WellFormedMessage L params msg) (proof : Bytes) (hp : msg.proofField = .ok proof) :
    msg.toBytes = .ok ((messageFields msg proof).bytes msg.kcpMode) ∧
      msg.totalSize = .ok (wireSize params msg.kcpMode) := by
  have ht : msg.totalSize = .ok (wireSize params msg.kcpMode) := by
    rw [Msg0Prime.totalSize, h.pkA.1, msg0Size_eq params hs]
  refine ⟨?_, ht⟩
  rw [Msg0Prime.toBytes, ht, ok_bind, hp, ok_bind]
  rfl

theorem parseFields_wellFormed (hs : IsSupportedParams params) (mode : KcpMode)
    (fields : WireFields) (msg : Msg0Prime)
    (h : parseFields L params mode fields = .ok msg) :
    WellFormedMessage L params msg ∧ msg.kcpMode = mode ∧
      ∃ proof, msg.proofField = .ok proof ∧ fields = messageFields msg proof := by
  unfold parseFields at h
  simp only [bind_ok_iff, fromBytes_ok_iff, ciphertext_fromBytes_ok_iff] at h
  obtain ⟨_, ⟨ha, rfl⟩, _, ⟨he, rfl⟩, _, ⟨_, h1, rfl⟩, _, ⟨_, h2, rfl⟩, _, ⟨_, h3, rfl⟩,
    _, ⟨_, h4, rfl⟩, h⟩ := h
  cases mode with
  | lite =>
    simp only [bind_ok_iff, liteProof_fromBytes_ok_iff L params hs, pure_ok, Except.ok.injEq] at h
    obtain ⟨proof, ⟨hp, hv⟩, rfl⟩ := h
    refine ⟨⟨⟨rfl, ha⟩, ⟨rfl, he⟩, ⟨rfl, h1⟩, ⟨rfl, h2⟩, ⟨rfl, h3⟩, ⟨rfl, h4⟩, hv, rfl⟩, rfl,
      proof.toBytes, rfl, ?_⟩
    rw [messageFields, ← hp]
  | strict =>
    simp only [bind_ok_iff, strictProof_fromBytes_ok_iff, pure_ok, Except.ok.injEq] at h
    obtain ⟨proof, ⟨hp, hv⟩, rfl⟩ := h
    refine ⟨⟨⟨rfl, ha⟩, ⟨rfl, he⟩, ⟨rfl, h1⟩, ⟨rfl, h2⟩, ⟨rfl, h3⟩, ⟨rfl, h4⟩, rfl, proof, rfl,
      hv⟩, rfl, proof.toBytes.1, rfl, ?_⟩
    rw [messageFields, ← hp]

theorem publicKey_eta (pk : PublicKey) (h : pk.params = params) : pk = ⟨pk.data, params⟩ := by
  cases pk
  cases h
  rfl

theorem ciphertext_eta (ct : Ciphertext) (h : ct.params = params) : ct = ⟨ct.data, params⟩ := by
  cases ct
  cases h
  rfl

theorem parseFields_messageFields (hs : IsSupportedParams params) (msg : Msg0Prime)
    (h : WellFormedMessage L params msg) (proof : Bytes) (hp : msg.proofField = .ok proof) :
    parseFields L params msg.kcpMode (messageFields msg proof) = .ok msg := by
  unfold parseFields
  simp only [bind_ok_iff, fromBytes_ok_iff, ciphertext_fromBytes_ok_iff]
  refine ⟨msg.pkA, ⟨h.pkA.2, publicKey_eta params _ h.pkA.1⟩,
    msg.ekA, ⟨h.ekA.2, publicKey_eta params _ h.ekA.1⟩,
    msg.ct1, ⟨hs, h.ct1.2, ciphertext_eta params _ h.ct1.1⟩,
    msg.ct2, ⟨hs, h.ct2.2, ciphertext_eta params _ h.ct2.1⟩,
    msg.ct3, ⟨hs, h.ct3.2, ciphertext_eta params _ h.ct3.1⟩,
    msg.ct4, ⟨hs, h.ct4.2, ciphertext_eta params _ h.ct4.1⟩, ?_⟩
  have hproof := h.proof
  unfold Msg0Prime.proofField at hp
  cases hm : msg.kcpMode with
  | lite =>
    simp only [hm] at hproof hp
    cases hp
    obtain ⟨hsig, hnone⟩ := hproof
    simp only [bind_ok_iff, liteProof_fromBytes_ok_iff L params hs]
    refine ⟨msg.kcpLiteProof, ⟨rfl, hsig⟩, ?_⟩
    rw [← hnone, ← hm]
    rfl
  | strict =>
    simp only [hm] at hproof hp
    obtain ⟨hlite, strict, hsome, hv⟩ := hproof
    rw [hsome] at hp
    cases hp
    simp only [bind_ok_iff, strictProof_fromBytes_ok_iff]
    refine ⟨strict, ⟨rfl, hv⟩, ?_⟩
    rw [← hsome, ← hlite, ← hm]
    rfl

/-- The parser accepts exactly the encodings of well-formed messages, so no two
byte strings decode to one message. -/
theorem parse_ok_iff (hs : IsSupportedParams params) (data : Bytes) (msg : Msg0Prime) :
    Msg0Prime.fromBytesWithParams L data params = .ok msg ↔
      WellFormedMessage L params msg ∧ msg.toBytes = .ok data := by
  constructor
  · intro h
    have hread := h
    rw [Msg0Prime.fromBytesWithParams, bind_ok_iff] at hread
    obtain ⟨mode, hmode, hrest⟩ := hread
    have hm := (readMode_ok_iff data mode).mp hmode
    rw [msg0Size_eq params hs, ok_bind] at hrest
    by_cases hl : data.length = wireSize params mode
    · rw [parse_eq L params hs mode data hm hl] at h
      obtain ⟨hw, hmsg, proof, hp, hf⟩ := parseFields_wellFormed L params hs mode _ msg h
      refine ⟨hw, ?_⟩
      rw [(hw.toBytes_eq L params hs msg proof hp).1, hmsg, ← hf,
        wireFields_bytes params mode data hm hl]
    · rw [if_pos hl] at hrest
      cases hrest
  · rintro ⟨hw, hbytes⟩
    obtain ⟨proof, hp, hpl⟩ := hw.proofField L params hs
    have hsized := hw.sized L params msg proof hpl
    rw [(hw.toBytes_eq L params hs msg proof hp).1] at hbytes
    cases hbytes
    rw [parse_eq L params hs msg.kcpMode _ rfl (WireFields.bytes_length _ params _ hsized),
      wireFields_of_bytes params _ _ hsized]
    exact parseFields_messageFields L params hs msg hw proof hp

def KeyFieldValid (field : Bytes) : Prop :=
  kemPartValid L params (field.take params.kemPkBytes) = true ∧
    ∀ i < 32, (wordAt (field.drop (params.kemPkBytes+params.sigPkBytes)) i).toNat < 3329

def ProofFieldValid : KcpMode → Bytes → Prop
  | .lite, field => signatureParses L params ((field.drop 32).take params.sigBytes) = true
  | .strict, field =>
    (∀ i < 32, (wordAt (field.take 64) i).toNat < 3329) ∧
      ∀ i < 64, (wordAt ((field.drop 64).take 128) i).toInt16.toInt.natAbs ≤ 16095

def WireValid (data : Bytes) : Prop :=
  ∃ mode : KcpMode, data.head? = some mode.byte ∧ data.length = wireSize params mode ∧
    KeyFieldValid L params (wireFields params mode data).pkA ∧
    KeyFieldValid L params (wireFields params mode data).ekA ∧
    ProofFieldValid L params mode (wireFields params mode data).proof

theorem validKeyBytes_iff (hs : IsSupportedParams params) (field : Bytes)
    (hl : field.length = params.pkBytes) :
    ValidKeyBytes L params field ↔ KeyFieldValid L params field :=
  ⟨fun h => ⟨h.kemPart, h.statement⟩, fun h => ⟨hs, hl, h.1, h.2⟩⟩

theorem parseFields_isOk_iff (hs : IsSupportedParams params) (mode : KcpMode)
    (fields : WireFields) (h : fields.Sized params mode) :
    (∃ msg, parseFields L params mode fields = .ok msg) ↔
      KeyFieldValid L params fields.pkA ∧ KeyFieldValid L params fields.ekA ∧
        ProofFieldValid L params mode fields.proof := by
  have hc := supported_consistent params hs
  have hpl := h.proof
  unfold parseFields
  simp only [bind_ok_iff, fromBytes_ok_iff, ciphertext_fromBytes_ok_iff,
    validKeyBytes_iff L params hs _ h.pkA, validKeyBytes_iff L params hs _ h.ekA]
  cases mode with
  | lite =>
    rw [ProofFieldValid, ← liteProof_decodes_iff L params hs _ hpl]
    simp only [bind_ok_iff]
    constructor
    · rintro ⟨_, _, ⟨ha, _⟩, _, ⟨he, _⟩, _, _, _, _, _, _, _, _, proof, hp, _⟩
      exact ⟨ha, he, proof, hp⟩
    · rintro ⟨ha, he, proof, hp⟩
      exact ⟨_, _, ⟨ha, rfl⟩, _, ⟨he, rfl⟩, _, ⟨hs, h.ct1, rfl⟩, _, ⟨hs, h.ct2, rfl⟩,
        _, ⟨hs, h.ct3, rfl⟩, _, ⟨hs, h.ct4, rfl⟩, proof, hp, rfl⟩
  | strict =>
    have hd := strictProof_decodes_iff fields.proof (hpl.trans hc.strictProofBytes)
    rw [ProofFieldValid]
    simp only [bind_ok_iff]
    constructor
    · rintro ⟨_, _, ⟨ha, _⟩, _, ⟨he, _⟩, _, _, _, _, _, _, _, _, proof, hp, _⟩
      exact ⟨ha, he, hd.mp ⟨proof, hp⟩⟩
    · rintro ⟨ha, he, hv⟩
      obtain ⟨proof, hp⟩ := hd.mpr hv
      exact ⟨_, _, ⟨ha, rfl⟩, _, ⟨he, rfl⟩, _, ⟨hs, h.ct1, rfl⟩, _, ⟨hs, h.ct2, rfl⟩,
        _, ⟨hs, h.ct3, rfl⟩, _, ⟨hs, h.ct4, rfl⟩, proof, hp, rfl⟩

theorem parse_isOk_iff (hs : IsSupportedParams params) (data : Bytes) :
    (∃ msg, Msg0Prime.fromBytesWithParams L data params = .ok msg) ↔
      WireValid L params data := by
  constructor
  · rintro ⟨msg, h⟩
    obtain ⟨hw, hbytes⟩ := (parse_ok_iff L params hs data msg).mp h
    obtain ⟨proof, hp, hpl⟩ := hw.proofField L params hs
    have hsized := hw.sized L params msg proof hpl
    rw [(hw.toBytes_eq L params hs msg proof hp).1] at hbytes
    cases hbytes
    have hl := WireFields.bytes_length _ params _ hsized
    refine ⟨msg.kcpMode, rfl, hl, ?_⟩
    rw [← parseFields_isOk_iff L params hs _ _ (wireFields_sized params _ _ hl)]
    rw [parse_eq L params hs msg.kcpMode _ rfl hl] at h
    exact ⟨msg, h⟩
  · rintro ⟨mode, hm, hl, hfields⟩
    rw [parse_eq L params hs mode data hm hl]
    exact (parseFields_isOk_iff L params hs mode _ (wireFields_sized params mode data hl)).mpr
      hfields

theorem parse_reencodes (hs : IsSupportedParams params) (data : Bytes) (msg : Msg0Prime)
    (h : Msg0Prime.fromBytesWithParams L data params = .ok msg) :
    msg.toBytes = .ok data ∧ msg.totalSize = .ok data.length ∧ msg.pkA.params = params := by
  obtain ⟨hw, hbytes⟩ := (parse_ok_iff L params hs data msg).mp h
  obtain ⟨proof, hp, hpl⟩ := hw.proofField L params hs
  obtain ⟨heq, ht⟩ := hw.toBytes_eq L params hs msg proof hp
  refine ⟨hbytes, ?_, hw.pkA.1⟩
  rw [hbytes] at heq
  rw [ht, Except.ok.inj heq, WireFields.bytes_length _ params _ (hw.sized L params msg proof hpl)]

theorem wellFormed_round_trip (hs : IsSupportedParams params) (msg : Msg0Prime)
    (h : WellFormedMessage L params msg) :
    ∃ data, msg.toBytes = .ok data ∧ msg.totalSize = .ok data.length ∧
      Msg0Prime.fromBytesWithParams L data params = .ok msg := by
  obtain ⟨proof, hp, _⟩ := h.proofField L params hs
  have hbytes := (h.toBytes_eq L params hs msg proof hp).1
  have hparse := (parse_ok_iff L params hs _ msg).mpr ⟨h, hbytes⟩
  exact ⟨_, hbytes, (parse_reencodes L params hs _ msg hparse).2.1, hparse⟩

theorem WellFormedMessage.constructed (hs : IsSupportedParams params) (msg : Msg0Prime)
    (h : WellFormedMessage L params msg) : Constructed msg ∧ OfProfile params msg := by
  refine ⟨⟨⟨?_, ?_⟩, ⟨?_, ?_⟩, ⟨?_, ?_⟩, ⟨?_, ?_⟩, ⟨?_, ?_⟩, ⟨?_, ?_⟩⟩,
    h.pkA.1, h.ekA.1, h.ct1.1, h.ct2.1, h.ct3.1, h.ct4.1⟩
  · rw [h.pkA.1]; exact hs
  · rw [h.pkA.1, h.pkA.2.length]
  · rw [h.ekA.1]; exact hs
  · rw [h.ekA.1, h.ekA.2.length]
  · rw [h.ct1.1]; exact hs
  · rw [h.ct1.1, h.ct1.2]
  · rw [h.ct2.1]; exact hs
  · rw [h.ct2.1, h.ct2.2]
  · rw [h.ct3.1]; exact hs
  · rw [h.ct3.1, h.ct3.2]
  · rw [h.ct4.1]; exact hs
  · rw [h.ct4.1, h.ct4.2]

end Messages

section SentMessages
variable {L : Suite} {params : EirnParams} {pk : PublicKey} {sk : SecretKey}

theorem matches_generated (g : Generated L params pk sk) (pkA : PublicKey)
    (h : sk.matchesPublicKey pkA = true) : pkA = pk := by
  rw [matchesPublicKey_iff] at h
  rw [publicKey_eta params pk g.params_eq, publicKey_eta params pkA (by rw [← h.1, g.secretParams]),
    ← h.2, g.secretData]

theorem senderProof_valid (g : Generated L params pk sk) (hp : L.SignaturesParse) (ctx : Bytes)
    (mode : KcpMode) (proof : KcpLiteProof × Option KcpStrictProof)
    (h : senderProof L sk pk params ctx mode = .ok proof) :
    ProofWellFormed L params mode proof.1 proof.2 := by
  cases mode with
  | lite =>
    obtain ⟨arms⟩ := supported_arms L params g.supported
    rw [senderProof, liteProve_eq g arms ctx] at h
    cases h
    exact ⟨liteProofOf_valid arms sk ctx hp, rfl⟩
  | strict =>
    obtain ⟨strict, hprove, hvalid, _⟩ := strictProof_honest g ctx
    rw [senderProof, hprove] at h
    cases h
    exact ⟨rfl, strict, rfl, hvalid⟩

theorem sent_wellFormed (g : Generated L params pk sk) (hv : L.KeysValid)
    (hp : L.SignaturesParse) (pkA : PublicKey) (bundleB : PublicPrekeyBundle) (mode : KcpMode)
    (draws : SenderDraws) (msg : Msg0Prime) (k : FixedBytes 32)
    (h : senderHandshakeWithMode L sk pkA bundleB mode draws = .ok (msg, k)) :
    pkA = pk ∧ WellFormedMessage L params msg := by
  obtain ⟨opkB, ekA, eskA, legs, raw, proof, run, rfl, _⟩ :=
    (senderHandshake_ok_iff L sk pkA bundleB mode draws msg k).mp h
  obtain rfl := matches_generated g pkA run.own
  have hb : bundleB.identityPk.params = params := run.params.symm.trans g.params_eq
  have hspk : bundleB.signedPrekeyPk.params = params := run.signedPrekey.trans hb
  have hopk : opkB.params = params := run.oneTime.trans hb
  have hs := g.supported
  have hek := generated_of_keygen L _ _ _ _ run.ephemeral
  rw [hb] at hek
  obtain ⟨w1, p1⟩ := encaps_wellFormed L _ _ _ _ (by rw [hb]; exact hs) run.legs.leg1
  obtain ⟨w2, p2⟩ := encaps_wellFormed L _ _ _ _ (by rw [hspk]; exact hs) run.legs.leg2
  obtain ⟨w3, p3⟩ := encaps_wellFormed L _ _ _ _ (by rw [hopk]; exact hs) run.legs.leg3
  obtain ⟨w4, p4⟩ := encaps_wellFormed L _ _ _ _ (by rw [hspk]; exact hs) run.legs.leg4
  rw [hb] at p1
  rw [hspk] at p2 p4
  rw [hopk] at p3
  have hproof := run.proof
  rw [hb] at hproof
  exact ⟨rfl, ⟨g.params_eq, g.validBytes hv⟩, ⟨hek.params_eq, hek.validBytes hv⟩,
    ⟨p1, by rw [← p1]; exact w1.length⟩, ⟨p2, by rw [← p2]; exact w2.length⟩,
    ⟨p3, by rw [← p3]; exact w3.length⟩, ⟨p4, by rw [← p4]; exact w4.length⟩,
    senderProof_valid g hp _ mode proof hproof⟩

end SentMessages

/-- Acceptance, re-encoding and round trip of the message format. -/
theorem wire_format_exact (L : Suite) (params : EirnParams) (hs : IsSupportedParams params) :
    (∀ data, (∃ msg, Msg0Prime.fromBytesWithParams L data params = .ok msg) ↔
      WireValid L params data) ∧
    (∀ data msg, Msg0Prime.fromBytesWithParams L data params = .ok msg →
      msg.toBytes = .ok data ∧ msg.totalSize = .ok data.length ∧
        Msg0Prime.fromBytesWithParams L data msg.pkA.params = .ok msg) ∧
    (L.KeysValid → L.SignaturesParse →
      ∀ seed pk skA pkA bundleB draws msg k,
        keygenFromSeed L seed params = .ok (pk, skA) →
        senderHandshake L skA pkA bundleB draws = .ok (msg, k) ∨
          senderHandshakeStrict L skA pkA bundleB draws = .ok (msg, k) →
        ∃ data, msg.toBytes = .ok data ∧
          Msg0Prime.fromBytesWithParams L data msg.pkA.params = .ok msg) := by
  refine ⟨parse_isOk_iff L params hs, ?_, ?_⟩
  · intro data msg h
    obtain ⟨hb, ht, hp⟩ := parse_reencodes L params hs data msg h
    exact ⟨hb, ht, by rw [hp, h]⟩
  · intro hv hsig seed pk skA pkA bundleB draws msg k hk hsent
    have g := generated_of_keygen L seed params pk skA hk
    have hw : WellFormedMessage L params msg := by
      rcases hsent with h | h
      · exact (sent_wellFormed g hv hsig pkA bundleB .lite draws msg k h).2
      · exact (sent_wellFormed g hv hsig pkA bundleB .strict draws msg k h).2
    obtain ⟨data, hb, _, hparse⟩ := wellFormed_round_trip L params hs msg hw
    exact ⟨data, hb, by rw [hw.pkA.1, hparse]⟩

theorem wire_format_exact_768 :
    (∀ data, (∃ msg, Msg0Prime.fromBytesWithParams idealSuite data params768 = .ok msg) ↔
      WireValid idealSuite params768 data) ∧
    ∀ seed pk skA pkA bundleB draws msg k,
      keygenFromSeed idealSuite seed params768 = .ok (pk, skA) →
      senderHandshake idealSuite skA pkA bundleB draws = .ok (msg, k) ∨
        senderHandshakeStrict idealSuite skA pkA bundleB draws = .ok (msg, k) →
      ∃ data, msg.toBytes = .ok data ∧
        Msg0Prime.fromBytesWithParams idealSuite data msg.pkA.params = .ok msg :=
  ⟨(wire_format_exact idealSuite params768 supported768).1,
    (wire_format_exact idealSuite params768 supported768).2.2 idealSuite_lawful.keysValid
      idealSuite_lawful.signaturesParse⟩

end EirnKcp.WireFormat
