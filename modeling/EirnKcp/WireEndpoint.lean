import EirnKcp.HonestHandshake
import EirnKcp.ReceiverDispenser

/-!
# What a receiver answers to bytes

The parser stops at the first fault in a fixed order, and every fault has its
own error. Bytes that parse go to the handshake. Over a run each answer is
fixed by the bytes and by how many authentic messages came before.
-/

set_option autoImplicit false

namespace EirnKcp.WireEndpoint
open EirnKcp.CheckedCode EirnKcp.ByteCodec EirnKcp.Params EirnKcp.Primitives EirnKcp.LatticeZk
open EirnKcp.Kem EirnKcp.KeyLaws EirnKcp.Zk EirnKcp.LiteProof EirnKcp.StrictProof
open EirnKcp.ProofCodec EirnKcp.Prekey EirnKcp.Handshake EirnKcp.HandshakeSteps EirnKcp.WireFormat
open EirnKcp.ReceiverState EirnKcp.HonestHandshake EirnKcp.CallRuns EirnKcp.Dispenser
open EirnKcp.ReceiverDispenser EirnKcp.IdealSuite

section Fields
variable (L : Suite) {params : EirnParams}

theorem key_cases (hs : IsSupportedParams params) (field : Bytes)
    (hl : field.length = params.pkBytes) :
    (KeyFieldValid L params field ∧ PublicKey.fromBytes L field params = .ok ⟨field, params⟩) ∨
      (¬ KeyFieldValid L params field ∧
        PublicKey.fromBytes L field params = err .authenticationFailed) := by
  obtain ⟨arms⟩ := supported_arms L params hs
  have hpk := (supported_consistent params hs).pkBytes
  by_cases hv : KeyFieldValid L params field
  · exact Or.inl ⟨hv, (fromBytes_ok_iff L field params _).mpr
      ⟨(validKeyBytes_iff L params hs field hl).mpr hv, rfl⟩⟩
  · refine Or.inr ⟨hv, ?_⟩
    have hlen : (field.take params.kemPkBytes).length = params.kemPkBytes := by
      rw [List.length_take]
      omega
    rw [arms.fromBytes_eq hs hl, parseEncapsulationKeyWith, if_pos (by omega), dif_pos hlen]
    by_cases hkem : arms.kem.newKey ⟨field.take params.kemPkBytes, hlen⟩ = true
    · rw [if_pos hkem, ok_bind, parseStatement_eq hs hl]
      cases ht : decodeStatement (field.drop (params.kemPkBytes+params.sigPkBytes)) with
      | none => rfl
      | some t =>
        have hwords := (decodeStatement_isSome _ (statementBytes_length hs hl)).mp ⟨t, ht⟩
        have hpart : kemPartValid L params (field.take params.kemPkBytes) = true := by
          rw [arms.kemPartValid_eq, newKeyOn, dif_pos hlen, hkem]
        exact absurd ⟨hpart, hwords⟩ hv
    · rw [if_neg hkem]
      rfl

theorem ciphertext_parsed (hs : IsSupportedParams params) (field : Bytes)
    (hl : field.length = params.ctBytes) :
    Ciphertext.fromBytes L field params = .ok ⟨field, params⟩ :=
  (ciphertext_fromBytes_ok_iff L field params _).mpr ⟨hs, hl, rfl⟩

/-- A signature that does not parse is reported as one of a wrong length, with
the length it has. -/
theorem liteProof_refused (hs : IsSupportedParams params) (field : Bytes)
    (hl : field.length = params.proofBytes) (hv : ¬ ProofFieldValid L params .lite field) :
    KcpLiteProof.fromBytesWithParams L field params =
      err (.invalidProofLength params.sigBytes params.sigBytes) := by
  have hp := (supported_consistent params hs).proofBytes
  obtain ⟨a, b, c, rfl, ha, hb, hc⟩ := split_three field 32 params.sigBytes 32 (by omega)
  have hrun := liteProof_fromBytes_toBytes L params hs ⟨⟨a, ha⟩, b, ⟨c, hc⟩⟩ hb
  simp only [KcpLiteProof.toBytes] at hrun
  rw [hrun]
  rw [ProofFieldValid, List.drop_left' ha, List.take_left' hb] at hv
  obtain ⟨arms⟩ := supported_arms L params hs
  rw [arms.signatureParses_eq, parsesOn, dif_pos hb] at hv
  rw [arms.parseSignature_eq, parseSignatureWith, dif_pos hb, if_neg hv, hb]
  rfl

theorem strictProof_refused (hs : IsSupportedParams params) (field : Bytes)
    (hl : field.length = params.strictProofBytes) (hv : ¬ ProofFieldValid L params .strict field) :
    KcpStrictProof.fromBytes field = err .authenticationFailed := by
  have hl' : field.length = strictProofBytes :=
    hl.trans (supported_consistent params hs).strictProofBytes
  have hd := strictProof_decodes_iff field hl'
  obtain ⟨proof, rfl⟩ := exists_strictProof field hl'
  obtain ⟨hok, herr⟩ := strictProof_fromBytes_toBytes proof
  apply herr
  intro hvalid
  exact hv (hd.mp ⟨proof, hok hvalid⟩)

def proofError (params : EirnParams) : KcpMode → EirnError
  | .lite => .invalidProofLength params.sigBytes params.sigBytes
  | .strict => .authenticationFailed

theorem parseFields_cases (hs : IsSupportedParams params) (mode : KcpMode) (fields : WireFields)
    (h : fields.Sized params mode) :
    ((¬ KeyFieldValid L params fields.pkA ∨ ¬ KeyFieldValid L params fields.ekA) ∧
      parseFields L params mode fields = err .authenticationFailed) ∨
    (KeyFieldValid L params fields.pkA ∧ KeyFieldValid L params fields.ekA ∧
      ¬ ProofFieldValid L params mode fields.proof ∧
      parseFields L params mode fields = err (proofError params mode)) ∨
    (KeyFieldValid L params fields.pkA ∧ KeyFieldValid L params fields.ekA ∧
      ProofFieldValid L params mode fields.proof ∧
      ∃ msg, parseFields L params mode fields = .ok msg) := by
  rcases key_cases L hs fields.pkA h.pkA with ⟨hA, hpkA⟩ | ⟨hA, hpkA⟩
  · rcases key_cases L hs fields.ekA h.ekA with ⟨hE, hekA⟩ | ⟨hE, hekA⟩
    · by_cases hp : ProofFieldValid L params mode fields.proof
      · exact Or.inr (Or.inr ⟨hA, hE, hp,
          (parseFields_isOk_iff L params hs mode fields h).mpr ⟨hA, hE, hp⟩⟩)
      · refine Or.inr (Or.inl ⟨hA, hE, hp, ?_⟩)
        unfold parseFields
        simp only [hpkA, hekA, ciphertext_parsed L hs _ h.ct1, ciphertext_parsed L hs _ h.ct2,
          ciphertext_parsed L hs _ h.ct3, ciphertext_parsed L hs _ h.ct4, ok_bind]
        cases mode with
        | lite => exact congrArg (· >>= _) (liteProof_refused L hs _ h.proof hp)
        | strict => exact congrArg (· >>= _) (strictProof_refused L hs _ h.proof hp)
    · refine Or.inl ⟨Or.inr hE, ?_⟩
      unfold parseFields
      rw [hpkA, ok_bind, hekA]
      rfl
  · refine Or.inl ⟨Or.inl hA, ?_⟩
    unfold parseFields
    rw [hpkA]
    rfl

end Fields

/-- The answers of the parser, each with the faults it stands for. -/
inductive ParseOutcome (L : Suite) (params : EirnParams) (data : Bytes) :
    Result Msg0Prime → Prop where
  | empty (h : data = []) : ParseOutcome L params data (err (.invalidMessageLength 1 0))
  | unknownMode (byte : UInt8) (hb : data.head? = some byte)
    (h : ∀ mode : KcpMode, byte ≠ mode.byte) :
    ParseOutcome L params data (err .strictModeUnavailable)
  | wrongLength (mode : KcpMode) (hm : data.head? = some mode.byte)
    (hl : data.length ≠ wireSize params mode) :
    ParseOutcome L params data (err (.invalidMessageLength (wireSize params mode) data.length))
  | invalidKey (mode : KcpMode) (hm : data.head? = some mode.byte)
    (hl : data.length = wireSize params mode)
    (h : ¬ KeyFieldValid L params (wireFields params mode data).pkA ∨
      ¬ KeyFieldValid L params (wireFields params mode data).ekA) :
    ParseOutcome L params data (err .authenticationFailed)
  | invalidProof (mode : KcpMode) (hm : data.head? = some mode.byte)
    (hl : data.length = wireSize params mode)
    (hA : KeyFieldValid L params (wireFields params mode data).pkA)
    (hE : KeyFieldValid L params (wireFields params mode data).ekA)
    (h : ¬ ProofFieldValid L params mode (wireFields params mode data).proof) :
    ParseOutcome L params data (err (proofError params mode))
  | message (msg : Msg0Prime) (hw : WellFormedMessage L params msg)
    (h : msg.toBytes = .ok data) : ParseOutcome L params data (.ok msg)

section Parser
variable (L : Suite) {params : EirnParams}

theorem readMode_of_byte (mode : KcpMode) {data : Bytes} (hm : data.head? = some mode.byte) :
    Msg0Prime.readMode data = .ok mode := (readMode_ok_iff data mode).mpr hm

theorem parse_wrongLength (hs : IsSupportedParams params) (mode : KcpMode) (data : Bytes)
    (hm : data.head? = some mode.byte) (hl : data.length ≠ wireSize params mode) :
    Msg0Prime.fromBytesWithParams L data params =
      err (.invalidMessageLength (wireSize params mode) data.length) := by
  rw [Msg0Prime.fromBytesWithParams, readMode_of_byte mode hm, ok_bind, msg0Size_eq params hs,
    ok_bind, if_pos hl]

theorem parse_unknownMode (data : Bytes) (byte : UInt8) (hb : data.head? = some byte)
    (h : ∀ mode : KcpMode, byte ≠ mode.byte) :
    Msg0Prime.fromBytesWithParams L data params = err .strictModeUnavailable := by
  rw [Msg0Prime.fromBytesWithParams, Msg0Prime.readMode, hb]
  simp only [if_neg (h .lite), if_neg (h .strict)]
  rfl

theorem parse_outcome (hs : IsSupportedParams params) (data : Bytes) :
    ParseOutcome L params data (Msg0Prime.fromBytesWithParams L data params) := by
  cases hb : data.head? with
  | none =>
    obtain rfl := List.head?_eq_none_iff.mp hb
    exact .empty rfl
  | some byte =>
    by_cases hmode : ∃ mode : KcpMode, byte = mode.byte
    · obtain ⟨mode, rfl⟩ := hmode
      by_cases hl : data.length = wireSize params mode
      · have hsized := wireFields_sized params mode data hl
        have hparse := parse_eq L params hs mode data hb hl
        rcases parseFields_cases L hs mode _ hsized with ⟨hk, hr⟩ | ⟨hA, hE, hp, hr⟩ |
          ⟨hA, hE, hp, msg, hr⟩
        · rw [hparse, hr]
          exact .invalidKey mode hb hl hk
        · rw [hparse, hr]
          exact .invalidProof mode hb hl hA hE hp
        · rw [hr] at hparse
          rw [hparse]
          obtain ⟨hw, hbytes⟩ := (parse_ok_iff L params hs data msg).mp hparse
          exact .message msg hw hbytes
      · rw [parse_wrongLength L hs mode data hb hl]
        exact .wrongLength mode hb hl
    · have hne : ∀ mode : KcpMode, byte ≠ mode.byte := fun mode h => hmode ⟨mode, h⟩
      rw [parse_unknownMode L data byte hb hne]
      exact .unknownMode byte hb hne

theorem ParseOutcome.unique (hs : IsSupportedParams params) {data : Bytes} {r : Result Msg0Prime}
    (h : ParseOutcome L params data r) : Msg0Prime.fromBytesWithParams L data params = r := by
  cases h with
  | empty h =>
    subst h
    rfl
  | unknownMode byte hb h => exact parse_unknownMode L data byte hb h
  | wrongLength mode hm hl => exact parse_wrongLength L hs mode data hm hl
  | invalidKey mode hm hl h =>
    rw [parse_eq L params hs mode data hm hl]
    rcases parseFields_cases L hs mode _ (wireFields_sized params mode data hl) with
      ⟨_, hr⟩ | ⟨hA, hE, _⟩ | ⟨hA, hE, _⟩
    · exact hr
    · tauto
    · tauto
  | invalidProof mode hm hl hA hE h =>
    rw [parse_eq L params hs mode data hm hl]
    rcases parseFields_cases L hs mode _ (wireFields_sized params mode data hl) with
      ⟨_, _⟩ | ⟨_, _, _, hr⟩ | ⟨_, _, hp, _⟩
    · tauto
    · exact hr
    · exact absurd hp h
  | message msg hw h => exact (parse_ok_iff L params hs data msg).mpr ⟨hw, h⟩

end Parser

/-- Every byte string gets the answer of its first fault: no bytes, an unknown
mode, a wrong length, an invalid key field, an invalid proof field; without a
fault it is the encoding of the message returned. -/
theorem parse_verdict (L : Suite) (params : EirnParams) (hs : IsSupportedParams params)
    (data : Bytes) (r : Result Msg0Prime) :
    Msg0Prime.fromBytesWithParams L data params = r ↔ ParseOutcome L params data r := by
  constructor
  · rintro rfl
    exact parse_outcome L hs data
  · intro h
    exact h.unique L hs

theorem parse_verdict_unknown_mode :
    Msg0Prime.fromBytesWithParams idealSuite [2] params768 = err .strictModeUnavailable := by
  apply (parse_verdict idealSuite params768 supported768 [2] _).mpr
  refine .unknownMode 2 rfl ?_
  intro mode
  cases mode <;> decide

/-- Bytes go through the parser to the handshake, as its documentation asks. -/
def receiveBytes (L : Suite) (data : Bytes) (b : PrekeyBundle) :
    Result (FixedBytes 32) × PrekeyBundle :=
  match Msg0Prime.fromBytesWithParams L data b.identityPk.params with
  | .error e => (.error e, b)
  | .ok msg => receiverHandshake L b msg

def bytesBehaviour (L : Suite) (b₀ : PrekeyBundle) (data : Bytes) :
    Behaviour (Result (FixedBytes 32)) (PublicKey × SecretKey) :=
  match Msg0Prime.fromBytesWithParams L data b₀.identityPk.params with
  | .error e => .look (fun _ => .error e)
  | .ok msg =>
    match receiverChecks L b₀ msg with
    | .error e => .look (fun _ => .error e)
    | .ok () => .take (fun pair => receiverKey L b₀ pair.2 msg) (err .noOneTimePrekeys)

/-- The answers to bytes when the pairs `left` are left. -/
inductive BytesOutcome (L : Suite) (b₀ : PrekeyBundle) (left : List (PublicKey × SecretKey))
    (data : Bytes) : Result (FixedBytes 32) → Prop where
  | unparsed (e : EirnError) (h : ParseOutcome L b₀.identityPk.params data (err e)) :
    BytesOutcome L b₀ left data (err e)
  | unauthentic (msg : Msg0Prime) (h : ParseOutcome L b₀.identityPk.params data (.ok msg))
    (hp : ¬ ProofAccepted L b₀ msg) : BytesOutcome L b₀ left data (err .authenticationFailed)
  | exhausted (msg : Msg0Prime) (h : ParseOutcome L b₀.identityPk.params data (.ok msg))
    (hp : ProofAccepted L b₀ msg) (hl : left = []) :
    BytesOutcome L b₀ left data (err .noOneTimePrekeys)
  | accepted (msg : Msg0Prime) (h : ParseOutcome L b₀.identityPk.params data (.ok msg))
    (hp : ProofAccepted L b₀ msg) (pk : PublicKey) (sk : SecretKey)
    (rest : List (PublicKey × SecretKey)) (hl : left = (pk, sk)::rest) (k : FixedBytes 32)
    (hk : receiverKey L b₀ sk msg = .ok k) : BytesOutcome L b₀ left data (.ok k)

section Endpoint
variable {L : Suite} {params : EirnParams} {b₀ b : PrekeyBundle}

theorem bytes_simulated (h : RunInv L params b₀ b) (data : Bytes) :
    RunInv L params b₀ (receiveBytes L data b).2 ∧
      (receiveBytes L data b).1 = (bytesBehaviour L b₀ data).reply (pairs b) ∧
      pairs (receiveBytes L data b).2 = (bytesBehaviour L b₀ data).rest (pairs b) := by
  have hs : IsSupportedParams b₀.identityPk.params := by
    rw [← h.keys.identityPk, h.bundle.identity.generated.params_eq]
    exact h.bundle.identity.generated.supported
  rw [receiveBytes, bytesBehaviour, h.keys.identityPk]
  cases hparse : Msg0Prime.fromBytesWithParams L data b₀.identityPk.params with
  | error e => exact ⟨h, rfl, rfl⟩
  | ok msg =>
    obtain ⟨hw, _⟩ := (parse_ok_iff L _ hs data msg).mp hparse
    obtain ⟨hc, _⟩ := hw.constructed _ _ hs
    have hinv := runInv_step b₀ (.receive msg) b hc h
    obtain ⟨hreply, hpairs⟩ := receive_simulated h msg
    simp only [receiverStep, receiverBehaviour] at hinv hreply hpairs
    dsimp only
    refine ⟨hinv, ?_, ?_⟩
    · cases hchecks : receiverChecks L b₀ msg with
      | error e =>
        rw [hchecks] at hreply
        exact ReceiverReply.key.inj hreply
      | ok u =>
        rw [hchecks] at hreply
        cases hleft : pairs b with
        | nil =>
          rw [hleft] at hreply
          exact ReceiverReply.key.inj hreply
        | cons pair rest =>
          rw [hleft] at hreply
          exact ReceiverReply.key.inj hreply
    · rw [hpairs]
      cases receiverChecks L b₀ msg with
      | error e => rfl
      | ok u => rfl

theorem bytes_refine (L : Suite) (params : EirnParams) (b₀ : PrekeyBundle) :
    Refines (receiveBytes L) (fun _ => True) (RunInv L params b₀) pairs (bytesBehaviour L b₀) where
  keeps data _ _ h := (bytes_simulated h data).1
  answers data _ _ h := (bytes_simulated h data).2.1
  moves data _ _ h := (bytes_simulated h data).2.2

theorem profile_checks (L : Suite) (b : PrekeyBundle) (msg : Msg0Prime) (hc : Constructed msg)
    (hp : OfProfile b.identityPk.params msg) :
    (receiverChecks L b msg = .ok () ∧ ProofAccepted L b msg) ∨
      (receiverChecks L b msg = err .authenticationFailed ∧ ¬ ProofAccepted L b msg) := by
  have hmatch : receiverChecks L b msg ≠ err .keyMismatch := by
    rw [receiverChecks, if_neg ((ofProfile_iff msg _).mpr hp)]
    dsimp only
    cases msg.kcpMode with
    | lite =>
      obtain ⟨accepted, hv⟩ := liteVerify_ok L msg.pkA.data (buildContext msg.pkA b.identityPk
        msg.ekA) msg.kcpLiteProof
      simp only [hv, ok_bind]
      cases accepted <;> simp [err]
    | strict =>
      cases msg.kcpStrictProof with
      | none => simp [err]
      | some proof =>
        obtain ⟨accepted, hv⟩ := strictVerify_ok L msg.pkA (buildContext msg.pkA b.identityPk
          msg.ekA) hc.pkA proof
        simp only [hv, ok_bind]
        cases accepted <;> simp [err]
  rcases receiverChecks_cases L b msg hc with ⟨hok, _, ha⟩ | ⟨he | he, hn⟩
  · exact Or.inl ⟨hok, ha⟩
  · exact absurd he hmatch
  · exact Or.inr ⟨he, fun ha => hn ⟨hp, ha⟩⟩

theorem behaviour_cases (hs : IsSupportedParams b₀.identityPk.params) (data : Bytes) :
    (∃ e, ParseOutcome L b₀.identityPk.params data (err e) ∧
      bytesBehaviour L b₀ data = .look (fun _ => err e)) ∨
    ∃ msg, ParseOutcome L b₀.identityPk.params data (.ok msg) ∧ Constructed msg ∧
      OfProfile b₀.identityPk.params msg ∧
      ((ProofAccepted L b₀ msg ∧ bytesBehaviour L b₀ data =
          .take (fun pair => receiverKey L b₀ pair.2 msg) (err .noOneTimePrekeys)) ∨
        (¬ ProofAccepted L b₀ msg ∧
          bytesBehaviour L b₀ data = .look (fun _ => err .authenticationFailed))) := by
  have hout := parse_outcome L hs data
  unfold bytesBehaviour
  cases hparse : Msg0Prime.fromBytesWithParams L data b₀.identityPk.params with
  | error e =>
    rw [hparse] at hout
    refine Or.inl ?_
    cases hout <;> exact ⟨_, by constructor <;> assumption, rfl⟩
  | ok msg =>
    rw [hparse] at hout
    obtain ⟨hw, _⟩ := (parse_ok_iff L _ hs data msg).mp hparse
    obtain ⟨hc, ho⟩ := hw.constructed _ _ hs
    refine Or.inr ⟨msg, hout, hc, ho, ?_⟩
    rcases profile_checks L b₀ msg hc ho with ⟨hchecks, ha⟩ | ⟨hchecks, ha⟩
    · exact Or.inl ⟨ha, by simp only [hchecks]⟩
    · exact Or.inr ⟨ha, by simp only [hchecks, err]⟩

theorem takes_iff (hs : IsSupportedParams b₀.identityPk.params) (data : Bytes) :
    (bytesBehaviour L b₀ data).takes = true ↔
      ∃ msg, ParseOutcome L b₀.identityPk.params data (.ok msg) ∧ ProofAccepted L b₀ msg := by
  rcases behaviour_cases hs data with ⟨e, hout, hb⟩ |
    ⟨msg, hout, _, _, ⟨ha, hb⟩ | ⟨ha, hb⟩⟩
  · rw [hb]
    refine iff_of_false Bool.false_ne_true ?_
    rintro ⟨msg, hmsg, _⟩
    have heq := (hout.unique L hs).symm.trans (hmsg.unique L hs)
    cases heq
  · rw [hb]
    exact iff_of_true rfl ⟨msg, hout, ha⟩
  · rw [hb]
    refine iff_of_false Bool.false_ne_true ?_
    rintro ⟨msg', hmsg', ha'⟩
    obtain rfl := Except.ok.inj ((hout.unique L hs).symm.trans (hmsg'.unique L hs))
    exact ha ha'

theorem pair_keyPair (h : BundleInv L params b₀) (pair : PublicKey × SecretKey)
    (hp : pair ∈ pairs b₀) : KeyPair L params pair.1 pair.2 :=
  (List.forall₂_iff_zip.mp h.pool).2 hp

theorem pair_key (h : BundleInv L params b₀) (msg : Msg0Prime) (hc : Constructed msg)
    (ho : OfProfile b₀.identityPk.params msg) (pair : PublicKey × SecretKey)
    (hp : pair ∈ pairs b₀) : ∃ k, receiverKey L b₀ pair.2 msg = .ok k := by
  have hid := h.identity.generated
  have hspk := h.signedPrekey.generated
  have hopk := (pair_keyPair h pair hp).generated
  exact receiverKey_isOk L b₀ msg pair.2 hc ho (by rw [hid.secretParams, hid.params_eq])
    (by rw [hspk.secretParams, hid.params_eq]) (by rw [hopk.secretParams, hid.params_eq])

theorem bytes_outcome (h : BundleInv L params b₀) (left : List (PublicKey × SecretKey))
    (hleft : left ⊆ pairs b₀) (data : Bytes) :
    BytesOutcome L b₀ left data ((bytesBehaviour L b₀ data).reply left) := by
  have hs : IsSupportedParams b₀.identityPk.params := by
    rw [h.identity.generated.params_eq]
    exact h.identity.generated.supported
  rcases behaviour_cases hs data with ⟨e, hout, hb⟩ |
    ⟨msg, hout, hc, ho, ⟨ha, hb⟩ | ⟨ha, hb⟩⟩
  · rw [hb]
    exact .unparsed e hout
  · rw [hb]
    cases left with
    | nil => exact .exhausted msg hout ha rfl
    | cons pair rest =>
      obtain ⟨k, hk⟩ := pair_key h msg hc ho pair (hleft List.mem_cons_self)
      show BytesOutcome L b₀ _ data (receiverKey L b₀ pair.2 msg)
      rw [hk]
      exact .accepted msg hout ha pair.1 pair.2 rest rfl k hk
  · rw [hb]
    exact .unauthentic msg hout ha

theorem BytesOutcome.unique (hs : IsSupportedParams b₀.identityPk.params)
    {left : List (PublicKey × SecretKey)} {data : Bytes} {r r' : Result (FixedBytes 32)}
    (h : BytesOutcome L b₀ left data r) (h' : BytesOutcome L b₀ left data r') : r = r' := by
  have hsame : ∀ {x y : Result Msg0Prime}, ParseOutcome L b₀.identityPk.params data x →
      ParseOutcome L b₀.identityPk.params data y → x = y :=
    fun hx hy => (hx.unique L hs).symm.trans (hy.unique L hs)
  cases h with
  | unparsed e h =>
    cases h' with
    | unparsed e' h' =>
      have heq := hsame h h'
      cases heq
      rfl
    | unauthentic msg h' hp => cases hsame h h'
    | exhausted msg h' hp hl => cases hsame h h'
    | accepted msg h' hp pk sk rest hl k hk => cases hsame h h'
  | unauthentic msg h hp =>
    cases h' with
    | unparsed e' h' => cases hsame h h'
    | unauthentic msg' h' hp' => rfl
    | exhausted msg' h' hp' hl => cases hsame h h'; exact absurd hp' hp
    | accepted msg' h' hp' pk sk rest hl k hk => cases hsame h h'; exact absurd hp' hp
  | exhausted msg h hp hl =>
    cases h' with
    | unparsed e' h' => cases hsame h h'
    | unauthentic msg' h' hp' => cases hsame h h'; exact absurd hp hp'
    | exhausted msg' h' hp' hl' => rfl
    | accepted msg' h' hp' pk sk rest hl' k hk => rw [hl] at hl'; cases hl'
  | accepted msg h hp pk sk rest hl k hk =>
    cases h' with
    | unparsed e' h' => cases hsame h h'
    | unauthentic msg' h' hp' => cases hsame h h'; exact absurd hp hp'
    | exhausted msg' h' hp' hl' => rw [hl] at hl'; cases hl'
    | accepted msg' h' hp' pk' sk' rest' hl' k' hk' =>
      cases hsame h h'
      rw [hl] at hl'
      cases hl'
      exact hk.symm.trans hk'

end Endpoint

/-- After any byte strings the answer to the next one is fixed by its first
fault, its proof and the number of authentic strings before it, and the state is
the start without as many pairs. -/
theorem endpoint_verdict (L : Suite) (params : EirnParams) (hs : IsSupportedParams params)
    (drawn : ℕ → FixedBytes 96) (numOpk : ℕ) (b₀ : PrekeyBundle)
    (hgen : generatePrekeyBundleWithParams L drawn numOpk params = .ok b₀) (seen : List Bytes) :
    let n := takers (bytesBehaviour L b₀) seen
    let b := after (receiveBytes L) seen b₀
    (∀ data r, (receiveBytes L data b).1 = r ↔
      BytesOutcome L b₀ ((pairs b₀).drop n) data r) ∧
    b = { b₀ with
      oneTimePrekeys := b₀.oneTimePrekeys.drop n
      oneTimeSecretKeys := b₀.oneTimeSecretKeys.drop n } ∧
    ∀ data, (bytesBehaviour L b₀ data).takes = true ↔
      ∃ msg, ParseOutcome L params data (.ok msg) ∧ ProofAccepted L b₀ msg := by
  intro n b
  obtain ⟨hinv, _⟩ := generate_inv L params hs drawn numOpk b₀ hgen
  have hparams : b₀.identityPk.params = params := hinv.identity.generated.params_eq
  have hs₀ : IsSupportedParams b₀.identityPk.params := by rw [hparams]; exact hs
  have href := bytes_refine L params b₀
  have hstart := runInv_start hinv
  have hrun : RunInv L params b₀ b :=
    after_invariant (receiveBytes L) (fun _ => True) (RunInv L params b₀) href.keeps seen b₀
      (fun _ _ => trivial) hstart
  refine ⟨?_, ?_, ?_⟩
  · intro data r
    have hreply := href.reply_after seen b₀ (fun _ _ => trivial) hstart data trivial
    have hout := bytes_outcome hinv ((pairs b₀).drop n) (List.drop_subset n _) data
    rw [← hreply] at hout
    constructor
    · rintro rfl
      exact hout
    · intro h
      exact hout.unique hs₀ h
  · exact state_of_pairs hinv hrun n (href.after_items seen b₀ (fun _ _ => trivial) hstart)
  · intro data
    rw [← hparams]
    exact takes_iff hs₀ data

theorem endpoint_verdict_exhausted :
    ∃ pkA skA b₀ msg k data,
      keygenFromSeed idealSuite (zeros 96) params768 = .ok (pkA, skA) ∧
      generatePrekeyBundleWithParams idealSuite (fun _ => zeros 96) 1 params768 = .ok b₀ ∧
      senderHandshakeWithMode idealSuite skA pkA b₀.publicBundle .strict zeroDraws =
        .ok (msg, k) ∧
      msg.toBytes = .ok data ∧
      (receiveBytes idealSuite data (after (receiveBytes idealSuite) [data] b₀)).1 =
        err .noOneTimePrekeys := by
  obtain ⟨pkA, skA, hA, g, _⟩ := keygen_generated idealSuite (zeros 96) params768 supported768
  obtain ⟨b₀, hgen, hinv, hlen⟩ := generate_ok idealSuite params768 supported768
    (fun _ => zeros 96) 1
  obtain ⟨msg, k, hsend, hw, ha, _⟩ := exchange_ok idealSuite_lawful ⟨_, hA⟩ hinv
    (List.ne_nil_of_length_eq_add_one hlen) .strict zeroDraws
  obtain ⟨data, hbytes, _, _⟩ := wellFormed_round_trip _ _ supported768 msg hw
  refine ⟨pkA, skA, b₀, msg, k, data, hA, hgen, hsend, hbytes, ?_⟩
  obtain ⟨hreply, _, htakes⟩ := endpoint_verdict idealSuite params768 supported768
    (fun _ => zeros 96) 1 b₀ hgen [data]
  have hout : ParseOutcome idealSuite params768 data (.ok msg) := .message msg hw hbytes
  have hone : takers (bytesBehaviour idealSuite b₀) [data] = 1 := by
    rw [takers, List.countP_singleton, if_pos ((htakes data).mpr ⟨msg, hout, ha.2⟩)]
  have hpairs : (pairs b₀).length = 1 := by
    rw [pairs, List.length_zip, ← hinv.pool.length_eq, hlen, min_self]
  apply (hreply data _).mpr
  rw [hone, List.drop_eq_nil_of_le hpairs.le]
  exact .exhausted msg (by rw [hinv.identity.generated.params_eq]; exact hout) ha.2 rfl

end EirnKcp.WireEndpoint
