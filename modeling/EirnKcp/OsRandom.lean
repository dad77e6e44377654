import EirnKcp.HonestHandshake
import EirnKcp.Tape

/-!
# Drawing from the operating-system generator

Key generation and encapsulation draw their bytes from one generator, in the
order of the calls. With the generator as a tape, every call returns what the
call with explicit draws returns for the bytes at its position, and what it
draws is a window of the tape of fixed length.
-/

set_option autoImplicit false

namespace EirnKcp.OsRandom
open EirnKcp.CheckedCode EirnKcp.ByteCodec EirnKcp.Params EirnKcp.Primitives EirnKcp.Kem
open EirnKcp.KeyLaws EirnKcp.Zk EirnKcp.Prekey EirnKcp.Handshake EirnKcp.HandshakeSteps
open EirnKcp.ReceiverState EirnKcp.HonestHandshake EirnKcp.Tape

abbrev Draws (α : Type) := Drawing UInt8 (Failure EirnError) α

def fillBytes (n : ℕ) : Draws (FixedBytes n) := draw n

def keygenWithRng (L : Suite) (params : EirnParams) : Draws (PublicKey × SecretKey) := do
  let seed ← fillBytes 96
  lift (keygenFromSeed L seed params)

def encapsWithRng (L : Suite) (pk : PublicKey) : Draws (Ciphertext × FixedBytes 32) := do
  let coins ← fillBytes 32
  lift (encapsDeterministic L pk coins)

def naxosEncapsOs (L : Suite) (recipientPk : PublicKey) (senderSk _senderEphemeralSk : SecretKey)
    (context : Bytes) : Draws (Ciphertext × FixedBytes 32) := do
  let (ct, ssRaw) ← encapsWithRng L recipientPk
  pure (ct, L.sha3_256 (naxosInput ssRaw senderSk.pkData recipientPk.data context))

/-- The loop of `generate_prekey_bundle_with_params`. -/
def generateOneTimeOs (L : Suite) (params : EirnParams) :
    ℕ → Draws (List PublicKey × List SecretKey)
  | 0 => pure ([], [])
  | count+1 => do
      let (pk, sk) ← keygenWithRng L params
      let (pks, sks) ← generateOneTimeOs L params count
      pure (pk::pks, sk::sks)

def generatePrekeyBundleOs (L : Suite) (numOpk : ℕ) (params : EirnParams) :
    Draws PrekeyBundle := do
  let (identityPk, identitySk) ← keygenWithRng L params
  let (signedPrekeyPk, signedPrekeySk) ← keygenWithRng L params
  let (oneTimePrekeys, oneTimeSecretKeys) ← generateOneTimeOs L params numOpk
  let commitmentSecret := signedPrekeySk.commitmentSecret L
  let commitment :=
    L.sha3_256 (commitmentSecret.1 ++ signedPrekeyPk.data ++ prekeyCommitLabel)
  pure ⟨identityPk, identitySk, signedPrekeyPk, signedPrekeySk, oneTimePrekeys,
    oneTimeSecretKeys, commitment⟩

def senderLegsOs (L : Suite) (skA eskA : SecretKey) (bundleB : PublicPrekeyBundle)
    (opkB : PublicKey) (ctx : Bytes) : Draws Legs := do
  let (ct1, k1) ← encapsWithRng L bundleB.identityPk
  let (ct2, k2) ← encapsWithRng L bundleB.signedPrekeyPk
  let (ct3, k3) ← encapsWithRng L opkB
  let (ct4, k4) ← naxosEncapsOs L bundleB.signedPrekeyPk skA eskA ctx
  pure ⟨ct1, k1, ct2, k2, ct3, k3, ct4, k4⟩

/-- `sender_handshake_with_mode`. The ephemeral key is drawn before the pool of
the bundle is looked at. -/
def senderHandshakeOs (L : Suite) (skA : SecretKey) (pkA : PublicKey)
    (bundleB : PublicPrekeyBundle) (mode : KcpMode) : Draws (Msg0Prime × FixedBytes 32) := do
  if ¬ skA.matchesPublicKey pkA then lift (err .keyMismatch)
  else
    let params := bundleB.identityPk.params
    if pkA.params ≠ params ∨ bundleB.signedPrekeyPk.params ≠ params then lift (err .keyMismatch)
    else
      let (ekA, eskA) ← keygenWithRng L params
      match bundleB.oneTimePrekeys.head? with
      | none => lift (err .noOneTimePrekeys)
      | some opkB =>
        if opkB.params ≠ params then lift (err .keyMismatch)
        else
          let ctx := buildContext pkA bundleB.identityPk ekA
          let legs ← senderLegsOs L skA eskA bundleB opkB ctx
          let (liteProof, strictProof) ← lift (senderProof L skA pkA params ctx mode)
          let ss := deriveSessionKey L legs.secrets pkA.data bundleB.identityPk.data ekA.data
            legs.ciphertexts none
          pure (⟨pkA, ekA, legs.ct1, legs.ct2, legs.ct3, legs.ct4, mode, liteProof,
            strictProof⟩, ss)

def bytesAt (n : ℕ) (tape : ℕ → UInt8) (pos : ℕ) : FixedBytes n :=
  ⟨window tape pos n, window_length tape pos n⟩

def drawsAt (tape : ℕ → UInt8) (pos : ℕ) : SenderDraws where
  ephemeral := bytesAt 96 tape pos
  coins1 := bytesAt 32 tape (pos+96)
  coins2 := bytesAt 32 tape (pos+128)
  coins3 := bytesAt 32 tape (pos+160)
  coins4 := bytesAt 32 tape (pos+192)

section Calls
variable (L : Suite) (tape : ℕ → UInt8) (pos : ℕ)

theorem keygenWithRng_run (params : EirnParams) : keygenWithRng L params tape pos =
    (keygenWithParams L (bytesAt 96 tape pos) params, pos+96) := rfl

theorem encapsWithRng_run (pk : PublicKey) :
    encapsWithRng L pk tape pos = (encaps L (bytesAt 32 tape pos) pk, pos+32) := rfl

theorem naxosEncapsOs_run (recipientPk : PublicKey) (senderSk senderEphemeralSk : SecretKey)
    (context : Bytes) :
    naxosEncapsOs L recipientPk senderSk senderEphemeralSk context tape pos =
      (naxosEncaps L (bytesAt 32 tape pos) recipientPk senderSk senderEphemeralSk context,
        pos+32) := by
  rw [naxosEncapsOs, naxosEncaps, bind_run, encapsWithRng_run]
  cases encaps L (bytesAt 32 tape pos) recipientPk with
  | error e => rfl
  | ok r => rfl

theorem generateOneTimeOs_result (params : EirnParams) (first count : ℕ) :
    (generateOneTimeOs L params count tape (pos+96*first)).1 =
      generateOneTime L (fun i => bytesAt 96 tape (pos+96*i)) params first count := by
  induction count generalizing first with
  | zero => rfl
  | succ count ih =>
    have hnext : pos+96*first+96 = pos+96*(first+1) := by omega
    simp only [generateOneTimeOs, generateOneTime, bind_result, keygenWithRng_run, hnext, ih,
      pure_run, pure_ok]

theorem generatePrekeyBundleOs_result (numOpk : ℕ) (params : EirnParams) :
    (generatePrekeyBundleOs L numOpk params tape pos).1 =
      generatePrekeyBundleWithParams L (fun i => bytesAt 96 tape (pos+96*i)) numOpk params := by
  have hloop := generateOneTimeOs_result L tape pos params 2 numOpk
  simp only [generatePrekeyBundleOs, generatePrekeyBundleWithParams, bind_result,
    keygenWithRng_run, pure_run, pure_ok, Nat.add_assoc] at hloop ⊢
  simp only [hloop, Nat.mul_zero, Nat.add_zero, Nat.mul_one]

theorem senderLegsOs_result (skA eskA : SecretKey) (bundleB : PublicPrekeyBundle)
    (opkB : PublicKey) (ctx : Bytes) :
    (senderLegsOs L skA eskA bundleB opkB ctx tape (pos+96)).1 =
      senderLegs L skA eskA bundleB opkB ctx (drawsAt tape pos) := by
  simp only [senderLegsOs, senderLegs, drawsAt, bind_result, encapsWithRng_run,
    naxosEncapsOs_run, pure_run, pure_ok, Nat.add_assoc]

theorem senderHandshakeOs_result (skA : SecretKey) (pkA : PublicKey)
    (bundleB : PublicPrekeyBundle) (mode : KcpMode) :
    (senderHandshakeOs L skA pkA bundleB mode tape pos).1 =
      senderHandshakeWithMode L skA pkA bundleB mode (drawsAt tape pos) := by
  unfold senderHandshakeOs senderHandshakeWithMode
  dsimp only
  by_cases hown : skA.matchesPublicKey pkA = true
  · rw [if_neg (not_not.mpr hown), if_neg (not_not.mpr hown)]
    by_cases hparams : pkA.params ≠ bundleB.identityPk.params ∨
        bundleB.signedPrekeyPk.params ≠ bundleB.identityPk.params
    · rw [if_pos hparams, if_pos hparams, lift_run]
    · rw [if_neg hparams, if_neg hparams, bind_result, keygenWithRng_run]
      congr 1
      funext ⟨ekA, eskA⟩
      cases bundleB.oneTimePrekeys.head? with
      | none => rfl
      | some opkB =>
        by_cases hopk : opkB.params = bundleB.identityPk.params
        · simp only [hopk, ne_eq, not_true, if_false, bind_result, senderLegsOs_result, lift_run,
            pure_run, pure_ok]
        · simp only [hopk, ne_eq, not_false_eq_true, if_true, lift_run]
  · rw [if_pos hown, if_pos hown, lift_run]

end Calls

section Costs
variable (L : Suite)

theorem keygenWithRng_costs (params : EirnParams) : Costs (keygenWithRng L params) 96 :=
  costs_bind _ _ 96 0 (costs_draw 96) (fun _ => costs_lift _)

theorem encapsWithRng_costs (pk : PublicKey) : Costs (encapsWithRng L pk) 32 :=
  costs_bind _ _ 32 0 (costs_draw 32) (fun _ => costs_lift _)

theorem naxosEncapsOs_costs (recipientPk : PublicKey) (senderSk senderEphemeralSk : SecretKey)
    (context : Bytes) :
    Costs (naxosEncapsOs L recipientPk senderSk senderEphemeralSk context) 32 :=
  costs_bind _ _ 32 0 (encapsWithRng_costs L recipientPk) (fun _ => costs_pure _)

theorem generateOneTimeOs_costs (params : EirnParams) (count : ℕ) :
    Costs (generateOneTimeOs L params count) (96*count) := by
  induction count with
  | zero => exact costs_pure _
  | succ count ih =>
    have hcost : 96*(count+1) = 96+(96*count+0) := by omega
    rw [hcost]
    apply costs_bind _ _ _ _ (keygenWithRng_costs L params)
    intro _
    exact costs_bind _ _ _ _ ih (fun _ => costs_pure _)

theorem generatePrekeyBundleOs_costs (numOpk : ℕ) (params : EirnParams) :
    Costs (generatePrekeyBundleOs L numOpk params) (96*(numOpk+2)) := by
  have hcost : 96*(numOpk+2) = 96+(96+(96*numOpk+0)) := by omega
  rw [hcost]
  apply costs_bind _ _ _ _ (keygenWithRng_costs L params)
  intro _
  apply costs_bind _ _ _ _ (keygenWithRng_costs L params)
  intro _
  exact costs_bind _ _ _ _ (generateOneTimeOs_costs L params numOpk) (fun _ => costs_pure _)

theorem senderLegsOs_costs (skA eskA : SecretKey) (bundleB : PublicPrekeyBundle)
    (opkB : PublicKey) (ctx : Bytes) :
    Costs (senderLegsOs L skA eskA bundleB opkB ctx) 128 := by
  apply costs_bind _ _ 32 96 (encapsWithRng_costs L bundleB.identityPk)
  intro _
  apply costs_bind _ _ 32 64 (encapsWithRng_costs L bundleB.signedPrekeyPk)
  intro _
  apply costs_bind _ _ 32 32 (encapsWithRng_costs L opkB)
  intro _
  exact costs_bind _ _ 32 0 (naxosEncapsOs_costs L bundleB.signedPrekeyPk skA eskA ctx)
    (fun _ => costs_pure _)

theorem senderHandshakeOs_costs (skA : SecretKey) (pkA : PublicKey)
    (bundleB : PublicPrekeyBundle) (mode : KcpMode) :
    Costs (senderHandshakeOs L skA pkA bundleB mode) 224 := by
  unfold senderHandshakeOs
  dsimp only
  split_ifs with hown hparams
  · exact costs_error _ 224
  · apply costs_bind _ _ 96 128 (keygenWithRng_costs L bundleB.identityPk.params)
    intro _
    split
    · exact costs_error _ 128
    · split_ifs
      · exact costs_error _ 128
      · apply costs_bind _ _ 128 0 (senderLegsOs_costs L skA _ bundleB _ _)
        intro _
        exact costs_bind _ _ 0 0 (costs_lift _) (fun _ => costs_pure _)
  · exact costs_error _ 224

end Costs

section Causality
variable (L : Suite)

theorem keygenWithRng_causal (params : EirnParams) : Causal (keygenWithRng L params) :=
  causal_bind _ _ (causal_draw 96) (fun _ => causal_lift _)

theorem encapsWithRng_causal (pk : PublicKey) : Causal (encapsWithRng L pk) :=
  causal_bind _ _ (causal_draw 32) (fun _ => causal_lift _)

theorem naxosEncapsOs_causal (recipientPk : PublicKey) (senderSk senderEphemeralSk : SecretKey)
    (context : Bytes) :
    Causal (naxosEncapsOs L recipientPk senderSk senderEphemeralSk context) :=
  causal_bind _ _ (encapsWithRng_causal L recipientPk) (fun _ => causal_pure _)

theorem generateOneTimeOs_causal (params : EirnParams) (count : ℕ) :
    Causal (generateOneTimeOs L params count) := by
  induction count with
  | zero => exact causal_pure _
  | succ count ih =>
    apply causal_bind _ _ (keygenWithRng_causal L params)
    intro _
    exact causal_bind _ _ ih (fun _ => causal_pure _)

theorem generatePrekeyBundleOs_causal (numOpk : ℕ) (params : EirnParams) :
    Causal (generatePrekeyBundleOs L numOpk params) := by
  apply causal_bind _ _ (keygenWithRng_causal L params)
  intro _
  apply causal_bind _ _ (keygenWithRng_causal L params)
  intro _
  exact causal_bind _ _ (generateOneTimeOs_causal L params numOpk) (fun _ => causal_pure _)

theorem senderLegsOs_causal (skA eskA : SecretKey) (bundleB : PublicPrekeyBundle)
    (opkB : PublicKey) (ctx : Bytes) :
    Causal (senderLegsOs L skA eskA bundleB opkB ctx) := by
  apply causal_bind _ _ (encapsWithRng_causal L bundleB.identityPk)
  intro _
  apply causal_bind _ _ (encapsWithRng_causal L bundleB.signedPrekeyPk)
  intro _
  apply causal_bind _ _ (encapsWithRng_causal L opkB)
  intro _
  exact causal_bind _ _ (naxosEncapsOs_causal L bundleB.signedPrekeyPk skA eskA ctx)
    (fun _ => causal_pure _)

theorem senderHandshakeOs_causal (skA : SecretKey) (pkA : PublicKey)
    (bundleB : PublicPrekeyBundle) (mode : KcpMode) :
    Causal (senderHandshakeOs L skA pkA bundleB mode) := by
  unfold senderHandshakeOs
  dsimp only
  split_ifs with hown hparams
  · exact causal_lift _
  · apply causal_bind _ _ (keygenWithRng_causal L bundleB.identityPk.params)
    intro _
    split
    · exact causal_lift _
    · split_ifs
      · exact causal_lift _
      · apply causal_bind _ _ (senderLegsOs_causal L skA _ bundleB _ _)
        intro _
        exact causal_bind _ _ (causal_lift _) (fun _ => causal_pure _)
  · exact causal_lift _

end Causality

end EirnKcp.OsRandom
