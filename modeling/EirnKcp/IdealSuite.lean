import EirnKcp.Handshake

/-!
# A suite that satisfies every law

Encapsulation to a key writes the key's seed and the coins into the ciphertext,
so decapsulation sees whether its own seed was meant. Signatures repeat the
seed and the message, hashes forward a window of their input. The suite shows
that the laws hold together and gives closed instances of results about them.
-/

set_option autoImplicit false

namespace EirnKcp.IdealSuite
open EirnKcp.CheckedCode EirnKcp.Primitives EirnKcp.Kem

def fit (n : ℕ) (bytes : Bytes) : FixedBytes n :=
  ⟨(bytes ++ List.replicate n 0).take n, by simp⟩

theorem fit_val (n : ℕ) (bytes : Bytes) :
    (fit n bytes).1 = (bytes ++ List.replicate n 0).take n := rfl

theorem fit_append (n : ℕ) (a b : Bytes) (h : a.length = n) : fit n (a ++ b) = ⟨a, h⟩ := by
  apply Subtype.ext
  rw [fit_val, List.append_assoc, List.take_left' h]

theorem fit_take (n m : ℕ) (bytes : FixedBytes m) (h : m ≤ n) :
    (fit n bytes.1).1.take m = bytes.1 := by
  rw [fit_val, List.take_take, Nat.min_eq_left h, List.take_left' bytes.2]

def bump {n : ℕ} (bytes : FixedBytes n) : FixedBytes n :=
  ⟨bytes.1.map (fun b => b+1), by rw [List.length_map, bytes.2]⟩

theorem bump_ne {n : ℕ} (bytes : FixedBytes (n+1)) : bump bytes ≠ bytes := by
  obtain ⟨bytes, hl⟩ := bytes
  intro h
  cases bytes with
  | nil => simp at hl
  | cons b rest =>
    have hb := (List.cons.inj (congrArg Subtype.val h)).1
    have hn := congrArg UInt8.toNat hb
    simp only [UInt8.toNat_add, UInt8.reduceToNat] at hn
    omega

def idealKem (ekSize ctSize : ℕ) : MlKem ekSize ctSize where
  encapsulationKey seed := fit ekSize seed.1
  newKey _ := true
  encapsulateDeterministic ek coins := (fit ctSize (coins.1 ++ ek.1.take 64), coins)
  decapsulate seed ct :=
    let coins := fit 32 ct.1
    if (ct.1.drop 32).take 64 = seed.1 then coins else bump coins

def idealDsa (vkSize sigSize : ℕ) : MlDsa vkSize (sigSize+1) where
  verifyingKey seed := fit vkSize seed.1
  sign seed message := ⟨1 :: (fit sigSize (seed.1 ++ message)).1, by
    rw [List.length_cons, (fit sigSize _).2]⟩
  parses _ := true
  verify vk message signature :=
    decide (signature.1 = 1 :: (fit sigSize (vk.1.take 32 ++ message)).1)

/-- `sha3_256` keeps the last 31 bytes behind a constant. `shake256` writes the
counter and the key of a message key input behind a constant, and reads from
the third secret of a session key input on. -/
def idealSuite : Suite where
  mlKem768 := idealKem 1184 1088
  mlKem1024 := idealKem 1568 1568
  mlDsa65 := idealDsa 1952 3308
  mlDsa87 := idealDsa 2592 4626
  sha3_256 data := ⟨1 :: (fit 31 (data.drop (data.length-31))).1, by
    rw [List.length_cons, (fit 31 _).2]⟩
  shake256 data outLen :=
    if data.take 2 = [0, 11] then fit outLen (7 :: (data.drop 55 ++ (data.drop 19).take 32))
    else fit outLen (data.drop 90)

section Laws
variable (ekSize ctSize vkSize sigSize : ℕ)

theorem idealKem_sees_seed (hek : 64 ≤ ekSize) (hct : 96 ≤ ctSize) (seed : FixedBytes 64)
    (coins : FixedBytes 32) :
    let ct := ((idealKem ekSize ctSize).encapsulateDeterministic
      ((idealKem ekSize ctSize).encapsulationKey seed) coins).1
    fit 32 ct.1 = coins ∧ (ct.1.drop 32).take 64 = seed.1 := by
  have htake := fit_take ekSize 64 seed hek
  have hct' : (fit ctSize (coins.1 ++ seed.1)).1 =
      coins.1 ++ (seed.1 ++ List.replicate (ctSize-96) 0) := by
    have hl : (coins.1 ++ seed.1).length = 96 := by
      rw [List.length_append, coins.2, seed.2]
    rw [fit_val, List.take_append, List.take_of_length_le (by omega), List.take_replicate, hl,
      Nat.min_eq_left (by omega), List.append_assoc]
  simp only [idealKem, htake, hct']
  constructor
  · exact fit_append 32 _ _ coins.2
  · rw [List.drop_left' coins.2, List.take_left' seed.2]

theorem idealKem_correct (hek : 64 ≤ ekSize) (hct : 96 ≤ ctSize) :
    (idealKem ekSize ctSize).Correct := by
  intro seed coins
  obtain ⟨hc, hs⟩ := idealKem_sees_seed ekSize ctSize hek hct seed coins
  show (if _ then fit 32 _ else _) = coins
  rw [if_pos hs, hc]

theorem idealKem_rejecting (hek : 64 ≤ ekSize) (hct : 96 ≤ ctSize) :
    (idealKem ekSize ctSize).Rejecting := by
  intro seed other coins hne
  obtain ⟨hc, hs⟩ := idealKem_sees_seed ekSize ctSize hek hct seed coins
  have hother : seed.1 ≠ other.1 := fun h => hne (congrArg _ (Subtype.ext h.symm))
  show (if _ = other.1 then _ else bump (fit 32 _)) ≠ coins
  rw [hs, if_neg hother, hc]
  exact bump_ne coins

theorem idealDsa_correct (hvk : 32 ≤ vkSize) : (idealDsa vkSize sigSize).Correct := by
  intro seed message
  apply decide_eq_true
  show 1 :: _ = 1 :: (fit sigSize ((fit vkSize seed.1).1.take 32 ++ message)).1
  rw [fit_take vkSize 32 seed hvk]

theorem idealDsa_exact (hvk : 32 ≤ vkSize) : (idealDsa vkSize sigSize).Exact := by
  intro seed message signature
  show decide (signature.1 =
    1 :: (fit sigSize ((fit vkSize seed.1).1.take 32 ++ message)).1) = true ↔ _
  rw [fit_take vkSize 32 seed hvk, decide_eq_true_iff, Subtype.ext_iff]
  rfl

theorem fit_snoc_ne (n : ℕ) (bytes : Bytes) (h : bytes.length < n) :
    fit n (bytes ++ [1]) ≠ fit n bytes := by
  intro heq
  have hb := congrArg (fun f : FixedBytes n => f.1[bytes.length]?) heq
  simp [fit_val, h] at hb

theorem idealDsa_oneMessage (message : Bytes) (hvk : 32 ≤ vkSize)
    (h : 32+message.length < sigSize) :
    (idealDsa vkSize sigSize).OneMessage {message, message ++ [1]} := by
  have hne : ∀ seed : FixedBytes 32, fit sigSize (seed.1 ++ (message ++ [1])) ≠
      fit sigSize (seed.1 ++ message) := by
    intro seed
    rw [← List.append_assoc]
    exact fit_snoc_ne sigSize _ (by rw [List.length_append, seed.2]; exact h)
  rintro seed signature m ⟨hm, hv⟩ m' ⟨hm', hv'⟩
  rw [idealDsa_exact vkSize sigSize hvk] at hv hv'
  have hsign := hv.symm.trans hv'
  have hfit : fit sigSize (seed.1 ++ m) = fit sigSize (seed.1 ++ m') :=
    Subtype.ext (List.cons.inj (congrArg Subtype.val hsign)).2
  rcases hm with rfl | rfl <;> rcases hm' with rfl | rfl
  · rfl
  · exact absurd hfit.symm (hne seed)
  · exact absurd hfit (hne seed)
  · rfl

end Laws

theorem idealSuite_exact : idealSuite.DsaExact :=
  ⟨idealDsa_exact _ _ (by decide), idealDsa_exact _ _ (by decide)⟩

theorem idealSuite_oneMessage (message : Bytes) (h : message.length < 3276) :
    idealSuite.OneMessage {message, message ++ [1]} :=
  ⟨idealDsa_oneMessage _ _ message (by decide) (by omega),
    idealDsa_oneMessage _ _ message (by decide) (by omega)⟩

theorem idealSuite_digest (data : Bytes) : idealSuite.sha3_256 data ≠ zeros 32 := by
  intro h
  have hb := congrArg (fun digest : FixedBytes 32 => digest.1.head?) h
  exact absurd hb (by simp [idealSuite, zeros])

theorem idealSuite_signatures : idealSuite.SignaturesNonZero where
  mlDsa65 _ _ := rfl
  mlDsa87 _ _ := rfl

theorem idealSuite_lawful : idealSuite.Lawful where
  keysValid := ⟨fun _ => rfl, fun _ => rfl⟩
  kemCorrect := ⟨idealKem_correct _ _ (by decide) (by decide),
    idealKem_correct _ _ (by decide) (by decide)⟩
  signaturesParse := ⟨fun _ _ => rfl, fun _ _ => rfl⟩
  dsaCorrect := ⟨idealDsa_correct _ _ (by decide), idealDsa_correct _ _ (by decide)⟩
  nonZero := ⟨fun x _ => idealSuite_digest x, idealSuite_signatures⟩

theorem idealSuite_rejecting : idealSuite.Rejecting :=
  ⟨idealKem_rejecting _ _ (by decide) (by decide), idealKem_rejecting _ _ (by decide) (by decide)⟩

section Calls

theorem ideal_decapsulate {ekSize ctSize n : ℕ} (h : 32 ≤ ctSize) (coins : FixedBytes 32)
    (ek : Bytes) (seed : FixedBytes 64) (ct : FixedBytes n)
    (hct : ct.1 = (fit ctSize (coins.1 ++ ek)).1) :
    (idealKem ekSize n).decapsulate seed ct = coins ∨
      (idealKem ekSize n).decapsulate seed ct = bump coins := by
  have hsplit : ct.1 = coins.1 ++ (ek ++ List.replicate ctSize 0).take (ctSize-32) := by
    rw [hct, fit_val, List.append_assoc, List.take_append, coins.2,
      List.take_of_length_le (by rw [coins.2]; exact h)]
  have hcoins : fit 32 ct.1 = coins := by
    rw [hsplit, fit_append 32 _ _ coins.2]
  simp only [idealKem, hcoins]
  split_ifs
  · exact Or.inl rfl
  · exact Or.inr rfl

theorem ideal_encaps (coins ss : FixedBytes 32) (pk : PublicKey) (ct : Ciphertext)
    (h : encaps idealSuite coins pk = .ok (ct, ss)) :
    ss = coins ∧ ∃ ctSize ek, 32 ≤ ctSize ∧ ct.data = (fit ctSize (coins.1 ++ ek)).1 := by
  unfold encaps encapsDeterministic dispatch at h
  split_ifs at h
  · simp only [encapsWith, bind_ok_iff, pure_ok, Except.ok.injEq, Prod.mk.injEq] at h
    obtain ⟨ek, _, rfl, rfl⟩ := h
    exact ⟨rfl, 1088, ek.1.take 64, by decide, rfl⟩
  · simp only [encapsWith, bind_ok_iff, pure_ok, Except.ok.injEq, Prod.mk.injEq] at h
    obtain ⟨ek, _, rfl, rfl⟩ := h
    exact ⟨rfl, 1568, ek.1.take 64, by decide, rfl⟩
  · cases h

theorem decapsWith_ok {ekSize ctSize : ℕ} (K : MlKem ekSize ctSize) (sk : SecretKey)
    (ct : Ciphertext) (ss : FixedBytes 32) (h : decapsWith K sk ct = .ok ss) :
    ∃ kemCt : FixedBytes ctSize, kemCt.1 = ct.data ∧ K.decapsulate sk.kemSeed kemCt = ss := by
  by_cases hl : ct.data.length = ctSize
  · rw [decapsWith, parseCiphertextWith, dif_pos hl] at h
    exact ⟨⟨ct.data, hl⟩, rfl, Except.ok.inj h⟩
  · rw [decapsWith, parseCiphertextWith, dif_neg hl] at h
    cases h

theorem ideal_leg (coins ss ss' : FixedBytes 32) (pk : PublicKey) (sk : SecretKey)
    (ct ct' : Ciphertext) (h : encaps idealSuite coins pk = .ok (ct, ss))
    (hct : ct'.data = ct.data) (h' : decaps idealSuite sk ct' = .ok ss') :
    ss = coins ∧ (ss' = coins ∨ ss' = bump coins) := by
  obtain ⟨hss, ctSize, ek, hsize, hdata⟩ := ideal_encaps coins ss pk ct h
  refine ⟨hss, ?_⟩
  unfold decaps dispatch at h'
  split_ifs at h'
  · obtain ⟨kemCt, hkem, rfl⟩ := decapsWith_ok _ sk ct' ss' h'
    exact ideal_decapsulate hsize coins ek sk.kemSeed kemCt (by rw [hkem, hct, hdata])
  · obtain ⟨kemCt, hkem, rfl⟩ := decapsWith_ok _ sk ct' ss' h'
    exact ideal_decapsulate hsize coins ek sk.kemSeed kemCt (by rw [hkem, hct, hdata])
  · cases h'

end Calls

end EirnKcp.IdealSuite
