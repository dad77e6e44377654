import EirnKcp.Prekey

/-!
# How far key derivation separates its arguments

Every input of the hash stands behind its length, so the flat list of inputs is
always recovered. Two things are not: where the label ends, because its length
is cast to 16 bits, and which argument of a session key an input came from.
-/

set_option autoImplicit false

namespace EirnKcp.KdfEncoding
open EirnKcp.CheckedCode EirnKcp.ByteCodec EirnKcp.Primitives EirnKcp.Prekey

theorem label_length_eq (label label' : Bytes) (xs ys : List Bytes) (hl : label.length < 2^16)
    (hl' : label'.length < 2^16) (h : kdfEncode xs label = kdfEncode ys label') :
    label.length = label'.length := by
  obtain ⟨hlen, _⟩ := List.append_inj h (by simp)
  exact beBytes_injective 2 _ _ (by omega) (by omega) hlen

/-- A label of `2^16` bytes is hashed with the length zero, so it can pass for a
part of the first input under the empty label. -/
theorem long_label_hashed (z w : Bytes) (hz : z.length = 65530) (hw : w.length = 257) :
    kdfEncode [z ++ ([0, 1] ++ ([0, 0, 1, 1] ++ w))] [] =
      kdfEncode [w] ([0, 1, 0, 1, 1, 1] ++ z) := by
  have hlabel : ([0, 1, 0, 1, 1, 1] ++ z).length = 65536 := by
    rw [List.length_append, hz]
    rfl
  have hinput : (z ++ ([0, 1] ++ ([0, 0, 1, 1] ++ w))).length = 65793 := by
    simp only [List.length_append, hz, hw]
    rfl
  have hwide : beBytes 2 65536 = beBytes 2 0 := by decide
  have hcount : beBytes 2 1 = [0, 1] := by decide
  have hlong : beBytes 4 65793 = [0, 1, 1, 1] := by decide
  have hshort : beBytes 4 257 = [0, 0, 1, 1] := by decide
  rw [kdfEncode, kdfEncode, fields_cons, fields_cons, hlabel, hinput, hw, hwide,
    List.length_singleton, List.length_singleton, List.length_nil, hcount, hlong, hshort]
  simp [fields]

def padding : ℕ → String
  | 0 => ""
  | n+1 => padding n ++ "a"

theorem padding_length (n : ℕ) : (ascii (padding n)).length = n := by
  induction n with
  | zero => rfl
  | succ n ih =>
    rw [padding, ascii_append, List.length_append, ih]
    rfl

def longLabel : String := "\x00\x01\x00\x01\x01\x01" ++ padding 65530

def longInput : Bytes :=
  ascii (padding 65530) ++ ([0, 1] ++ ([0, 0, 1, 1] ++ (zeros 257).1))

theorem longLabel_bytes : ascii longLabel = [0, 1, 0, 1, 1, 1] ++ ascii (padding 65530) := by
  have hhead : ascii "\x00\x01\x00\x01\x01\x01" = [0, 1, 0, 1, 1, 1] := by decide
  rw [longLabel, ascii_append, hhead]

theorem longInput_length : longInput.length = 65793 := by
  simp only [longInput, List.length_append, padding_length, (zeros 257).2]
  rfl

theorem longLabel_length : (ascii longLabel).length = 65536 := by
  rw [longLabel_bytes, List.length_append, padding_length]
  rfl

theorem longInput_hashed :
    kdfEncode [longInput] (ascii "") = kdfEncode [(zeros 257).1] (ascii longLabel) := by
  rw [longLabel_bytes]
  exact long_label_hashed (ascii (padding 65530)) (zeros 257).1 (padding_length _) (zeros 257).2

/-- Two calls that hash the same bytes have the same label and inputs exactly
when their labels have the same length, as all labels below `2^16` bytes do. -/
theorem kdf_unambiguous_iff (label label' : String) (inputs inputs' : List Bytes)
    (hx : ∀ x ∈ inputs, x.length < 2^32) (hy : ∀ y ∈ inputs', y.length < 2^32)
    (h : kdfEncode inputs (ascii label) = kdfEncode inputs' (ascii label')) :
    ((label = label' ∧ inputs = inputs') ↔ (ascii label).length = (ascii label').length) ∧
      ((ascii label).length < 2^16 → (ascii label').length < 2^16 →
        label = label' ∧ inputs = inputs') := by
  have hsame : (ascii label).length = (ascii label').length →
      label = label' ∧ inputs = inputs' := by
    intro hl
    obtain ⟨hlabel, hinputs⟩ := kdfEncode_injective _ _ inputs inputs' hl hx hy h
    exact ⟨ascii_injective hlabel, hinputs⟩
  constructor
  · constructor
    · rintro ⟨rfl, _⟩
      rfl
    · exact hsame
  · intro hl hl'
    exact hsame (label_length_eq _ _ inputs inputs' hl hl' h)

theorem kdf_unambiguous_iff_long :
    ("" = longLabel ∧ [longInput] = [(zeros 257).1]) ↔
      (ascii "").length = (ascii longLabel).length := by
  have hx : ∀ x ∈ [longInput], x.length < 2^32 := by
    rw [List.forall_mem_singleton, longInput_length]
    norm_num
  have hy : ∀ y ∈ [(zeros 257).1], y.length < 2^32 := by
    rw [List.forall_mem_singleton, (zeros 257).2]
    norm_num
  exact (kdf_unambiguous_iff "" longLabel _ _ hx hy longInput_hashed).1

theorem long_label_collides :
    longInput.length < 2^32 ∧ (zeros 257).1.length < 2^32 ∧
      kdfEncode [longInput] (ascii "") = kdfEncode [(zeros 257).1] (ascii longLabel) ∧
      ¬ ("" = longLabel ∧ [longInput] = [(zeros 257).1]) := by
  refine ⟨?_, ?_, longInput_hashed, ?_⟩
  · rw [longInput_length]
    norm_num
  · rw [(zeros 257).2]
    norm_num
  · rintro ⟨h, _⟩
    have hl := longLabel_length
    rw [← h] at hl
    exact absurd hl (by decide)

structure SessionArguments where
  sharedSecrets : List (FixedBytes 32)
  pkA : Bytes
  pkB : Bytes
  ekA : Bytes
  ciphertexts : List Bytes
  additionalData : Option Bytes

namespace SessionArguments

def inputs (a : SessionArguments) : List Bytes :=
  sessionInputs a.sharedSecrets a.pkA a.pkB a.ekA a.ciphertexts a.additionalData

def hashed (a : SessionArguments) : Bytes := kdfEncode a.inputs sessionLabel

def sessionKey (L : Suite) (a : SessionArguments) : FixedBytes 32 :=
  deriveSessionKey L a.sharedSecrets a.pkA a.pkB a.ekA a.ciphertexts a.additionalData

theorem sessionKey_eq (L : Suite) (a : SessionArguments) :
    a.sessionKey L = L.shake256 a.hashed 32 := rfl

def extra (a : SessionArguments) : Bytes := a.additionalData.getD []

structure Short (a : SessionArguments) : Prop where
  pkA : a.pkA.length < 2^32
  pkB : a.pkB.length < 2^32
  ekA : a.ekA.length < 2^32
  ciphertexts : ∀ ct ∈ a.ciphertexts, ct.length < 2^32
  additionalData : ∀ data, a.additionalData = some data → data.length < 2^32

structure SameRoles (a b : SessionArguments) : Prop where
  sharedSecrets : a.sharedSecrets = b.sharedSecrets
  pkA : a.pkA = b.pkA
  pkB : a.pkB = b.pkB
  ekA : a.ekA = b.ekA
  ciphertexts : a.ciphertexts = b.ciphertexts
  extra : a.extra = b.extra

def lastInput (a : SessionArguments) : List Bytes := if a.extra.isEmpty then [] else [a.extra]

theorem inputs_eq (a : SessionArguments) :
    a.inputs = a.sharedSecrets.map (fun s => s.1) ++ (a.pkA :: a.pkB :: a.ekA ::
      (a.ciphertexts ++ a.lastInput)) := by
  unfold inputs sessionInputs lastInput extra
  cases a.additionalData with
  | none => simp
  | some data => simp

theorem lastInput_injective (a b : SessionArguments) (h : a.lastInput = b.lastInput) :
    a.extra = b.extra := by
  unfold lastInput at h
  split_ifs at h with ha hb hb
  · rw [List.isEmpty_iff.mp ha, List.isEmpty_iff.mp hb]
  · exact List.singleton_inj.mp h

theorem inputs_short (a : SessionArguments) (h : a.Short) :
    ∀ x ∈ a.inputs, x.length < 2^32 := by
  have hlast : ∀ x ∈ a.lastInput, x.length < 2^32 := by
    unfold lastInput extra
    cases hd : a.additionalData with
    | none => simp
    | some data =>
      have := h.additionalData data hd
      split_ifs with he <;> simp_all
  have hsecrets : ∀ x ∈ a.sharedSecrets.map (fun s => s.1), x.length < 2^32 := by
    intro x hx
    obtain ⟨s, _, rfl⟩ := List.mem_map.mp hx
    rw [s.2]
    norm_num
  rw [inputs_eq]
  simp only [List.forall_mem_append, List.forall_mem_cons]
  exact ⟨hsecrets, h.pkA, h.pkB, h.ekA, h.ciphertexts, hlast⟩

theorem sameRoles_of_counts (a b : SessionArguments) (h : a.inputs = b.inputs)
    (hs : a.sharedSecrets.length = b.sharedSecrets.length)
    (hc : a.ciphertexts.length = b.ciphertexts.length) : SameRoles a b := by
  rw [inputs_eq, inputs_eq] at h
  obtain ⟨hsecrets, hrest⟩ := List.append_inj h (by simpa using hs)
  simp only [List.cons.injEq] at hrest
  obtain ⟨hA, hB, hE, htail⟩ := hrest
  obtain ⟨hcts, hlast⟩ := List.append_inj htail hc
  exact ⟨List.map_injective_iff.mpr Subtype.val_injective hsecrets, hA, hB, hE, hcts,
    lastInput_injective a b hlast⟩

end SessionArguments

def withCiphertext : SessionArguments := ⟨[], [], [], [], [[1]], none⟩

def withData : SessionArguments := ⟨[], [], [], [], [], some [1]⟩

theorem withCiphertext_short : withCiphertext.Short := by
  refine ⟨by decide, by decide, by decide, by decide, ?_⟩
  intro data h
  cases h

theorem withData_short : withData.Short := by
  refine ⟨by decide, by decide, by decide, by decide, ?_⟩
  intro data h
  cases h
  decide

/-- Two calls that hash the same bytes have the same arguments in the same roles
exactly when they have as many secrets and as many ciphertexts. -/
theorem session_roles_iff (a b : SessionArguments) (ha : a.Short) (hb : b.Short)
    (h : a.hashed = b.hashed) :
    a.SameRoles b ↔ a.sharedSecrets.length = b.sharedSecrets.length ∧
      a.ciphertexts.length = b.ciphertexts.length := by
  constructor
  · intro hroles
    rw [hroles.sharedSecrets, hroles.ciphertexts]
    exact ⟨rfl, rfl⟩
  · rintro ⟨hs, hc⟩
    obtain ⟨_, hinputs⟩ := kdfEncode_injective sessionLabel sessionLabel _ _ rfl
      (a.inputs_short ha) (b.inputs_short hb) h
    exact a.sameRoles_of_counts b hinputs hs hc

theorem session_roles_iff_data :
    withCiphertext.SameRoles withData ↔
      withCiphertext.sharedSecrets.length = withData.sharedSecrets.length ∧
        withCiphertext.ciphertexts.length = withData.ciphertexts.length :=
  session_roles_iff withCiphertext withData withCiphertext_short withData_short rfl

theorem ciphertext_as_data :
    withCiphertext.Short ∧ withData.Short ∧ withCiphertext.hashed = withData.hashed ∧
      (∀ L, withCiphertext.sessionKey L = withData.sessionKey L) ∧
      ¬ withCiphertext.SameRoles withData := by
  have hhashed : withCiphertext.hashed = withData.hashed := rfl
  refine ⟨withCiphertext_short, withData_short, hhashed, fun L => ?_, fun h => ?_⟩
  · rw [SessionArguments.sessionKey_eq, SessionArguments.sessionKey_eq, hhashed]
  · cases h.ciphertexts

end EirnKcp.KdfEncoding
