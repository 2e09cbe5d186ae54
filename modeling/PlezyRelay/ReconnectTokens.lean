/-
  PlezyRelay/ReconnectTokens.lean
  ===============================
  **Reconnect tokens and verifiers as texts** (`ids.rs`).

  Base64 and SHA-256 are parameters.  What the source needs of base64 are three laws on
  strings of 32 bytes (`TokenCodec.Canonical`): what is encoded is decoded again, what is
  decoded is encoded as the same text (no padding, no stray bits), and the text has the
  length that `from_token` asks for.  Given these, a token is accepted exactly if it is
  *the* text of some 32 bytes, and a verifier is restored from *the* text of its digest.
-/
import Mathlib.Data.Nat.Digits.Lemmas
import PlezyRelay.Protocol

namespace PlezyRelay

/-- What the source relies on of the base64 it uses, for 32 bytes. -/
structure TokenCodec.Canonical [TokenCodec] : Prop where
  decode_encode {raw : List UInt8} (h : raw.length = 32) : decode (encode raw) = some raw
  encode_decode {text : String} {raw : List UInt8} (h : raw.length = 32)
    (hdecode : decode text = some raw) : encode raw = text
  encode_size {raw : List UInt8} (h : raw.length = 32) :
    (encode raw).utf8ByteSize = RECONNECT_TOKEN_ENCODED_LEN

section Laws

variable [TokenCodec] (hcodec : TokenCodec.Canonical)

include hcodec

/-- A token is accepted exactly if it is the text of 32 bytes, whose hash it then stands
    for. -/
theorem fromToken_eq_some_iff {token : String} {v : Verifier} :
    Verifier.fromToken token = some v ↔
      ∃ raw, raw.length = RECONNECT_TOKEN_BYTES ∧ token = TokenCodec.encode raw ∧
        v = ⟨TokenCodec.sha256 raw⟩ := by
  unfold Verifier.fromToken
  constructor
  · intro h
    split at h
    · cases h
    · split at h
      · cases h
      · rename_i raw hraw
        split at h
        · cases h
        · rename_i hlen
          have hlen := Decidable.not_not.mp hlen
          exact ⟨raw, hlen, (hcodec.encode_decode hlen hraw).symm, (Option.some.inj h).symm⟩
  · rintro ⟨raw, hlen, rfl, rfl⟩
    rw [if_neg (by simp [hcodec.encode_size hlen]), hcodec.decode_encode hlen]
    exact if_neg (by simp [hlen])

/-- The persisted form of a verifier is the only text it is restored from. -/
theorem fromEncoded_eq_some_iff {text : String} {v : Verifier} :
    Verifier.fromEncoded text = some v ↔ text = v.encode := by
  unfold Verifier.fromEncoded Verifier.encode
  constructor
  · intro h
    split at h
    · cases h
    · rename_i raw hraw
      split at h
      · rename_i hsize
        cases h
        exact (hcodec.encode_decode hsize hraw).symm
      · cases h
  · rintro rfl
    obtain ⟨⟨bytes, hsize⟩⟩ := v
    rw [Vector.toList_mk, hcodec.decode_encode (by simpa using hsize)]
    simp [hsize]

end Laws

/-- The last `m` digits of a number, lowest first. -/
def numeral (b m n : ℕ) : List ℕ := (List.range m).map fun i => n / b ^ i % b

theorem ofDigits_numeral (b m n : ℕ) : Nat.ofDigits b (numeral b m n) = n % b ^ m := by
  induction m with
  | zero => simp [numeral, Nat.mod_one]
  | succ m ih =>
      have hsplit : numeral b (m + 1) n = numeral b m n ++ [n / b ^ m % b] := by
        simp [numeral, List.range_succ]
      rw [hsplit, Nat.ofDigits_append, ih, Nat.ofDigits_singleton, numeral, List.length_map,
        List.length_range, Nat.mod_pow_succ]

/-- 32 bytes as the 43 digits of a number, in base 64. -/
def numeralText (raw : List UInt8) : String :=
  String.ofList ((numeral 64 43 (Nat.ofDigits 256 (raw.map UInt8.toNat))).map
    fun d => Char.ofNat (48 + d))

/-- The bytes of such a text. -/
def numeralBytes (text : String) : List UInt8 :=
  (numeral 256 32 (Nat.ofDigits 64 (text.toList.map fun c => c.toNat - 48))).map UInt8.ofNat

/-- Any one-to-one spelling will do, and any hash. -/
@[reducible] def numeralCodec (sha256 : List UInt8 → Vector UInt8 32) : TokenCodec where
  decode text :=
    if numeralText (numeralBytes text) = text then some (numeralBytes text) else none
  encode := numeralText
  sha256 := sha256

theorem numeral_lt {b : ℕ} (hb : 0 < b) (m n : ℕ) : ∀ d ∈ numeral b m n, d < b := by
  intro d hd
  obtain ⟨i, _, rfl⟩ := List.mem_map.mp hd
  exact Nat.mod_lt _ hb

/-- The digits are characters of one byte. -/
theorem digit_spec : ∀ d < 64, (Char.ofNat (48 + d)).toNat = 48 + d ∧
    (Char.ofNat (48 + d)).utf8Size = 1 := by
  decide

theorem numeralBytes_text {raw : List UInt8} (h : raw.length = 32) :
    numeralBytes (numeralText raw) = raw := by
  have hbytes : ∀ d ∈ raw.map UInt8.toNat, d < 256 := by
    intro d hd
    obtain ⟨b, _, rfl⟩ := List.mem_map.mp hd
    exact b.toNat_lt
  have hlt : Nat.ofDigits 256 (raw.map UInt8.toNat) < 256 ^ 32 := by
    have hpow := Nat.ofDigits_lt_base_pow_length (by decide : 1 < 256) hbytes
    rwa [List.length_map, h] at hpow
  -- the text has the digits of the number
  have hdigits : (numeralText raw).toList.map (fun c => c.toNat - 48) =
      numeral 64 43 (Nat.ofDigits 256 (raw.map UInt8.toNat)) := by
    rw [numeralText, String.toList_ofList, List.map_map]
    conv_rhs => rw [← List.map_id (numeral 64 43 _)]
    apply List.map_congr_left
    intro d hd
    simp [(digit_spec d (numeral_lt (by decide) _ _ d hd)).1]
  have hnumber : numeral 256 32 (Nat.ofDigits 256 (raw.map UInt8.toNat)) = raw.map UInt8.toNat := by
    apply Nat.ofDigits_inj_of_len_eq (by decide : 1 < 256) (by simp [numeral, h])
      (numeral_lt (by decide) _ _) hbytes
    rw [ofDigits_numeral, Nat.mod_eq_of_lt hlt]
  rw [numeralBytes, hdigits, ofDigits_numeral, Nat.mod_eq_of_lt (Nat.lt_trans hlt (by decide)),
    hnumber, List.map_map]
  simp [Function.comp_def]

theorem numeralText_size (raw : List UInt8) : (numeralText raw).utf8ByteSize = 43 := by
  have hsize : ∀ digits : List ℕ, (∀ d ∈ digits, d < 64) →
      (String.ofList (digits.map fun d => Char.ofNat (48 + d))).utf8ByteSize = digits.length := by
    intro digits
    induction digits with
    | nil => intro _; rfl
    | cons d digits ih =>
        intro hlt
        have hrest := ih fun d' hd' => hlt d' (List.mem_cons_of_mem d hd')
        have hone := (digit_spec d (hlt d List.mem_cons_self)).2
        rw [List.map_cons, String.ofList_cons, String.utf8ByteSize_append,
          String.utf8ByteSize_singleton, hrest, hone, List.length_cons, Nat.add_comm]
  rw [numeralText, hsize _ (numeral_lt (by decide) _ _)]
  simp [numeral]

theorem numeralCodec_canonical (sha256 : List UInt8 → Vector UInt8 32) :
    letI := numeralCodec sha256; TokenCodec.Canonical := by
  let _ := numeralCodec sha256
  constructor
  · intro raw h
    show (if numeralText (numeralBytes (numeralText raw)) = numeralText raw then
      some (numeralBytes (numeralText raw)) else none) = some raw
    rw [numeralBytes_text h, if_pos rfl]
  · intro text raw _ hdecode
    replace hdecode : (if numeralText (numeralBytes text) = text then some (numeralBytes text)
      else none) = some raw := hdecode
    split at hdecode
    · rename_i htext
      cases hdecode
      exact htext
    · cases hdecode
  · intro raw _
    exact numeralText_size raw

end PlezyRelay
