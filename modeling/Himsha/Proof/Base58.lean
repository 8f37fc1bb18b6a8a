import Himsha.Lib.Radix
import Himsha.Proof.Inclusion
import Himsha.Sdk.PublicKey

/-!
# Base-58 text in the TypeScript library

Both directions re-spell a string of digits between the bases 256 and 58 and keep the zeros in
front (`base58Encode_bytes`, `base58Decode_spell`), so each undoes the other, and the texts of keys
are exactly the strings that decode to 32 bytes (`base58_inverse`).
-/

set_option autoImplicit false

namespace Himsha
namespace Proof

open Himsha.Lib Himsha.Lib.Radix Himsha.Runtime Himsha.Node Himsha.Sdk Himsha.Sdk.TypeScript
open Himsha.Programs.Lending

/-! ## The digits of either base -/

/-- The string of digits in base 58. -/
def spell (ds : List Nat) : JsString := ds.map digitUnit58

/-- The digits in base 256 that bytes are. -/
def byteDigits (bytes : List UInt8) : List Nat := bytes.map UInt8.toNat

/-- The bytes of digits in base 256. -/
def ofDigits256 (ds : List Nat) : List UInt8 := ds.map UInt8.ofNat

theorem byteDigits_lt (bytes : List UInt8) : ∀ d ∈ byteDigits bytes, d < 256 := by
  intro d hd
  obtain ⟨b, -, rfl⟩ := List.mem_map.mp hd
  exact b.toNat_lt

theorem ofDigits256_byteDigits (bytes : List UInt8) : ofDigits256 (byteDigits bytes) = bytes := by
  unfold ofDigits256 byteDigits
  rw [List.map_map]
  induction bytes with
  | nil => rfl
  | cons b bytes ih => rw [List.map_cons, ih, Function.comp_apply, UInt8.ofNat_toNat]

theorem byteDigits_ofDigits256 {ds : List Nat} (hds : ∀ d ∈ ds, d < 256) :
    byteDigits (ofDigits256 ds) = ds := by
  unfold ofDigits256 byteDigits
  rw [List.map_map]
  induction ds with
  | nil => rfl
  | cons d ds ih =>
    have hd : (UInt8.ofNat d).toNat = d := UInt8.toNat_ofNat_of_lt' (hds d List.mem_cons_self)
    rw [List.map_cons, ih fun d hd => hds d (List.mem_cons_of_mem _ hd), Function.comp_apply, hd]

/-- What the letters of the alphabet are: no halves of a pair, each found at its own place. -/
theorem digitUnit58_fin (d : Fin 58) :
    JsString.isHigh (digitUnit58 d) = false ∧
      indexOf base58Alphabet [digitUnit58 d] = some d.val ∧
      (digitUnit58 d = oneUnit ↔ d.val = 0) := by
  revert d
  decide

section
variable {d : Nat}

theorem isHigh_digitUnit58 (hd : d < 58) : JsString.isHigh (digitUnit58 d) = false :=
  (digitUnit58_fin ⟨d, hd⟩).1

theorem indexOf_digitUnit58 (hd : d < 58) : indexOf base58Alphabet [digitUnit58 d] = some d :=
  (digitUnit58_fin ⟨d, hd⟩).2.1

theorem digitUnit58_eq_one (hd : d < 58) : digitUnit58 d = oneUnit ↔ d = 0 :=
  (digitUnit58_fin ⟨d, hd⟩).2.2

end

/-- Every letter of the alphabet is a digit. -/
theorem exists_digitUnit58 {u : UInt16} (hu : u ∈ base58Alphabet) :
    ∃ d, d < 58 ∧ digitUnit58 d = u := by
  obtain ⟨i, hi⟩ := List.mem_iff_get.mp hu
  have hlt : i.val < 58 := length_base58Alphabet ▸ i.isLt
  refine ⟨i.val, hlt, ?_⟩
  rw [← hi, digitUnit58]
  congr 1
  exact Fin.ext (Nat.mod_eq_of_lt hlt)

/-- What is spelled is over the alphabet. -/
theorem mem_spell {ds : List Nat} {u : UInt16} (hu : u ∈ spell ds) : u ∈ base58Alphabet := by
  obtain ⟨d, -, rfl⟩ := List.mem_map.mp hu
  exact List.get_mem _ _

/-- A string over the alphabet is the spelling of some digits. -/
theorem exists_spell {s : JsString} (hs : ∀ u ∈ s, u ∈ base58Alphabet) :
    ∃ ds, (∀ d ∈ ds, d < 58) ∧ spell ds = s := by
  induction s with
  | nil => exact ⟨[], by simp, rfl⟩
  | cons u s ih =>
    obtain ⟨d, hd, hu⟩ := exists_digitUnit58 (hs u List.mem_cons_self)
    obtain ⟨ds, hds, heq⟩ := ih fun v hv => hs v (List.mem_cons_of_mem _ hv)
    refine ⟨d :: ds, ?_, ?_⟩
    · rintro e (_ | ⟨_, he⟩)
      · exact hd
      · exact hds e he
    · rw [spell, List.map_cons, hu]
      exact congrArg (u :: ·) heq

/-! ## Encoding -/

theorem hexUnit_digit (d : Fin 16) : JsString.hexUnit (digitUnit d) = some d.val := by
  revert d
  decide

/-- The hexadecimal digits of bytes, two for each. -/
theorem mapM_hexEncode (bytes : List UInt8) :
    (JsString.ofText (hexEncode bytes)).mapM JsString.hexUnit =
      some (bytes.flatMap fun b => [(high b).val, (low b).val]) := by
  induction bytes with
  | nil => rfl
  | cons b bytes ih =>
    rw [ofText_hexEncode_cons, List.mapM_cons, List.mapM_cons, hexUnit_digit, hexUnit_digit, ih]
    rfl

/-- Two hexadecimal digits are one of base 256. -/
theorem foldl_hexDigits (bytes : List UInt8) (n : Nat) :
    (bytes.flatMap fun b => [(high b).val, (low b).val]).foldl (fun n d => n * 16 + d) n =
      (byteDigits bytes).foldl (fun n d => n * 256 + d) n := by
  induction bytes generalizing n with
  | nil => rfl
  | cons b bytes ih =>
    have hstep : (n * 16 + (high b).val) * 16 + (low b).val = n * 256 + b.toNat := by
      rw [← high_low b]
      ring
    rw [List.flatMap_cons, List.foldl_append, ih, List.foldl_cons, List.foldl_cons,
      List.foldl_nil, hstep]
    rfl

theorem bigIntOfHex_hexEncode {bytes : List UInt8} (hne : bytes ≠ []) :
    bigIntOfHex (.ofText (hexEncode bytes)) =
      .ok (Nat.ofDigits 256 (byteDigits bytes).reverse) := by
  have htext : JsString.ofText (hexEncode bytes) ≠ [] := by
    cases bytes with
    | nil => exact absurd rfl hne
    | cons b bytes => simp [ofText_hexEncode_cons]
  unfold bigIntOfHex
  rw [if_neg htext, mapM_hexEncode]
  change Except.ok (List.foldl _ 0 _) = _
  rw [foldl_hexDigits, foldl_eq_ofDigits, Nat.zero_mul, Nat.zero_add]

theorem encodeLoop_eq (num : Nat) (result : JsString) :
    encodeLoop num result = spell (Nat.digits 58 num).reverse ++ result := by
  induction num, result using encodeLoop.induct with
  | case1 num result hpos ih =>
    rw [encodeLoop, if_pos hpos, ih, Nat.digits_def' (by decide) hpos, List.reverse_cons, spell,
      spell, List.map_append, List.append_assoc]
    -- The loop indexes with the remainder, which is its own remainder.
    have hdigit : digitUnit58 (num % 58) = digitUnit58 num := by simp [digitUnit58]
    rw [List.map_singleton, hdigit]
    rfl
  | case2 num result hzero =>
    obtain rfl : num = 0 := Nat.eq_zero_of_not_pos hzero
    rw [encodeLoop, if_neg hzero, Nat.digits_zero]
    rfl

theorem encodeZeros_eq (bytes : List UInt8) (result : JsString) :
    encodeZeros bytes result = spell (List.replicate (zeros (byteDigits bytes)) 0) ++ result := by
  induction bytes generalizing result with
  | nil => rfl
  | cons b bytes ih =>
    have hzero : b = 0 ↔ b.toNat = 0 := by
      rw [← UInt8.toNat_inj]
      rfl
    rw [encodeZeros, byteDigits, List.map_cons, zeros]
    by_cases hb : b = 0
    · rw [if_pos hb, if_pos (hzero.mp hb), ih, List.replicate_succ', spell, spell,
        List.map_append, List.append_assoc]
      rfl
    · rw [if_neg hb, if_neg (hzero.not.mp hb)]
      rfl

theorem base58Encode_bytes {bytes : List UInt8} (hne : bytes ≠ []) :
    base58Encode bytes = .ok (spell (recode 256 58 (byteDigits bytes))) := by
  unfold base58Encode
  rw [bigIntOfHex_hexEncode hne]
  change Except.ok (encodeZeros bytes (encodeLoop _ [])) = _
  rw [encodeZeros_eq, encodeLoop_eq, List.append_nil, recode, spell, spell, spell, List.map_append]

/-! ## Decoding -/

theorem codePoints_spell {ds : List Nat} (hds : ∀ d ∈ ds, d < 58) :
    codePoints (spell ds) = ds.map fun d => [digitUnit58 d] := by
  unfold spell
  induction ds with
  | nil => rfl
  | cons d ds ih =>
    have ih := ih fun e he => hds e (List.mem_cons_of_mem _ he)
    cases ds with
    | nil => rfl
    | cons e ds =>
      have hhigh := isHigh_digitUnit58 (hds d List.mem_cons_self)
      rw [List.map_cons, List.map_cons, codePoints, hhigh, Bool.false_and, if_neg (by simp),
        ← List.map_cons, ih]
      rfl

theorem decodeChar_digit {d : Nat} (num : Nat) (hd : d < 58) :
    decodeChar num [digitUnit58 d] = .ok (num * 58 + d) := by
  unfold decodeChar
  rw [indexOf_digitUnit58 hd]

theorem foldlM_decodeChar {ds : List Nat} (num : Nat) (hds : ∀ d ∈ ds, d < 58) :
    (ds.map fun d => [digitUnit58 d]).foldlM decodeChar num =
      .ok (ds.foldl (fun n d => n * 58 + d) num) := by
  induction ds generalizing num with
  | nil => rfl
  | cons d ds ih =>
    rw [List.map_cons, List.foldlM_cons, decodeChar_digit num (hds d List.mem_cons_self)]
    exact ih _ fun e he => hds e (List.mem_cons_of_mem _ he)

theorem decodeLoop_eq (num : Nat) (bytes : List UInt8) :
    decodeLoop num bytes = ofDigits256 (Nat.digits 256 num).reverse ++ bytes := by
  induction num, bytes using decodeLoop.induct with
  | case1 num bytes hpos ih =>
    have hlow : num &&& 0xff = num % 256 := Nat.and_two_pow_sub_one_eq_mod num 8
    have hrest : num >>> 8 = num / 256 := Nat.shiftRight_eq_div_pow num 8
    rw [hlow, hrest] at ih
    rw [decodeLoop, if_pos hpos, hlow, hrest, ih, Nat.digits_def' (by decide) hpos,
      List.reverse_cons, ofDigits256, ofDigits256, List.map_append, List.append_assoc]
    rfl
  | case2 num bytes hzero =>
    obtain rfl : num = 0 := Nat.eq_zero_of_not_pos hzero
    rw [decodeLoop, if_neg hzero, Nat.digits_zero]
    rfl

theorem decodeOnes_eq {ds : List Nat} (bytes : List UInt8) (hds : ∀ d ∈ ds, d < 58) :
    decodeOnes (ds.map fun d => [digitUnit58 d]) bytes =
      ofDigits256 (List.replicate (zeros ds) 0) ++ bytes := by
  induction ds generalizing bytes with
  | nil => rfl
  | cons d ds ih =>
    have hone : [digitUnit58 d] = [oneUnit] ↔ d = 0 := by
      rw [List.singleton_inj, digitUnit58_eq_one (hds d List.mem_cons_self)]
    rw [List.map_cons, decodeOnes, zeros]
    by_cases hd : d = 0
    · rw [if_pos (hone.mpr hd), if_pos hd, ih _ fun e he => hds e (List.mem_cons_of_mem _ he),
        List.replicate_succ', ofDigits256, ofDigits256, List.map_append, List.append_assoc]
      rfl
    · rw [if_neg (hone.not.mpr hd), if_neg hd]
      rfl

theorem base58Decode_spell {ds : List Nat} (hds : ∀ d ∈ ds, d < 58) :
    base58Decode (spell ds) = .ok (ofDigits256 (recode 58 256 ds)) := by
  unfold base58Decode
  rw [codePoints_spell hds, foldlM_decodeChar 0 hds, foldl_eq_ofDigits, Nat.zero_mul,
    Nat.zero_add]
  change Except.ok (decodeOnes _ (decodeLoop _ [])) = _
  rw [decodeOnes_eq _ hds, decodeLoop_eq, List.append_nil, recode, ofDigits256, ofDigits256,
    ofDigits256, List.map_append]

theorem base58Decode_nil : base58Decode [] = .ok [] := by
  change Except.ok (decodeOnes [] (decodeLoop 0 [])) = _
  rw [decodeLoop_eq, Nat.digits_zero]
  rfl

/-! ## What decodes -/

/-- A string that is found in the alphabet begins with one of its letters. -/
theorem mem_of_indexOf {u : UInt16} {rest : JsString} {i : Nat}
    (h : indexOf base58Alphabet (u :: rest) = some i) : u ∈ base58Alphabet := by
  have hfound := List.find?_some h
  obtain ⟨tail, htail⟩ := List.isPrefixOf_iff_prefix.mp hfound
  apply List.mem_of_mem_drop (i := i)
  rw [← htail]
  exact List.mem_append_left _ List.mem_cons_self

theorem not_isHigh_of_mem {u : UInt16} (hu : u ∈ base58Alphabet) : JsString.isHigh u = false := by
  obtain ⟨d, hd, rfl⟩ := exists_digitUnit58 hu
  exact isHigh_digitUnit58 hd

/-- Where each code point is found in the alphabet, so is each unit. -/
theorem mem_of_codePoints (s : JsString)
    (hs : ∀ char ∈ codePoints s, ∃ i, indexOf base58Alphabet char = some i) :
    ∀ u ∈ s, u ∈ base58Alphabet := by
  induction s using codePoints.induct with
  | case1 => simp
  | case2 u =>
    obtain ⟨i, hi⟩ := hs [u] List.mem_cons_self
    intro v hv
    obtain rfl := List.mem_singleton.mp hv
    exact mem_of_indexOf hi
  | case3 u v rest hpair ih =>
    -- A pair is never found: no letter of the alphabet begins one.
    rw [codePoints, if_pos hpair] at hs
    obtain ⟨i, hi⟩ := hs [u, v] List.mem_cons_self
    have hlow := not_isHigh_of_mem (mem_of_indexOf hi)
    simp [hlow] at hpair
  | case4 u v rest hsingle ih =>
    rw [codePoints, if_neg hsingle] at hs
    obtain ⟨i, hi⟩ := hs [u] List.mem_cons_self
    rintro w (_ | ⟨_, hw⟩)
    · exact mem_of_indexOf hi
    · exact ih (fun char hchar => hs char (List.mem_cons_of_mem _ hchar)) w hw

theorem indexOf_of_foldlM {chars : List JsString} {num n : Nat}
    (h : chars.foldlM decodeChar num = .ok n) :
    ∀ char ∈ chars, ∃ i, indexOf base58Alphabet char = some i := by
  induction chars generalizing num with
  | nil => simp
  | cons char chars ih =>
    rw [List.foldlM_cons, decodeChar] at h
    cases hi : indexOf base58Alphabet char with
    | none =>
      rw [hi] at h
      cases h
    | some i =>
      rw [hi] at h
      rintro c (_ | ⟨_, hc⟩)
      · exact ⟨i, hi⟩
      · exact ih h c hc

theorem mem_of_base58Decode {s : JsString} {bytes : List UInt8}
    (h : base58Decode s = .ok bytes) : ∀ u ∈ s, u ∈ base58Alphabet := by
  unfold base58Decode at h
  cases hnum : (codePoints s).foldlM decodeChar 0 with
  | error e =>
    rw [hnum] at h
    cases h
  | ok n => exact mem_of_codePoints s (indexOf_of_foldlM hnum)

/-! ## There and back -/

theorem base58Decode_encode {bytes : List UInt8} (hne : bytes ≠ []) :
    ∃ s, base58Encode bytes = .ok s ∧ base58Decode s = .ok bytes := by
  refine ⟨_, base58Encode_bytes hne, ?_⟩
  rw [base58Decode_spell (recode_lt (by decide)),
    recode_recode (by decide) (byteDigits_lt bytes), ofDigits256_byteDigits]

theorem base58Encode_decode {s : JsString} (hne : s ≠ []) (hs : ∀ u ∈ s, u ∈ base58Alphabet) :
    ∃ bytes, base58Decode s = .ok bytes ∧ base58Encode bytes = .ok s := by
  obtain ⟨ds, hds, rfl⟩ := exists_spell hs
  have hdigits : ds ≠ [] := by
    rintro rfl
    exact hne rfl
  have hbytes : ofDigits256 (recode 58 256 ds) ≠ [] := by
    intro h
    exact recode_ne_nil (by decide) hds hdigits (List.map_eq_nil_iff.mp h)
  refine ⟨_, base58Decode_spell hds, ?_⟩
  rw [base58Encode_bytes hbytes, byteDigits_ofDigits256 (recode_lt (by decide)),
    recode_recode (by decide) hds]

theorem fromBase58_eq_ok {s : JsString} {key : Pubkey} :
    HimshaPublicKey.fromBase58 s = .ok key ↔ base58Decode s = .ok key.bytes.bytes := by
  unfold HimshaPublicKey.fromBase58
  cases base58Decode s with
  | error e => simp [bind, Except.bind]
  | ok bytes =>
    change HimshaPublicKey.ofBytes bytes = .ok key ↔ Except.ok bytes = .ok key.bytes.bytes
    rw [HimshaPublicKey.ofBytes_eq_ok, Except.ok.injEq, eq_comm]

theorem key_ne_nil (key : Pubkey) : key.bytes.bytes ≠ [] := by
  intro h
  have hlength := key.bytes.length_eq
  rw [h] at hlength
  cases hlength

/-- Only a string of at least one letter decodes to the bytes of a key. -/
theorem toBase58_iff_fromBase58 {s : JsString} {key : Pubkey} :
    HimshaPublicKey.toBase58 key = .ok s ↔ HimshaPublicKey.fromBase58 s = .ok key := by
  have hkey := key_ne_nil key
  rw [fromBase58_eq_ok, HimshaPublicKey.toBase58]
  constructor
  · intro h
    obtain ⟨t, hencode, hdecode⟩ := base58Decode_encode hkey
    rw [hencode] at h
    rw [← Except.ok.inj h]
    exact hdecode
  · intro h
    have hne : s ≠ [] := by
      rintro rfl
      rw [base58Decode_nil] at h
      exact hkey (Except.ok.inj h).symm
    obtain ⟨bytes, hdecode, hencode⟩ := base58Encode_decode hne (mem_of_base58Decode h)
    rw [hdecode] at h
    rw [← Except.ok.inj h]
    exact hencode

/-- Decoding undoes encoding on every array that is not empty, and encoding undoes decoding on
    every string over the alphabet that is not empty. So the keys and the strings that decode to
    32 bytes stand for each other: each key has a text, each of these strings is read as a key, and
    `toBase58` and `fromBase58` undo each other. -/
theorem base58_inverse :
    (∀ bytes : List UInt8, bytes ≠ [] →
      ∃ s, base58Encode bytes = .ok s ∧ base58Decode s = .ok bytes) ∧
    (∀ s : JsString, s ≠ [] → (∀ u ∈ s, u ∈ base58Alphabet) →
      ∃ bytes, base58Decode s = .ok bytes ∧ base58Encode bytes = .ok s) ∧
    (∀ key, ∃ s, HimshaPublicKey.toBase58 key = .ok s) ∧
    (∀ s bytes, base58Decode s = .ok bytes → bytes.length = 32 →
      ∃ key, HimshaPublicKey.fromBase58 s = .ok key ∧ key.bytes.bytes = bytes) ∧
    ∀ key s, HimshaPublicKey.toBase58 key = .ok s ↔ HimshaPublicKey.fromBase58 s = .ok key := by
  refine ⟨fun _ => base58Decode_encode, fun _ => base58Encode_decode, ?_, ?_, ?_⟩
  · intro key
    exact ⟨_, base58Encode_bytes (key_ne_nil key)⟩
  · intro s bytes hdecode hlength
    exact ⟨⟨⟨bytes, hlength⟩⟩, fromBase58_eq_ok.mpr hdecode, rfl⟩
  · intro key s
    exact toBase58_iff_fromBase58

/-- Two zero bytes before a number, and two ones before a digit. -/
theorem base58_inverse_zeros :
    (∃ s, base58Encode [0, 0, 57] = .ok s ∧ base58Decode s = .ok [0, 0, 57]) ∧
    (∃ bytes, base58Decode (.ofText "11z") = .ok bytes ∧
      base58Encode bytes = .ok (.ofText "11z")) ∧
    ∃ key, HimshaPublicKey.fromBase58 (.ofText "11111111111111111111111111111111") = .ok key ∧
      key.bytes.bytes = List.replicate 32 0 := by
  have hones : base58Decode (.ofText "11111111111111111111111111111111") =
      .ok (List.replicate 32 0) := by
    have hspell : JsString.ofText "11111111111111111111111111111111" =
        spell (List.replicate 32 0) := by decide
    have hdigits : ∀ d ∈ List.replicate 32 0, d < 58 := by
      intro d hd
      rw [List.eq_of_mem_replicate hd]
      decide
    rw [hspell, base58Decode_spell hdigits]
    simp [recode, zeros, ofDigits256, List.replicate_succ, Nat.ofDigits]
  have hover : ∀ u ∈ JsString.ofText "11z", u ∈ base58Alphabet := by
    have hspell : JsString.ofText "11z" = spell [0, 0, 57] := by decide
    rw [hspell]
    exact fun u hu => mem_spell hu
  exact ⟨base58_inverse.1 _ (by decide), base58_inverse.2.1 _ (by decide) hover,
    base58_inverse.2.2.2.1 _ _ hones (by decide)⟩

end Proof
end Himsha
