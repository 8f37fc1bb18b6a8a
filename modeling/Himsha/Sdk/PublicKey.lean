import Himsha.Sdk.StateProof

/-!
# `pubkey.ts`

Base-58 text of a key in the TypeScript library. A `bigint` is a natural number here, since none of
the loops meets a negative one; a key of the library is 32 bytes, like the node's.
-/

set_option autoImplicit false

namespace Himsha
namespace Sdk
namespace TypeScript

open Himsha.Lib Himsha.Runtime Himsha.Programs

/-- What is thrown. -/
inductive JsError where
  /-- `BigInt` of a text that is no number. -/
  | syntaxError
  | error (message : JsString)
deriving DecidableEq

/-- The strings that `for (const char of str)` goes through: a pair of surrogates is one. -/
def codePoints : JsString → List JsString
  | [] => []
  | [u] => [[u]]
  | u :: v :: rest =>
      if JsString.isHigh u && JsString.isLow v then [u, v] :: codePoints rest
      else [u] :: codePoints (v :: rest)

/-- `s.indexOf(pattern)`, `none` for -1. -/
def indexOf (s pattern : JsString) : Option Nat :=
  (List.range (s.length + 1)).find? fun i => pattern.isPrefixOf (s.drop i)

/-- `BigInt('0x' + digits)`, which takes at least one digit and nothing else. -/
def bigIntOfHex (digits : JsString) : Except JsError Nat :=
  if digits = [] then .error .syntaxError
  else match digits.mapM JsString.hexUnit with
    | some values => .ok (values.foldl (fun n d => n * 16 + d) 0)
    | none => .error .syntaxError

def base58Alphabet : JsString :=
  .ofText "123456789ABCDEFGHJKLMNPQRSTUVWXYZabcdefghijkmnopqrstuvwxyz"

theorem length_base58Alphabet : base58Alphabet.length = 58 := by decide

/-- The unit `BASE58_ALPHABET[Number(num % base)]`. -/
def digitUnit58 (num : Nat) : UInt16 :=
  base58Alphabet.get ⟨num % 58, length_base58Alphabet ▸ Nat.mod_lt num (by decide)⟩

/-- The unit of `'1'`. -/
def oneUnit : UInt16 := 0x31

/-- The `while` loop of `base58Encode`. -/
def encodeLoop (num : Nat) (result : JsString) : JsString :=
  if 0 < num then encodeLoop (num / 58) (digitUnit58 num :: result) else result
termination_by num
decreasing_by omega

/-- Its `for` loop: a `'1'` for each zero byte in front. -/
def encodeZeros : List UInt8 → JsString → JsString
  | [], result => result
  | byte :: bytes, result =>
      if byte = 0 then encodeZeros bytes (oneUnit :: result) else result

/-- The `|| '0'` binds weaker than the `+` before it, so it never decides: no bytes make the text
    `0x`, which is no number. -/
def base58Encode (bytes : List UInt8) : Except JsError JsString := do
  let num ← bigIntOfHex (.ofText (Lending.hexEncode bytes))
  return encodeZeros bytes (encodeLoop num [])

/-- The body of the first loop of `base58Decode`. -/
def decodeChar (num : Nat) (char : JsString) : Except JsError Nat :=
  match indexOf base58Alphabet char with
  | none => .error (.error (.ofText "Invalid base58 character: " ++ char))
  | some idx => .ok (num * 58 + idx)

/-- Its `while` loop. -/
def decodeLoop (num : Nat) (bytes : List UInt8) : List UInt8 :=
  if 0 < num then decodeLoop (num >>> 8) (UInt8.ofNat (num &&& 0xff) :: bytes) else bytes
termination_by num
decreasing_by
  rw [Nat.shiftRight_eq_div_pow]
  omega

/-- Its second `for` loop: a zero byte for each `'1'` in front. -/
def decodeOnes : List JsString → List UInt8 → List UInt8
  | [], bytes => bytes
  | char :: chars, bytes =>
      if char = [oneUnit] then decodeOnes chars (0 :: bytes) else bytes

def base58Decode (str : JsString) : Except JsError (List UInt8) := do
  let num ← (codePoints str).foldlM decodeChar 0
  return decodeOnes (codePoints str) (decodeLoop num [])

namespace HimshaPublicKey

/-- What the constructor does with the bytes that it was given or has decoded. -/
def ofBytes (bytes : List UInt8) : Except JsError Pubkey :=
  if h : bytes.length = 32 then .ok ⟨⟨bytes, h⟩⟩
  else .error (.error (.ofText ("PublicKey must be 32 bytes, got " ++ toString bytes.length)))

def fromBase58 (s : JsString) : Except JsError Pubkey := do
  let bytes ← base58Decode s
  ofBytes bytes

def toBase58 (key : Pubkey) : Except JsError JsString := base58Encode key.bytes.bytes

theorem ofBytes_eq_ok {bytes : List UInt8} {key : Pubkey} :
    ofBytes bytes = .ok key ↔ key.bytes.bytes = bytes := by
  unfold ofBytes
  constructor
  · intro h
    split at h
    · rw [← Except.ok.inj h]
    · cases h
  · rintro rfl
    rw [dif_pos key.bytes.length_eq]

end HimshaPublicKey

end TypeScript
end Sdk
end Himsha
