import Himsha.Node.Faucet
import Himsha.Node.Store
import Himsha.Sdk.JsString

/-!
# `stateProof.ts`, `state_proof.py` and `state_proof.dart`

What `himsha_getStateProof` answers, and the verifiers of the three client libraries. They climb by
the siblings in one way (`Reader`) and differ in how they read and write hexadecimals and in what an
integer is: a JavaScript number is a double, a Python `int` has no bound, and a Dart `int` is that
of the virtual machine, with 64 bits.
-/

set_option autoImplicit false

namespace Himsha
namespace Sdk

open Himsha.Lib Himsha.Runtime Himsha.Runtime.Merkle Himsha.Node Himsha.Programs.Lending

/-! ## The answer -/

/-- The state root that was committed to Bitcoin last. -/
structure AnchorRecord where
  slot : UInt64
  stateRoot : Blob 32
  btcTxid : String

/-- The JSON object of an inclusion proof. -/
structure StateProof where
  stateRoot : String
  leaf : String
  index : UInt64
  siblings : List String
  anchoredSlot : Option UInt64
  anchoredStateRoot : Option String
  anchoredBtcTxid : Option String

/-- A proof next to the root it verifies against, in hexadecimals. -/
def StateProof.ofProof (proof : MerkleProof (Blob 32)) (root : Blob 32)
    (anchor : Option AnchorRecord) : StateProof where
  stateRoot := hexEncode root.bytes
  leaf := hexEncode proof.leaf.bytes
  index := proof.index
  siblings := proof.siblings.map fun sib => hexEncode sib.bytes
  anchoredSlot := anchor.map (·.slot)
  anchoredStateRoot := anchor.map fun a => hexEncode a.stateRoot.bytes
  anchoredBtcTxid := anchor.map (·.btcTxid)

/-- `get_state_proof`. -/
def getStateProof (decode : String → Except String (List UInt8)) (db : Store)
    (anchor : Option AnchorRecord) (pubkey : String) :
    Outcome (Except RpcError (Option StateProof)) :=
  match fromBase58 decode pubkey with
  | .error e => return .error ⟨-32003, e⟩
  | .ok key => do
      let found ← db.stateProof .sha key
      return .ok (found.map fun (proof, root) => .ofProof proof root anchor)

/-! ## The verifiers -/

/-- The fields of a proof that a verifier reads, as its library has them. -/
structure ReceivedProof (S : Type) where
  leaf : S
  index : Nat
  siblings : List S

/-- What a library does in its own way. `none` is an exception. -/
structure Reader (S : Type) where
  fromHex : S → Option (List UInt8)
  toHex : List UInt8 → S
  toLower : S → S
  /-- `(idx & 1) == 0`. -/
  isEven : Nat → Bool
  /-- The index one level up. -/
  half : Nat → Nat

namespace Reader

/-- Leaf hash for an account: `SHA-256(0x00 ‖ key ‖ accountBytes)`. -/
def leafHash (key accountBytes : List UInt8) : List UInt8 :=
  (sha256 (0x00 :: key ++ accountBytes)).bytes

/-- Internal-node hash: `SHA-256(0x01 ‖ left ‖ right)`. -/
def nodeHash (left right : List UInt8) : List UInt8 := (sha256 (0x01 :: left ++ right)).bytes

variable {S : Type} (r : Reader S)

def step (state : List UInt8 × Nat) (sibHex : S) : Option (List UInt8 × Nat) := do
  let (h, idx) := state
  let sib ← r.fromHex sibHex
  return (if r.isEven idx then nodeHash h sib else nodeHash sib h, r.half idx)

def verifyStateProof [DecidableEq S] (proof : ReceivedProof S) (root : S) : Option Bool := do
  let leaf ← r.fromHex proof.leaf
  let (h, _) ← proof.siblings.foldlM r.step (leaf, proof.index)
  return r.toHex h = r.toLower root

/-- The account bytes are what is committed under the proof. -/
def verifyAccountInState [DecidableEq S] (key accountBytes : List UInt8) (proof : ReceivedProof S)
    (root : S) : Option Bool :=
  if r.toHex (leafHash key accountBytes) ≠ r.toLower proof.leaf then some false
  else r.verifyStateProof proof root

end Reader

/-! ## Hexadecimals on code units -/

namespace JsString

/-- The value of a digit. -/
def hexUnit (u : UInt16) : Option Nat := hexValue (lone u)

/-- The letters outside ASCII have no lower case among the digits. -/
def lowerUnit (u : UInt16) : UInt16 := if 0x41 ≤ u ∧ u ≤ 0x5A then u + 0x20 else u

/-- `toLowerCase`, as far as a comparison with digits sees it. -/
def toLower (s : JsString) : JsString := s.map lowerUnit

/-- An optional sign; whether it is a minus. -/
def sign : JsString → Bool × JsString
  | 0x2D :: s => (true, s)
  | 0x2B :: s => (false, s)
  | s => (false, s)

/-- The number that digits stand for. -/
def ofDigits (negative : Bool) (digits : List Nat) : Int :=
  let n : Nat := digits.foldl (fun n d => 16 * n + d) 0
  if negative then -n else n

/-- `x.toString(16).padStart(2, '0')`. -/
def padded (x : UInt8) : List Char :=
  let digits := Nat.toDigits 16 x.toNat
  List.replicate (2 - digits.length) '0' ++ digits

/-- The bytes one after the other, with two digits each. -/
def toHex (bytes : List UInt8) : JsString := ofText (String.ofList (bytes.flatMap padded))

/-- Two units at a time; a number is stored in its low 8 bits. -/
def fromHex (parse : JsString → Option Int) : JsString → Option (List UInt8)
  | [] => some []
  | [_] => none
  | u :: v :: s => do
      let byte := UInt8.ofInt (← parse [u, v])
      return byte :: (← fromHex parse s)

end JsString

/-! ## `stateProof.ts` -/

namespace TypeScript

/-- A number of a JSON text is rounded to the nearest double, a tie to the even one. -/
def number (n : UInt64) : Nat :=
  let ulp := 2 ^ (n.toNat.log2 - 52)
  let q := n.toNat / ulp
  let r := n.toNat % ulp
  if ulp < 2 * r ∨ ulp = 2 * r ∧ q % 2 = 1 then (q + 1) * ulp else q * ulp

/-- The units that `parseInt` skips. -/
def isSpace (u : UInt16) : Bool :=
  [0x09, 0x0A, 0x0B, 0x0C, 0x0D, 0x20, 0xA0, 0x1680, 0x2028, 0x2029, 0x202F, 0x205F, 0x3000,
    0xFEFF].contains u || (0x2000 ≤ u && u ≤ 0x200A)

/-- `parseInt(s, 16)`; `none` is `NaN`. -/
def parseInt16 (s : JsString) : Option Int :=
  let (negative, s) := JsString.sign (s.dropWhile isSpace)
  let s := match s with
    | 0x30 :: 0x78 :: s => s
    | 0x30 :: 0x58 :: s => s
    | s => s
  match (s.map JsString.hexUnit).takeWhile Option.isSome with
  | [] => none
  | digits => some (JsString.ofDigits negative digits.reduceOption)

/-- A `NaN` is stored as 0. -/
def fromHex : JsString → Option (List UInt8) :=
  JsString.fromHex fun s => some ((parseInt16 s).getD 0)

def reader : Reader JsString where
  fromHex := fromHex
  toHex := JsString.toHex
  toLower := JsString.toLower
  -- `&` works on the low 32 bits.
  isEven idx := idx % 2 ^ 32 &&& 1 = 0
  -- `Math.floor(idx / 2)`
  half idx := idx / 2

/-- The proof as `JSON.parse` has it. -/
def received (proof : StateProof) : ReceivedProof JsString where
  leaf := .ofText proof.leaf
  index := number proof.index
  siblings := proof.siblings.map .ofText

def verifyStateProof (proof : ReceivedProof JsString) (root : JsString) : Option Bool :=
  reader.verifyStateProof proof root

def verifyAccountInState (key accountBytes : List UInt8) (proof : ReceivedProof JsString)
    (root : JsString) : Option Bool :=
  reader.verifyAccountInState key accountBytes proof root

end TypeScript

/-! ## `state_proof.py` -/

namespace Python

/-- The characters that `bytes.fromhex` skips between bytes. -/
def isSpace (c : Char) : Bool := [0x09, 0x0A, 0x0B, 0x0C, 0x0D, 0x20].contains c.toNat

/-- `bytes.fromhex`. -/
def fromHex : List Char → Option (List UInt8)
  | [] => some []
  | [c] => if isSpace c then some [] else none
  | c :: d :: s =>
      if isSpace c then fromHex (d :: s)
      else do
        let byte := UInt8.ofNat (16 * (← hexValue c) + (← hexValue d))
        return byte :: (← fromHex s)

def reader : Reader String where
  fromHex s := fromHex s.toList
  toHex := hexEncode
  toLower s := String.ofList (s.toList.map Char.toLower)
  isEven idx := idx &&& 1 = 0
  half idx := idx >>> 1

def received (proof : StateProof) : ReceivedProof String where
  leaf := proof.leaf
  index := proof.index.toNat
  siblings := proof.siblings

def verifyStateProof (proof : ReceivedProof String) (rootHex : String) : Option Bool :=
  reader.verifyStateProof proof rootHex

def verifyAccountInState (key accountBytes : List UInt8) (proof : ReceivedProof String)
    (rootHex : String) : Option Bool :=
  reader.verifyAccountInState key accountBytes proof rootHex

end Python

/-! ## `state_proof.dart` -/

namespace Dart

/-- The units that `int.parse` ignores on both sides. -/
def isSpace (u : UInt16) : Bool := TypeScript.isSpace u || u == 0x85

/-- `int.parse(s, radix: 16)`; `none` is a `FormatException`. -/
def parseInt16 (s : JsString) : Option Int := do
  let front := s.dropWhile isSpace
  let (negative, s) := JsString.sign (front.reverse.dropWhile isSpace).reverse
  if s = [] then none
  return JsString.ofDigits negative (← s.mapM JsString.hexUnit)

def reader : Reader JsString where
  fromHex := JsString.fromHex parseInt16
  toHex := JsString.toHex
  toLower := JsString.toLower
  isEven idx := idx &&& 1 = 0
  half idx := idx >>> 1

/-- `(proof['index'] as num).toInt()`: from `2 ^ 63` on the number is a double, which is clamped. -/
def received (proof : StateProof) : ReceivedProof JsString where
  leaf := .ofText proof.leaf
  index := min proof.index.toNat (2 ^ 63 - 1)
  siblings := proof.siblings.map .ofText

def verifyStateProof (proof : ReceivedProof JsString) (rootHex : JsString) : Option Bool :=
  reader.verifyStateProof proof rootHex

def verifyAccountInState (key accountBytes : List UInt8) (proof : ReceivedProof JsString)
    (rootHex : JsString) : Option Bool :=
  reader.verifyAccountInState key accountBytes proof rootHex

end Dart

end Sdk
end Himsha
