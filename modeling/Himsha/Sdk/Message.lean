import Himsha.Runtime.Transaction

/-!
# `transaction.ts`, `transaction.py` and `transaction.dart`

The messages that the client libraries build and hash. All three put the same bytes of the signers
and the instructions one after the other; they differ in what they make of a timestamp that is not
a `u64`.
-/

set_option autoImplicit false

namespace Himsha
namespace Sdk

open Himsha.Lib Himsha.Runtime

/-- A message of a client. The timestamp is a `bigint`, an `int`, a `BigInt`. -/
structure HimshaMessage where
  signers : List Pubkey
  instructions : List Instruction
  timestamp : Int
deriving DecidableEq

/-- The key of an account and its two flags, a byte each. -/
def accountBytes (acc : AccountMeta) : List UInt8 :=
  acc.pubkey.bytes.bytes ++ [if acc.isSigner then 1 else 0, if acc.isWritable then 1 else 0]

def instructionBytes (instr : Instruction) : List UInt8 :=
  instr.programId.bytes.bytes ++ instr.accounts.flatMap accountBytes ++ instr.data

/-- What goes into the hasher before the timestamp. -/
def HimshaMessage.bodyBytes (m : HimshaMessage) : List UInt8 :=
  m.signers.flatMap (·.bytes.bytes) ++ m.instructions.flatMap instructionBytes

/-- `DataView.setBigUint64` keeps the low 64 bits. -/
def TypeScript.timestampBytes (timestamp : Int) : Option (List UInt8) :=
  some (leBytes 8 (timestamp % 2 ^ 64).toNat)

/-- `struct.pack("<Q", …)` raises an error for what is not a `u64`. -/
def Python.timestampBytes (timestamp : Int) : Option (List UInt8) :=
  if 0 ≤ timestamp ∧ timestamp < 2 ^ 64 then some (leBytes 8 timestamp.toNat) else none

/-- `BigInt.toInt` goes to the nearest signed 64-bit number, of which `setUint64` writes the
    bits. -/
def Dart.timestampBytes (timestamp : Int) : Option (List UInt8) :=
  let clamped := max (-2 ^ 63) (min timestamp (2 ^ 63 - 1))
  some (leBytes 8 (clamped % 2 ^ 64).toNat)

/-- The client libraries. -/
inductive Library where
  | typeScript
  | python
  | dart
deriving DecidableEq

namespace Library

def timestampBytes : Library → Int → Option (List UInt8)
  | .typeScript => TypeScript.timestampBytes
  | .python => Python.timestampBytes
  | .dart => Dart.timestampBytes

/-- What is hashed, `none` being an error. -/
def preimage (library : Library) (m : HimshaMessage) : Option (List UInt8) :=
  (library.timestampBytes m.timestamp).map (m.bodyBytes ++ ·)

/-- `HimshaMessage.hash`. -/
def hash (library : Library) (m : HimshaMessage) : Option (Blob 32) :=
  (library.preimage m).map sha256

end Library

end Sdk
end Himsha
