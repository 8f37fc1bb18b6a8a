import Himsha.Runtime.Account

/-!
# `instruction.rs`, `signature.rs` and `transaction.rs`

A transaction is a signed message; its id is the hash of the message. The signature scheme is a
parameter, an ideal predicate of a signature, a hash and a key.
-/

set_option autoImplicit false

namespace Himsha
namespace Runtime

open Lib

/-- A single operation sent to one program within a transaction. -/
structure Instruction where
  programId : Pubkey
  accounts : List AccountMeta
  data : List UInt8
deriving DecidableEq

instance : Borsh Instruction :=
  .iso (fun i => (i.programId, i.accounts, i.data)) (fun (p, a, d) => ⟨p, a, d⟩) fun _ => rfl

/-- Encode `args` as the instruction data. -/
def Instruction.withArgs {α : Type} [Borsh α] (programId : Pubkey) (accounts : List AccountMeta)
    (args : α) : Instruction :=
  { programId, accounts, data := (toVec args).getD [] }

/-- The signable body of a transaction. -/
structure Message where
  /-- Accounts that must co-sign. -/
  signers : List Pubkey
  /-- Instructions executed atomically left-to-right. -/
  instructions : List Instruction
  recentBlockhash : Blob 32
  chainId : UInt64
  /-- Unix-second timestamp supplied by the submitter. -/
  timestamp : UInt64
deriving DecidableEq

instance : Borsh Message :=
  .iso (fun m => (m.signers, m.instructions, m.recentBlockhash, m.chainId, m.timestamp))
    (fun (s, i, r, c, t) => ⟨s, i, r, c, t⟩) fun _ => rfl

/-- SHA-256 of the encoded message. A message with no encoding, which has `2 ^ 32` entries
    somewhere, fits no request. -/
def Message.hash (m : Message) : Blob 32 := sha256 ((toVec m).getD [])

/-- 64-byte Schnorr signature. -/
abbrev Signature := Blob 64

/-- `Signature::verify`: a signature, the hash it is over and the key it is checked against. -/
abbrev Verifier := Signature → Blob 32 → Pubkey → Bool

/-- A signed transaction as it is submitted. -/
structure RuntimeTransaction where
  version : UInt32
  /-- One signature per entry in `message.signers`. -/
  signatures : List Signature
  message : Message
deriving DecidableEq

namespace RuntimeTransaction

/-- The id of a transaction. -/
def messageHash (tx : RuntimeTransaction) : Blob 32 := tx.message.hash

/-- Verify every signer's signature over the message hash. -/
def verifySignatures (verify : Verifier) (tx : RuntimeTransaction) : Bool :=
  tx.signatures.length == tx.message.signers.length &&
    (tx.signatures.zip tx.message.signers).all fun (sig, signer) =>
      verify sig tx.message.hash signer

/-- The chain id has to match and the blockhash has to be in the node's recent window. -/
def checkChainAndBlockhash (tx : RuntimeTransaction) (chainId : UInt64)
    (validBlockhashes : List (Blob 32)) : Except String Unit :=
  if tx.message.chainId ≠ chainId then .error "wrong chain id"
  else if tx.message.recentBlockhash ∉ validBlockhashes then
    .error "blockhash not found or expired"
  else .ok ()

/-- **What an accepted signature list says**: each declared signer signed the message hash. -/
theorem verifySignatures_mem {verify : Verifier} {tx : RuntimeTransaction}
    (h : tx.verifySignatures verify = true) {k : Pubkey} (hk : k ∈ tx.message.signers) :
    ∃ sig ∈ tx.signatures, verify sig tx.message.hash k = true := by
  simp only [verifySignatures, Bool.and_eq_true, beq_iff_eq, List.all_eq_true] at h
  obtain ⟨hlen, hall⟩ := h
  obtain ⟨i, hi, hget⟩ := List.mem_iff_getElem.mp hk
  have hi' : i < tx.signatures.length := by omega
  have hmem : (tx.signatures[i], tx.message.signers[i]) ∈ tx.signatures.zip tx.message.signers := by
    rw [List.mem_iff_getElem]
    exact ⟨i, by simp; omega, by simp⟩
  have hver := hall _ hmem
  rw [hget] at hver
  exact ⟨tx.signatures[i], List.getElem_mem hi', hver⟩

end RuntimeTransaction

/-- A committed block. -/
structure Block where
  slot : Nat
  parentSlot : Nat
  transactions : List RuntimeTransaction
  /-- SHA-256 of the slot, the message hashes and the state root. -/
  blockhash : Blob 32
  timestamp : UInt64
  /-- Merkle root over the account state as of this block. -/
  stateRoot : Blob 32
deriving DecidableEq

def Block.newWithRoot (slot parentSlot : Nat) (transactions : List RuntimeTransaction)
    (timestamp : UInt64) (stateRoot : Blob 32) : Block where
  slot := slot
  parentSlot := parentSlot
  transactions := transactions
  blockhash := sha256 (leBytes 8 slot ++
    transactions.flatMap (fun tx => tx.messageHash.bytes) ++ stateRoot.bytes)
  timestamp := timestamp
  stateRoot := stateRoot

/-- The block a fresh node seeds at slot 0. -/
def Block.genesis : Block := .newWithRoot 0 0 [] 0 (.zero 32)

end Runtime
end Himsha
