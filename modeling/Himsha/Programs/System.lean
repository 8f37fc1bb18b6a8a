import Himsha.Runtime.Transaction

/-!
# The system program

Creates accounts, moves lamports, reassigns owners and grows data buffers. It reads the signer
flag of its first account and nothing else about authority, and it does not look at the writable
flag at all: slots are changed as plain copies.
-/

set_option autoImplicit false

namespace Himsha
namespace Programs
namespace System

open Himsha.Lib Himsha.Runtime

inductive SystemInstruction where
  /-- Allocate a new account with `space` bytes of data, owned by `owner`. -/
  | createAccount (lamports space : UInt64) (owner : Pubkey)
  /-- Same, but anchors the new account to a Bitcoin UTXO. -/
  | createAccountWithAnchor (utxo : UtxoMeta) (space : UInt64) (owner : Pubkey)
  /-- Move `lamports` from `accounts[0]` to `accounts[1]`. -/
  | transfer (lamports : UInt64)
  /-- Reassign `accounts[0]` to a different owning program. -/
  | assign (owner : Pubkey)
  /-- Grow the data buffer of `accounts[0]` to at least `space` bytes. -/
  | allocate (space : UInt64)
deriving DecidableEq

namespace SystemInstruction

def ser : SystemInstruction → Option (List UInt8)
  | .createAccount lamports space owner => tag 0 (lamports, space, owner)
  | .createAccountWithAnchor utxo space owner => tag 1 (utxo, space, owner)
  | .transfer lamports => tag 2 lamports
  | .assign owner => tag 3 owner
  | .allocate space => tag 4 space

def de : List UInt8 → Option (SystemInstruction × List UInt8)
  | 0 :: bs => untag (fun (l, s, o) => .createAccount l s o) bs
  | 1 :: bs => untag (fun (u, s, o) => .createAccountWithAnchor u s o) bs
  | 2 :: bs => untag .transfer bs
  | 3 :: bs => untag .assign bs
  | 4 :: bs => untag .allocate bs
  | _ => none

instance : Borsh SystemInstruction where
  ser := ser
  de := de
  de_ser := by
    intro ix bs h rest
    cases ix <;>
    · obtain ⟨pre, rfl, hde⟩ := untag_tag (β := SystemInstruction) h
      simp only [List.cons_append, de, hde]

end SystemInstruction

/-! ## Instruction builders -/

def createAccount (payer newAccount : Pubkey) (lamports space : UInt64) (owner : Pubkey) :
    Instruction :=
  .withArgs ProgramIds.systemProgram [.writable payer true, .writable newAccount true]
    (SystemInstruction.createAccount lamports space owner)

def createAccountWithAnchor (payer newAccount : Pubkey) (utxo : UtxoMeta) (space : UInt64)
    (owner : Pubkey) : Instruction :=
  .withArgs ProgramIds.systemProgram [.writable payer true, .writable newAccount true]
    (SystemInstruction.createAccountWithAnchor utxo space owner)

def transfer (source dest : Pubkey) (lamports : UInt64) : Instruction :=
  .withArgs ProgramIds.systemProgram [.writable source true, .writable dest false]
    (SystemInstruction.transfer lamports)

def assign (account owner : Pubkey) : Instruction :=
  .withArgs ProgramIds.systemProgram [.writable account true] (SystemInstruction.assign owner)

def allocate (account : Pubkey) (space : UInt64) : Instruction :=
  .withArgs ProgramIds.systemProgram [.writable account true] (SystemInstruction.allocate space)

/-! ## Processing -/

/-- The required account has to be there and to have signed. -/
def ensureSigners (accounts : List AccountInfo) (index : Nat) : Outcome Unit :=
  match accounts[index]? with
  | some acc => require acc.isSigner .missingSigner
  | none => fail .notEnoughAccounts

def deductLamports (account : AccountInfo) (amount : UInt64) : Outcome AccountInfo :=
  (okOr .insufficientFunds (checkedSub account.lamports amount)).map fun lamports =>
    { account with lamports }

/-- Credit an account, failing on overflow. -/
def creditLamports (account : AccountInfo) (amount : UInt64) : Outcome AccountInfo :=
  (okOr .overflow (checkedAdd account.lamports amount)).map fun lamports =>
    { account with lamports }

/-- Creating an account requires one that holds neither lamports nor data. -/
def requireFresh (account : AccountInfo) : Outcome Unit :=
  require (account.lamports == 0 && account.data.isEmpty) .alreadyInitialized

def run (accounts : List AccountInfo) : SystemInstruction → Outcome (List AccountInfo)
  | .createAccount lamports space owner => do
      ensureSigners accounts 0
      let payer ← deductLamports (← slot accounts 0) lamports
      let accounts := accounts.set 0 payer
      let newAcc ← slot accounts 1
      requireFresh newAcc
      let data ← zeroed space
      return accounts.set 1 { newAcc with lamports, data, owner }
  | .createAccountWithAnchor utxo space owner => do
      ensureSigners accounts 0
      let newAcc ← slot accounts 1
      requireFresh newAcc
      let data ← zeroed space
      return accounts.set 1 { newAcc with data, owner, utxo := some utxo }
  | .transfer lamports => do
      ensureSigners accounts 0
      require (decide (2 ≤ accounts.length)) .notEnoughAccounts
      let source ← deductLamports (← slot accounts 0) lamports
      let accounts := accounts.set 0 source
      let dest ← creditLamports (← slot accounts 1) lamports
      return accounts.set 1 dest
  | .assign owner => do
      ensureSigners accounts 0
      let acc ← slot accounts 0
      return accounts.set 0 { acc with owner }
  | .allocate space => do
      ensureSigners accounts 0
      let acc ← slot accounts 0
      if space.toNat > acc.data.length then
        -- `data.resize(space, 0)`
        let zeros ← zeroed space
        return accounts.set 0 { acc with data := acc.data ++ zeros.drop acc.data.length }
      else return accounts

def process (accounts : List AccountInfo) (data : List UInt8) : Outcome (List AccountInfo) := do
  let ix ← okOr .invalidInstruction (tryFromSlice data)
  run accounts ix

end System
end Programs
end Himsha
