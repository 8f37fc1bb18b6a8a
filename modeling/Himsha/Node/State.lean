import Mathlib.Data.Finset.Sort
import Himsha.Lib.Table
import Himsha.Runtime.Merkle
import Himsha.Runtime.Transaction

/-!
# `state.rs`

The node's database: the accounts with the index by owner, the blocks, and what is recorded about
each transaction. A record is kept as the value that was encoded, not as its bytes, since decoding
gives it back. Each operation is one transaction of the store, so it happens at once;
`mark_failed_unless_succeeded` is two, a read and a write.
-/

set_option autoImplicit false

namespace Himsha
namespace Node

open Himsha.Lib Himsha.Runtime

/-- Execution outcome of a submitted transaction. -/
inductive TxStatus where
  /-- Accepted and queued, not yet executed in a block. -/
  | pending
  /-- Executed and committed in `slot`. -/
  | succeeded (slot : Nat)
  /-- Rejected during authoritative execution in `slot`. -/
  | failed (slot : Nat) (error : String)
deriving DecidableEq

instance : Borsh StoredAccount :=
  .iso (fun a => (a.lamports, a.data, a.owner, a.executable, a.utxoTxid, a.utxoVout))
    (fun (l, d, o, e, t, v) => ⟨l, d, o, e, t, v⟩) fun _ => rfl

/-- A record can be encoded if the length of its data fits. -/
theorem stored_encodes {a : StoredAccount} (h : a.data.length < 2 ^ 32) :
    (toVec a).isSome = true := by
  obtain ⟨lamports, data, owner, executable, utxoTxid, utxoVout⟩ := a
  obtain ⟨out, hout⟩ := ser_bytes data h
  change ((Borsh.ser lamports).bind fun xs => ((Borsh.ser data).bind fun ys =>
    (Borsh.ser (owner, executable, utxoTxid, utxoVout)).map fun zs => ys ++ zs).map
      fun ys => xs ++ ys).isSome = true
  rw [hout]
  cases utxoTxid <;> cases utxoVout <;> rfl

abbrev Accounts := Table Pubkey StoredAccount

structure NodeState where
  accounts : Accounts := ∅
  /-- `owner ‖ key` of every account. -/
  ownerIdx : Finset (Pubkey × Pubkey) := ∅
  accountCount : Nat := 0
  /-- Transaction id to the slot of its block. -/
  txIdx : Table (Blob 32) Nat := ∅
  txCount : Nat := 0
  txStatus : Table (Blob 32) TxStatus := ∅
  /-- Bitcoin transaction id to the transaction whose settlement it is. -/
  btcTxIdx : Table (Blob 32) (Blob 32) := ∅
  blocks : Table Nat Block := ∅
  slot : Nat := 0

namespace NodeState

def loadAccount (s : NodeState) (key : Pubkey) : Option StoredAccount := s.accounts.lookup key

/-- Store one record and keep the owner index; the result counts a key that is new. -/
def putAccount (s : NodeState) (key : Pubkey) (account : StoredAccount) : NodeState :=
  match s.accounts.lookup key with
  | some prior =>
      let ownerIdx :=
        if prior.owner ≠ account.owner then s.ownerIdx.erase (prior.owner, key) else s.ownerIdx
      { s with
        accounts := s.accounts.insert key account
        ownerIdx := insert (account.owner, key) ownerIdx }
  | none =>
      { s with
        accounts := s.accounts.insert key account
        ownerIdx := insert (account.owner, key) s.ownerIdx
        accountCount := s.accountCount + 1 }

/-- Persist a batch of accounts, all or nothing, in the order the batch is visited. `none` is a
    record that cannot be encoded. -/
def saveAccountsAtomic (s : NodeState) (batch : List (Pubkey × StoredAccount)) :
    Option NodeState :=
  if batch.all fun e => (toVec e.2).isSome then
    some (batch.foldl (fun s e => s.putAccount e.1 e.2) s)
  else none

def txSlot (s : NodeState) (txid : Blob 32) : Option Nat := s.txIdx.lookup txid

def getTxStatus (s : NodeState) (txid : Blob 32) : Option TxStatus := s.txStatus.lookup txid

def setTxStatus (s : NodeState) (txid : Blob 32) (status : TxStatus) : NodeState :=
  { s with txStatus := s.txStatus.insert txid status }

/-- What `mark_failed_unless_succeeded` reads. -/
def hasSucceeded (s : NodeState) (txid : Blob 32) : Bool :=
  match s.getTxStatus txid with
  | some (.succeeded _) => true
  | _ => false

/-- Mark a transaction failed, but never one that already succeeded. -/
def markFailedUnlessSucceeded (s : NodeState) (txid : Blob 32) (slot : Nat) (error : String) :
    NodeState :=
  if s.hasSucceeded txid then s else s.setTxStatus txid (.failed slot error)

/-- Record the slot of a transaction and count it if it is new. -/
def indexTransaction (s : NodeState) (txid : Blob 32) (slot : Nat) : NodeState :=
  { s with
    txIdx := s.txIdx.insert txid slot
    txCount := if (s.txIdx.lookup txid).isNone then s.txCount + 1 else s.txCount }

def indexBtcSettlement (s : NodeState) (btcTxid himshaTxid : Blob 32) : NodeState :=
  { s with btcTxIdx := s.btcTxIdx.insert btcTxid himshaTxid }

def advanceSlot (s : NodeState) : Nat × NodeState := (s.slot + 1, { s with slot := s.slot + 1 })

def saveBlock (s : NodeState) (slot : Nat) (block : Block) : NodeState :=
  { s with blocks := s.blocks.insert slot block }

/-- The hashes of the blocks in the last `maxAge` slots. -/
def recentBlockhashes (s : NodeState) (maxAge : Nat) : List (Blob 32) :=
  (List.range' (s.slot - maxAge) (min maxAge s.slot + 1)).filterMap fun slot =>
    (s.blocks.lookup slot).map (·.blockhash)

/-- The keys of all accounts in ascending byte order, which is how the store iterates. -/
def sortedKeys (s : NodeState) : List Pubkey := s.accounts.keys.sort Pubkey.Le

/-- Merkle root over the full account state. -/
def computeStateRoot (s : NodeState) : Blob 32 :=
  Merkle.merkleRoot (s.sortedKeys.filterMap fun key =>
    (s.accounts.lookup key).map fun account =>
      Merkle.leafHash key.bytes ((toVec account).getD []))

theorem putAccount_accounts (s : NodeState) (key : Pubkey) (account : StoredAccount) :
    (s.putAccount key account).accounts = s.accounts.insert key account := by
  unfold putAccount
  split <;> rfl

/-- The chain and what is recorded of its transactions are the same; accounts and settlements
    need not be. -/
def SameChain (s s' : NodeState) : Prop :=
  s' = { s with
    accounts := s'.accounts
    ownerIdx := s'.ownerIdx
    accountCount := s'.accountCount
    btcTxIdx := s'.btcTxIdx }

theorem SameChain.trans {s s' s'' : NodeState} (h : SameChain s s') (h' : SameChain s' s'') :
    SameChain s s'' := by
  unfold SameChain at h h' ⊢
  rw [h', h]

theorem putAccount_sameChain (s : NodeState) (key : Pubkey) (account : StoredAccount) :
    SameChain s (s.putAccount key account) := by
  unfold putAccount
  split <;> rfl

/-- A batch that is saved is put one account after the other. -/
theorem saveAccountsAtomic_puts {s s' : NodeState} {batch : List (Pubkey × StoredAccount)}
    (h : s.saveAccountsAtomic batch = some s') :
    s' = batch.foldl (fun s e => s.putAccount e.1 e.2) s := by
  unfold saveAccountsAtomic at h
  split at h
  · exact (Option.some.inj h).symm
  · cases h

theorem saveAccountsAtomic_sameChain {s s' : NodeState} {batch : List (Pubkey × StoredAccount)}
    (h : s.saveAccountsAtomic batch = some s') : SameChain s s' := by
  obtain rfl := saveAccountsAtomic_puts h
  clear h
  induction batch generalizing s with
  | nil => rfl
  | cons e rest ih => exact (putAccount_sameChain s e.1 e.2).trans ih

/-- A saved batch is a bulk write of the account table. -/
theorem saveAccountsAtomic_accounts {s s' : NodeState} {batch : List (Pubkey × StoredAccount)}
    (h : s.saveAccountsAtomic batch = some s') : s'.accounts = s.accounts.write batch := by
  obtain rfl := saveAccountsAtomic_puts h
  clear h
  induction batch generalizing s with
  | nil => rfl
  | cons e rest ih => rw [List.foldl_cons, ih, putAccount_accounts, Table.write_cons]

end NodeState

end Node
end Himsha
