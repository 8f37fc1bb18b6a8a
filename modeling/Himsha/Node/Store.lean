import Mathlib.Data.List.Lex
import Himsha.Node.State

/-!
# `state.rs`, on the bytes

The tables of the database as they are on disk, where `NodeState` has the values that were
encoded: the accounts with the two structures that are maintained beside them by hand, the index by
owner and the counters. An operation is one write transaction; `none` is an operation that returns
an error, and leaves the tables as they were.
-/

set_option autoImplicit false

namespace Himsha
namespace Node

open Himsha.Lib Himsha.Runtime

/-- The byte order of table keys. -/
def ByteLe (a b : List UInt8) : Prop := a.map UInt8.toNat ≤ b.map UInt8.toNat

theorem map_toNat_injective : Function.Injective (List.map UInt8.toNat) :=
  List.map_injective_iff.mpr fun _ _ h => UInt8.toNat_inj.mp h

instance : DecidableRel ByteLe :=
  fun a b => inferInstanceAs (Decidable (a.map UInt8.toNat ≤ b.map UInt8.toNat))

instance : IsTrans (List UInt8) ByteLe := ⟨fun _ _ _ h h' => le_trans (α := List Nat) h h'⟩

instance : Std.Antisymm ByteLe := ⟨fun _ _ h h' => map_toNat_injective (le_antisymm h h')⟩

instance : Std.Total ByteLe := ⟨fun _ _ => le_total (α := List Nat) _ _⟩

theorem ByteLe.cons {x y : UInt8} {xs ys : List UInt8} (hxy : x ≤ y) (h : ByteLe xs ys) :
    ByteLe (x :: xs) (y :: ys) := by
  rcases Nat.eq_or_lt_of_le (UInt8.le_iff_toNat_le.mp hxy) with heq | hlt
  · obtain rfl := UInt8.toNat_inj.mp heq
    exact List.cons_le_cons x.toNat h
  · exact le_of_lt (α := List Nat) (.rel hlt)

theorem ByteLe.append (xs : List UInt8) {ys zs : List UInt8} (h : ByteLe ys zs) :
    ByteLe (xs ++ ys) (xs ++ zs) := by
  induction xs with
  | nil => exact h
  | cons x xs ih => exact .cons (UInt8.le_refl x) ih

/-- Byte strings of one length are between the zeros and the `ff`s of that length. -/
theorem byteLe_zeros (bs : List UInt8) : ByteLe (List.replicate bs.length 0) bs := by
  induction bs with
  | nil => exact le_refl (α := List Nat) []
  | cons b bs ih => exact .cons (UInt8.le_iff_toNat_le.mpr (Nat.zero_le _)) ih

theorem byteLe_ones (bs : List UInt8) : ByteLe bs (List.replicate bs.length 0xff) := by
  induction bs with
  | nil => exact le_refl (α := List Nat) []
  | cons b bs ih => exact .cons (UInt8.le_iff_toNat_le.mpr (Nat.le_of_lt_succ b.toNat_lt)) ih

structure Store where
  accounts : Table Pubkey (List UInt8) := ∅
  /-- `OWNER_IDX`: `owner ‖ key` of every account. -/
  ownerIdx : Finset (List UInt8) := ∅
  txIdx : Table (Blob 32) Nat := ∅
  /-- `META`: named counters. -/
  counters : Table String Nat := ∅

/-- `[owner, key].concat()`. -/
def composite (owner key : Pubkey) : List UInt8 := owner.bytes.bytes ++ key.bytes.bytes

namespace Store

/-- A counter that was never written is 0. -/
def counter (db : Store) (name : String) : Nat := (db.counters.lookup name).getD 0

/-- Add to a counter. -/
def count (db : Store) (name : String) (n : Nat) : Store :=
  { db with counters := db.counters.insert name (db.counter name + n) }

/-- The owner of the record that is stored for a key, if it can be read. -/
def priorOwner (db : Store) (key : Pubkey) : Option Pubkey :=
  ((db.accounts.lookup key).bind tryFromSlice).map (StoredAccount.owner ·)

def saveAccount (db : Store) (key : Pubkey) (account : StoredAccount) : Option Store := do
  let bytes ← toVec account
  let prior := db.priorOwner key
  let accounts := db.accounts.insert key bytes
  let ownerIdx := match prior with
    | some po => if po ≠ account.owner then db.ownerIdx.erase (composite po key) else db.ownerIdx
    | none => db.ownerIdx
  let db := { db with accounts, ownerIdx := insert (composite account.owner key) ownerIdx }
  return if prior.isNone then db.count "account_count" 1 else db

/-- One entry of a batch: the tables, and how many keys were new. -/
def saveEntry (state : Store × Nat) (entry : Pubkey × StoredAccount) : Option (Store × Nat) := do
  let (db, added) := state
  let (key, account) := entry
  let bytes ← toVec account
  let prior := db.priorOwner key
  let db := { db with accounts := db.accounts.insert key bytes }
  let (ownerIdx, added) := match prior with
    | some po =>
        (if po ≠ account.owner then db.ownerIdx.erase (composite po key) else db.ownerIdx, added)
    | none => (db.ownerIdx, added + 1)
  return ({ db with ownerIdx := insert (composite account.owner key) ownerIdx }, added)

/-- Persist a batch in one write transaction, visited in the given order. -/
def saveAccountsAtomic (db : Store) (batch : List (Pubkey × StoredAccount)) : Option Store := do
  if batch.isEmpty then return db
  let (db, added) ← batch.foldlM saveEntry (db, 0)
  return if added > 0 then db.count "account_count" added else db

/-- Record `txid -> slot` and bump the counter. Idempotent per txid. -/
def indexTransaction (db : Store) (txid : Blob 32) (slot : Nat) : Store :=
  let isNew := (db.txIdx.lookup txid).isNone
  let db := { db with txIdx := db.txIdx.insert txid slot }
  if isNew then db.count "tx_count" 1 else db

/-- The keys of all accounts in ascending order, which is how the store iterates. -/
def sortedKeys (db : Store) : List Pubkey := db.accounts.keys.sort Pubkey.Le

/-- The accounts in that order. -/
def entries (db : Store) : List (Pubkey × List UInt8) :=
  db.sortedKeys.filterMap fun key => (db.accounts.lookup key).map fun bytes => (key, bytes)

/-- The owner of a record next to its key. -/
def ownerPair (entry : Pubkey × List UInt8) : Option (Pubkey × Pubkey) :=
  (tryFromSlice entry.2).map fun stored : StoredAccount => (stored.owner, entry.1)

/-- Build the index from a scan of the accounts, but only when it is empty and accounts exist. -/
def backfillOwnerIndex (db : Store) : Option Store := do
  if 0 < db.ownerIdx.card ∨ db.accounts.keys.card = 0 then return db
  let pairs ← db.entries.mapM ownerPair
  return { db with
    ownerIdx := pairs.foldl (fun oi (owner, key) => insert (composite owner key) oi) db.ownerIdx
    counters := db.counters.insert "account_count" pairs.length }

/-- `open`, on the tables that the file holds; a new file holds none. -/
def reopen (db : Store) : Option Store := db.backfillOwnerIndex

def loadAccount (db : Store) (key : Pubkey) : Option (Option StoredAccount) :=
  match db.accounts.lookup key with
  | some bytes => (tryFromSlice bytes).map some
  | none => some none

/-- The index entries from `owner ‖ 0…` up to `owner ‖ ff…`, in order. -/
def ownerRange (db : Store) (owner : Pubkey) : List (List UInt8) :=
  let lower := composite owner (.repeated 0)
  let upper := composite owner (.repeated 0xff)
  (db.ownerIdx.filter fun entry => ByteLe lower entry ∧ ByteLe entry upper).sort ByteLe

/-- The key in an index entry of this owner. -/
def rangeKey (owner : Pubkey) (entry : List UInt8) : Option Pubkey :=
  if h : entry.length = 64 ∧ entry.take 32 = owner.bytes.bytes then
    some ⟨⟨entry.drop 32, by rw [List.length_drop, h.1]⟩⟩
  else none

/-- All accounts of an owner, by the range of the index. -/
def accountsByOwner (db : Store) (owner : Pubkey) : Option (List AccountInfo) := do
  let keys := (db.ownerRange owner).filterMap (rangeKey owner)
  let loaded ← keys.mapM fun key => do
    let stored ← db.loadAccount key
    return stored.map (·.intoAccount key)
  return loaded.reduceOption

section
variable {D : Type} (H : Merkle.Hashing D)

/-- The leaf set of the state root, in ascending key order. -/
def stateLeaves (db : Store) : List (Pubkey × D) :=
  db.entries.map fun (key, bytes) => (key, H.leafHash key.bytes bytes)

/-- Merkle root over the full account state. -/
def computeStateRoot (db : Store) : D := H.merkleRoot ((db.stateLeaves H).map Prod.snd)

/-- An inclusion proof that a key's account is committed in the current root, plus that root. -/
def stateProof (db : Store) (key : Pubkey) : Outcome (Option (Merkle.MerkleProof D × D)) := do
  let leaves := db.stateLeaves H
  let hashes := leaves.map Prod.snd
  let root := H.merkleRoot hashes
  match leaves.findIdx? fun leaf => leaf.1 = key with
  | some idx => return (← Merkle.buildProof H hashes (UInt64.ofNat idx)).map fun p => (p, root)
  | none => return none

end

/-! ## Reading the tables -/

section
variable {db : Store}

theorem mem_entries {key : Pubkey} {bytes : List UInt8} :
    (key, bytes) ∈ db.entries ↔ db.accounts.lookup key = some bytes := by
  simp only [entries, sortedKeys, List.mem_filterMap, Finset.mem_sort, Finmap.mem_keys,
    Option.map_eq_some_iff, Prod.mk.injEq]
  constructor
  · rintro ⟨k, -, b, hb, rfl, rfl⟩
    exact hb
  · intro h
    exact ⟨key, Finmap.mem_iff.mpr ⟨bytes, h⟩, bytes, h, rfl, rfl⟩

@[simp] theorem counter_count {name : String} {n : Nat} :
    (db.count name n).counter name = db.counter name + n := by
  simp [counter, count, Finmap.lookup_insert]

theorem counter_count_of_ne {name name' : String} {n : Nat} (h : name' ≠ name) :
    (db.count name n).counter name' = db.counter name' := by
  simp [counter, count, Finmap.lookup_insert_of_ne _ h]

/-- Counting twice counts the sum. -/
theorem count_count {name : String} {n n' : Nat} :
    (db.count name n).count name n' = db.count name (n + n') := by
  simp [counter, count, Finmap.lookup_insert, Finmap.insert_insert, Nat.add_assoc]

end

end Store
end Node
end Himsha
