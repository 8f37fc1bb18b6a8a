import Himsha.Node.Store

/-!
# What the state root binds

The leaves below a root are those of the accounts it was computed from, and a leaf tells its key
and its bytes. So the root of a table determines the table, and an inclusion proof of any length,
at any index, can only be of an account that is stored.
-/

set_option autoImplicit false

namespace Himsha
namespace Proof

open Himsha.Lib Himsha.Runtime Himsha.Runtime.Merkle Himsha.Node

section
variable {D : Type} {H : Hashing D} {db : Store}

theorem mem_stateLeaves {d : D} : d ∈ (db.stateLeaves H).map Prod.snd ↔
    ∃ key bytes, db.accounts.lookup key = some bytes ∧ H.leafHash key.bytes bytes = d := by
  simp only [Store.stateLeaves, List.map_map, List.mem_map, Prod.exists, Store.mem_entries,
    Function.comp_apply]

theorem stateLeaves_leaf {d : D} (h : d ∈ (db.stateLeaves H).map Prod.snd) : H.Leaf d := by
  obtain ⟨key, bytes, -, rfl⟩ := mem_stateLeaves.mp h
  exact ⟨key.bytes, bytes, rfl⟩

/-- The leaf of an account is below the root of exactly the tables that hold the account. -/
theorem below_stateRoot_iff (hH : H.Ideal) {key : Pubkey} {bytes : List UInt8} :
    MerkleTree.Below H.nodeHash (H.leafHash key.bytes bytes) (db.computeStateRoot H) ↔
      db.accounts.lookup key = some bytes := by
  unfold Store.computeStateRoot Hashing.merkleRoot
  rw [hH.tree.below_root_iff ⟨key.bytes, bytes, rfl⟩ fun _ => stateLeaves_leaf, mem_stateLeaves]
  constructor
  · rintro ⟨key', bytes', hlookup, heq⟩
    obtain ⟨hkey, rfl⟩ := hH.leaf_injective heq
    cases key
    cases key'
    cases hkey
    exact hlookup
  · intro h
    exact ⟨key, bytes, h, rfl⟩

/-- **The state root binds the state.** Tables with one root are one table, and a proof that
    verifies for a key and a record is of a record that is stored under that key. -/
theorem state_root_binds [DecidableEq D] (hH : H.Ideal) :
    (∀ db db' : Store, db.computeStateRoot H = db'.computeStateRoot H →
      db.accounts = db'.accounts) ∧
    ∀ (db : Store) (key : Pubkey) (bytes : List UInt8) (proof : MerkleProof D),
      proof.leaf = H.leafHash key.bytes bytes →
      proof.verify H (db.computeStateRoot H) = true →
      db.accounts.lookup key = some bytes := by
  constructor
  · intro db db' hroot
    refine Finmap.ext_lookup fun key => Option.ext fun bytes => ?_
    show db.accounts.lookup key = some bytes ↔ db'.accounts.lookup key = some bytes
    rw [← below_stateRoot_iff hH, hroot, below_stateRoot_iff hH]
  · intro db key bytes proof hleaf hverify
    have hroot : proof.recompute H = db.computeStateRoot H := of_decide_eq_true hverify
    have hbelow := proof.below_recompute H
    rw [hleaf, hroot] at hbelow
    exact (below_stateRoot_iff hH).mp hbelow

end

/-- Digests that record what was hashed. -/
inductive Digest where
  | empty
  | leaf (key : Blob 32) (bytes : List UInt8)
  | node (l r : Digest)
deriving DecidableEq

def symbolic : Hashing Digest := ⟨.empty, .leaf, .node⟩

theorem symbolic_ideal : symbolic.Ideal where
  leaf_injective _ _ _ _ h := by
    cases h
    exact ⟨rfl, rfl⟩
  node_injective _ _ _ _ h := by
    cases h
    exact ⟨rfl, rfl⟩
  leaf_ne_node _ _ _ _ h := by cases h
  leaf_ne_empty _ _ h := by cases h
  node_ne_empty _ _ h := by cases h

/-- Two accounts, and the proof of the second. -/
def twoAccounts : Store where
  accounts := Finmap.insert (.repeated 2) [20] (Finmap.singleton (.repeated 1) [10])

def secondProof : MerkleProof Digest where
  leaf := .leaf (Pubkey.repeated 2).bytes [20]
  index := 1
  siblings := [.leaf (Pubkey.repeated 1).bytes [10]]

theorem sortedKeys_twoAccounts :
    twoAccounts.sortedKeys = [.repeated 1, .repeated 2] := by
  have hkeys : twoAccounts.accounts.keys = insert (.repeated 1) {.repeated 2} := by decide
  unfold Store.sortedKeys
  rw [hkeys, Finset.sort_insert _ (by decide) (by decide), Finset.sort_singleton]

theorem state_root_binds_second : (∀ db : Store,
      db.computeStateRoot symbolic = twoAccounts.computeStateRoot symbolic →
      db.accounts = twoAccounts.accounts) ∧
    twoAccounts.accounts.lookup (.repeated 2) = some [20] := by
  refine ⟨fun db => (state_root_binds symbolic_ideal).1 db twoAccounts,
    (state_root_binds symbolic_ideal).2 twoAccounts (.repeated 2) [20] secondProof rfl ?_⟩
  unfold Store.computeStateRoot Store.stateLeaves Store.entries
  rw [sortedKeys_twoAccounts]
  decide +kernel

end Proof
end Himsha
