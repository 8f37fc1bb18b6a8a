import Himsha.Proof.StoreIndex

/-!
# The records behind the bytes

`NodeState` keeps the values whose encodings are on disk. `Represents` ties the two, every
operation on the tables is the one on the values, and both have the same state root.
-/

set_option autoImplicit false

namespace Himsha
namespace Proof

open Himsha.Lib Himsha.Runtime Himsha.Node Store

/-- The tables hold the encodings of the records, and the structures beside them agree. -/
structure Represents (db : Store) (s : NodeState) : Prop where
  accounts : ∀ key, db.accounts.lookup key = (s.accounts.lookup key).bind toVec
  encodes : ∀ key stored, s.accounts.lookup key = some stored → (toVec stored).isSome = true
  owners : db.ownerIdx = s.ownerIdx.image fun pair => composite pair.1 pair.2
  accountCount : db.counter "account_count" = s.accountCount
  txs : db.txIdx = s.txIdx
  txCount : db.counter "tx_count" = s.txCount

namespace Represents

variable {db db' : Store} {s : NodeState} {key : Pubkey} {account : StoredAccount}

theorem empty : Represents {} {} where
  accounts _ := rfl
  encodes _ _ h := by cases h
  owners := rfl
  accountCount := rfl
  txs := rfl
  txCount := rfl

theorem recordIn_eq (h : Represents db s) (key : Pubkey) :
    recordIn db key = s.accounts.lookup key := by
  unfold recordIn
  rw [h.accounts]
  cases hlookup : s.accounts.lookup key with
  | none => rfl
  | some stored =>
    obtain ⟨bytes, hbytes⟩ := Option.isSome_iff_exists.mp (h.encodes key stored hlookup)
    rw [Option.bind_some, hbytes]
    exact tryFromSlice_toVec hbytes

theorem composite_injective :
    Function.Injective fun pair : Pubkey × Pubkey => composite pair.1 pair.2 := by
  intro pair pair' h
  obtain ⟨howner, hkey⟩ := composite_inj.mp h
  exact Prod.ext howner hkey

theorem saveAccount (h : Represents db s) (hsave : db.saveAccount key account = some db') :
    Represents db' (s.putAccount key account) := by
  rw [saveAccount_eq, Option.map_eq_some_iff] at hsave
  obtain ⟨bytes, hbytes, rfl⟩ := hsave
  have hprior : db.priorOwner key = (s.accounts.lookup key).map (·.owner) := by
    rw [← h.recordIn_eq]
    rfl
  have haccounts := NodeState.putAccount_accounts s key account
  constructor
  · intro key'
    rw [settle_accounts, haccounts]
    show Finmap.lookup key' (db.accounts.insert key bytes) = _
    by_cases hkey : key' = key
    · subst hkey
      rw [Finmap.lookup_insert, Finmap.lookup_insert, Option.bind_some, hbytes]
    · rw [Finmap.lookup_insert_of_ne _ hkey, Finmap.lookup_insert_of_ne _ hkey, h.accounts]
  · intro key' stored hstored
    rw [haccounts] at hstored
    by_cases hkey : key' = key
    · subst hkey
      rw [Finmap.lookup_insert, Option.some.injEq] at hstored
      rw [← hstored, hbytes]
      rfl
    · rw [Finmap.lookup_insert_of_ne _ hkey] at hstored
      exact h.encodes key' stored hstored
  · rw [settle_ownerIdx]
    unfold put NodeState.putAccount
    rw [hprior]
    cases s.accounts.lookup key with
    | none =>
      show insert _ db.ownerIdx = _
      rw [h.owners, Finset.image_insert]
    | some prior =>
      by_cases howner : prior.owner = account.owner
      · simp [howner, h.owners, Finset.image_insert]
      · simp [howner, h.owners, Finset.image_insert, Finset.image_erase composite_injective]
  · rw [settle_counter]
    show db.counter "account_count" + _ = _
    unfold fresh NodeState.putAccount
    rw [hprior, h.accountCount]
    cases s.accounts.lookup key <;> rfl
  · rw [settle_txIdx]
    unfold NodeState.putAccount
    split <;> exact h.txs
  · rw [settle_counter_of_ne (by decide)]
    unfold NodeState.putAccount
    split <;> exact h.txCount

/-- A batch that is persisted is the batch of the records. -/
theorem saveAccountsAtomic {batch : List (Pubkey × StoredAccount)} (h : Represents db s)
    (hsave : db.saveAccountsAtomic batch = some db') :
    ∃ s', s.saveAccountsAtomic batch = some s' ∧ Represents db' s' := by
  rw [saveAccountsAtomic_eq] at hsave
  have hall : ∀ {db db' : Store} {s : NodeState} (entries : List (Pubkey × StoredAccount)),
      Represents db s → saveEach db entries = some db' →
        (entries.all fun e => (toVec e.2).isSome) = true ∧
          Represents db' (entries.foldl (fun s e => s.putAccount e.1 e.2) s) := by
    intro db db' s entries
    induction entries generalizing db s with
    | nil =>
      intro h hsave
      cases hsave
      exact ⟨rfl, h⟩
    | cons entry entries ih =>
      intro h hsave
      unfold saveEach at hsave
      rw [List.foldlM_cons] at hsave
      obtain ⟨mid, hmid, hrest⟩ := Option.bind_eq_some_iff.mp hsave
      have hencodes : (toVec entry.2).isSome = true := by
        rw [saveAccount_eq, Option.map_eq_some_iff] at hmid
        obtain ⟨bytes, hbytes, -⟩ := hmid
        rw [hbytes]
        rfl
      obtain ⟨hrests, hout⟩ := ih (h.saveAccount hmid) hrest
      exact ⟨by rw [List.all_cons, hencodes, hrests]; rfl, hout⟩
  obtain ⟨hencodes, hout⟩ := hall batch h hsave
  unfold NodeState.saveAccountsAtomic
  rw [if_pos hencodes]
  exact ⟨_, rfl, hout⟩

theorem indexTransaction (h : Represents db s) (txid : Blob 32) (slot : Nat) :
    Represents (db.indexTransaction txid slot) (s.indexTransaction txid slot) := by
  unfold Store.indexTransaction NodeState.indexTransaction
  rw [h.txs]
  cases s.txIdx.lookup txid with
  | none =>
    refine ⟨h.accounts, h.encodes, h.owners, ?_, rfl, ?_⟩
    · exact (counter_count_of_ne (by decide)).trans h.accountCount
    · exact counter_count.trans (congrArg (· + 1) h.txCount)
  | some slot' => exact ⟨h.accounts, h.encodes, h.owners, h.accountCount, rfl, h.txCount⟩

/-- The root over the bytes is the root over the records. -/
theorem computeStateRoot (h : Represents db s) :
    db.computeStateRoot .sha = s.computeStateRoot := by
  have hkeys : db.accounts.keys = s.accounts.keys := by
    ext key
    rw [Finmap.mem_keys, Finmap.mem_keys, Finmap.mem_iff, Finmap.mem_iff, h.accounts]
    constructor
    · rintro ⟨bytes, hbytes⟩
      obtain ⟨stored, hstored, -⟩ := Option.bind_eq_some_iff.mp hbytes
      exact ⟨stored, hstored⟩
    · rintro ⟨stored, hstored⟩
      rw [hstored, Option.bind_some]
      exact Option.isSome_iff_exists.mp (h.encodes key stored hstored)
  unfold Store.computeStateRoot NodeState.computeStateRoot stateLeaves entries Store.sortedKeys
    NodeState.sortedKeys
  rw [Merkle.Hashing.merkleRoot_sha, hkeys, List.map_map, List.map_filterMap]
  refine congrArg Merkle.merkleRoot (List.filterMap_congr fun key _ => ?_)
  rw [h.accounts]
  cases hstored : s.accounts.lookup key with
  | none => rfl
  | some stored =>
    obtain ⟨bytes, hbytes⟩ := Option.isSome_iff_exists.mp (h.encodes key stored hstored)
    rw [Option.bind_some, Option.map_some, hbytes]
    rfl

end Represents

end Proof
end Himsha
