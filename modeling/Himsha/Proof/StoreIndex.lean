import Himsha.Node.Store

/-!
# The index and the counters of the store

`Indexed` says that the structures kept beside the tables tell the truth about them. Every
operation keeps it and opening a file without an index establishes it, so it holds in every run
(`store_indexed`). A batch is one record after the other, in any order, because records under
different keys do not interfere.
-/

set_option autoImplicit false

namespace Himsha
namespace Proof

open Himsha.Lib Himsha.Runtime Himsha.Node Store

/-- The record stored under a key. -/
def Stores (db : Store) (key : Pubkey) (stored : StoredAccount) : Prop :=
  ∃ bytes, db.accounts.lookup key = some bytes ∧ tryFromSlice bytes = some stored

/-- The record under a key, if it can be read. -/
def recordIn (db : Store) (key : Pubkey) : Option StoredAccount :=
  (db.accounts.lookup key).bind tryFromSlice

theorem recordIn_eq_some {db : Store} {key : Pubkey} {stored : StoredAccount} :
    recordIn db key = some stored ↔ Stores db key stored :=
  Option.bind_eq_some_iff

/-- What the structures beside the tables say is so. -/
structure Indexed (db : Store) : Prop where
  readable : ∀ key bytes, db.accounts.lookup key = some bytes → ∃ stored, Stores db key stored
  owners : ∀ entry, entry ∈ db.ownerIdx ↔
    ∃ key stored, Stores db key stored ∧ entry = composite stored.owner key
  accounts : db.counter "account_count" = db.accounts.keys.card
  txs : db.counter "tx_count" = db.txIdx.keys.card

/-! ## Index entries -/

theorem composite_inj {owner key owner' key' : Pubkey} :
    composite owner key = composite owner' key' ↔ owner = owner' ∧ key = key' := by
  constructor
  · intro h
    obtain ⟨ho, hk⟩ := List.append_inj h (owner.bytes.length_eq.trans owner'.bytes.length_eq.symm)
    cases owner
    cases key
    cases owner'
    cases key'
    exact ⟨congrArg Pubkey.mk (Blob.ext ho), congrArg Pubkey.mk (Blob.ext hk)⟩
  · rintro ⟨rfl, rfl⟩
    rfl

section
variable {db : Store}

/-- The index entries of an owner are all in its range. -/
theorem mem_ownerRange {owner key : Pubkey} :
    composite owner key ∈ db.ownerRange owner ↔ composite owner key ∈ db.ownerIdx := by
  unfold ownerRange
  rw [Finset.mem_sort, Finset.mem_filter, and_iff_left]
  constructor
  · have hzeros := byteLe_zeros key.bytes.bytes
    rw [key.bytes.length_eq] at hzeros
    exact hzeros.append _
  · have hones := byteLe_ones key.bytes.bytes
    rw [key.bytes.length_eq] at hones
    exact hones.append _

theorem rangeKey_eq_some {owner key : Pubkey} {entry : List UInt8} :
    rangeKey owner entry = some key ↔ entry = composite owner key := by
  unfold rangeKey
  constructor
  · intro h
    split at h
    · rename_i hentry
      rw [Option.some.injEq] at h
      subst h
      show entry = owner.bytes.bytes ++ entry.drop 32
      rw [← hentry.2, List.take_append_drop]
    · cases h
  · rintro rfl
    have hlen : owner.bytes.bytes.length = 32 := owner.bytes.length_eq
    have hkey : key.bytes.bytes.length = 32 := key.bytes.length_eq
    rw [dif_pos (by simp [composite, hlen, hkey])]
    simp only [composite, List.drop_left' hlen]

/-- The keys the index names for an owner, each once. -/
theorem mem_rangeKeys {owner key : Pubkey} :
    key ∈ (db.ownerRange owner).filterMap (rangeKey owner) ↔
      composite owner key ∈ db.ownerIdx := by
  simp only [List.mem_filterMap, rangeKey_eq_some, exists_eq_right, mem_ownerRange]

theorem nodup_rangeKeys {owner : Pubkey} :
    ((db.ownerRange owner).filterMap (rangeKey owner)).Nodup := by
  refine List.Nodup.filterMap ?_ (Finset.sort_nodup _ _)
  intro entry entry' key h h'
  rw [Option.mem_def, rangeKey_eq_some] at h h'
  rw [h, h']

end

/-! ## One record -/

section
variable {db : Store} {key : Pubkey} {account : StoredAccount} {bytes : List UInt8}

/-- The tables with a record and its index entry, before it is counted. -/
def put (db : Store) (key : Pubkey) (account : StoredAccount) (bytes : List UInt8) : Store :=
  { db with
    accounts := db.accounts.insert key bytes
    ownerIdx := insert (composite account.owner key) (match db.priorOwner key with
      | some po => if po ≠ account.owner then db.ownerIdx.erase (composite po key) else db.ownerIdx
      | none => db.ownerIdx) }

/-- Count the keys that were new, if there were any. -/
def settle (state : Store × Nat) : Store :=
  if state.2 > 0 then state.1.count "account_count" state.2 else state.1

/-- 1 for a key without a readable record. -/
def fresh (db : Store) (key : Pubkey) : Nat := if (db.priorOwner key).isNone then 1 else 0

theorem saveAccount_eq : db.saveAccount key account =
    (toVec account).map fun bytes => settle (put db key account bytes, fresh db key) := by
  unfold saveAccount
  cases toVec account with
  | none => rfl
  | some bytes => cases hprior : db.priorOwner key <;> simp [settle, fresh, put, hprior]

theorem saveEntry_eq {n : Nat} : saveEntry (db, n) (key, account) =
    (toVec account).map fun bytes => (put db key account bytes, n + fresh db key) := by
  unfold saveEntry
  dsimp only
  cases toVec account with
  | none => rfl
  | some bytes => cases hprior : db.priorOwner key <;> simp [fresh, put, hprior]

@[simp] theorem settle_zero : settle (db, 0) = db := rfl

theorem settle_settle {n n' : Nat} : settle (settle (db, n), n') = settle (db, n + n') := by
  rcases Nat.eq_zero_or_pos n with rfl | hn
  · rw [settle_zero, Nat.zero_add]
  · rcases Nat.eq_zero_or_pos n' with rfl | hn'
    · rfl
    · simp only [settle, hn, hn', Nat.add_pos_left hn n', if_true, count_count]

/-- Counting touches the counters only. -/
theorem put_settle {n : Nat} :
    put (settle (db, n)) key account bytes = settle (put db key account bytes, n) := by
  unfold settle
  split <;> rfl

@[simp] theorem settle_accounts {n : Nat} : (settle (db, n)).accounts = db.accounts := by
  unfold settle
  split <;> rfl

@[simp] theorem settle_ownerIdx {n : Nat} : (settle (db, n)).ownerIdx = db.ownerIdx := by
  unfold settle
  split <;> rfl

@[simp] theorem settle_txIdx {n : Nat} : (settle (db, n)).txIdx = db.txIdx := by
  unfold settle
  split <;> rfl

theorem settle_counter {n : Nat} : (settle (db, n)).counter "account_count" =
    db.counter "account_count" + n := by
  unfold settle
  split
  · exact counter_count
  · rename_i hn
    obtain rfl : n = 0 := Nat.eq_zero_of_not_pos hn
    rfl

theorem settle_counter_of_ne {n : Nat} {name : String} (h : name ≠ "account_count") :
    (settle (db, n)).counter name = db.counter name := by
  unfold settle
  split
  · exact counter_count_of_ne h
  · rfl

theorem stores_settle {n : Nat} {stored : StoredAccount} :
    Stores (settle (db, n)) key stored ↔ Stores db key stored := by
  unfold Stores
  rw [settle_accounts]

theorem priorOwner_settle {n : Nat} : (settle (db, n)).priorOwner key = db.priorOwner key := by
  unfold priorOwner
  rw [settle_accounts]

/-- A batch is one record after the other. -/
theorem saveEntry_settle (state : Store × Nat) (entry : Pubkey × StoredAccount) :
    (saveEntry state entry).map settle = (settle state).saveAccount entry.1 entry.2 := by
  obtain ⟨db, n⟩ := state
  obtain ⟨key, account⟩ := entry
  rw [saveEntry_eq, saveAccount_eq]
  cases toVec account with
  | none => rfl
  | some bytes =>
    simp only [Option.map_some, put_settle, settle_settle, fresh, priorOwner_settle]

theorem mem_put {entry : List UInt8} : entry ∈ (put db key account bytes).ownerIdx ↔
    entry = composite account.owner key ∨
      entry ∈ db.ownerIdx ∧ ∀ po ∈ db.priorOwner key, entry ≠ composite po key := by
  show entry ∈ insert _ _ ↔ _
  rw [Finset.mem_insert]
  cases db.priorOwner key with
  | none => simp
  | some po =>
    by_cases hpo : po = account.owner
    · subst hpo
      simp only [ne_eq, not_true_eq_false, if_false, Option.mem_some_iff, forall_eq']
      tauto
    · simp only [ne_eq, hpo, not_false_eq_true, if_true, Option.mem_some_iff, forall_eq',
        Finset.mem_erase]
      tauto

theorem priorOwner_put_of_ne {key' : Pubkey} (h : key' ≠ key) :
    (put db key account bytes).priorOwner key' = db.priorOwner key' := by
  simp only [priorOwner, put, Finmap.lookup_insert_of_ne _ h]

/-- Records under different keys do not interfere. -/
theorem put_comm {key' : Pubkey} {account' : StoredAccount} {bytes' : List UInt8}
    (h : key ≠ key') : put (put db key account bytes) key' account' bytes' =
      put (put db key' account' bytes') key account bytes := by
  have howners : (put (put db key account bytes) key' account' bytes').ownerIdx =
      (put (put db key' account' bytes') key account bytes).ownerIdx := by
    ext entry
    rw [mem_put, mem_put, mem_put, mem_put, priorOwner_put_of_ne h, priorOwner_put_of_ne h.symm]
    have hcomposite : ∀ {o o' : Pubkey}, composite o key ≠ composite o' key' :=
      fun heq => h (composite_inj.mp heq).2
    constructor
    · rintro (rfl | ⟨rfl | ⟨hmem, hprior⟩, hprior'⟩)
      · exact .inr ⟨.inl rfl, fun _ _ => hcomposite.symm⟩
      · exact .inl rfl
      · exact .inr ⟨.inr ⟨hmem, hprior'⟩, hprior⟩
    · rintro (rfl | ⟨rfl | ⟨hmem, hprior⟩, hprior'⟩)
      · exact .inr ⟨.inl rfl, fun _ _ => hcomposite⟩
      · exact .inl rfl
      · exact .inr ⟨.inr ⟨hmem, hprior'⟩, hprior⟩
  have haccounts : (put (put db key account bytes) key' account' bytes').accounts =
      (put (put db key' account' bytes') key account bytes).accounts :=
    Finmap.insert_insert_of_ne _ h
  exact congrArg₂ (fun owners accounts => ({ db with ownerIdx := owners, accounts } : Store))
    howners haccounts

/-- Saving two records under different keys, in either order. -/
theorem saveAccount_comm {key' : Pubkey} {account' : StoredAccount} (h : key ≠ key') :
    (db.saveAccount key account).bind (·.saveAccount key' account') =
      (db.saveAccount key' account').bind (·.saveAccount key account) := by
  simp only [saveAccount_eq]
  cases toVec account <;> cases toVec account' <;> try rfl
  simp only [Option.map_some, Option.bind_some, put_settle, settle_settle, fresh,
    priorOwner_settle, priorOwner_put_of_ne h, priorOwner_put_of_ne h.symm]
  rw [put_comm h, Nat.add_comm]

end

/-! ## A batch -/

/-- The calls of `save_account`, one for each entry. -/
def saveEach (db : Store) (entries : List (Pubkey × StoredAccount)) : Option Store :=
  entries.foldlM (fun db entry => db.saveAccount entry.1 entry.2) db

theorem saveEntries_settle (entries : List (Pubkey × StoredAccount)) (state : Store × Nat) :
    (entries.foldlM saveEntry state).map settle = saveEach (settle state) entries := by
  unfold saveEach
  induction entries generalizing state with
  | nil => rfl
  | cons entry entries ih =>
    rw [List.foldlM_cons, List.foldlM_cons, ← saveEntry_settle]
    cases saveEntry state entry with
    | none => rfl
    | some state' => exact ih state'

/-- In the order in which the batch is visited. -/
theorem saveAccountsAtomic_eq (db : Store) (batch : List (Pubkey × StoredAccount)) :
    db.saveAccountsAtomic batch = saveEach db batch := by
  cases batch with
  | nil => rfl
  | cons entry batch =>
    have hbatch := saveEntries_settle (entry :: batch) (db, 0)
    rw [settle_zero] at hbatch
    rw [← hbatch]
    show ((entry :: batch).foldlM saveEntry (db, 0)).bind _ = _
    cases (entry :: batch).foldlM saveEntry (db, 0) <;> rfl

theorem saveEach_foldl (db : Store) (entries : List (Pubkey × StoredAccount)) :
    saveEach db entries =
      entries.foldl (fun out entry => out.bind (·.saveAccount entry.1 entry.2)) (some db) := by
  have hfold : ∀ (entries : List (Pubkey × StoredAccount)) (out : Option Store),
      out.bind (saveEach · entries) =
        entries.foldl (fun out entry => out.bind (·.saveAccount entry.1 entry.2)) out := by
    intro entries
    induction entries with
    | nil =>
      intro out
      cases out <;> rfl
    | cons entry entries ih =>
      intro out
      rw [List.foldl_cons, ← ih]
      cases out <;> rfl
  exact hfold entries (some db)

/-- **A batch is its records one by one, in any order.** -/
theorem saveAccountsAtomic_perm {batch order : List (Pubkey × StoredAccount)}
    (hkeys : (batch.map Prod.fst).Nodup) (horder : order.Perm batch) (db : Store) :
    db.saveAccountsAtomic batch = saveEach db order := by
  rw [saveAccountsAtomic_eq, saveEach_foldl, saveEach_foldl]
  refine (List.Perm.foldl_eq' horder.symm fun x hx y hy out => ?_) (some db)
  cases out with
  | none => rfl
  | some db =>
    by_cases hkey : x.1 = y.1
    · rw [List.inj_on_of_nodup_map hkeys hx hy hkey]
    · exact saveAccount_comm hkey

/-! ## The invariant -/

section
variable {db db' : Store} {key : Pubkey} {account stored : StoredAccount} {bytes : List UInt8}

theorem stores_put (hbytes : toVec account = some bytes) {key' : Pubkey} :
    Stores (put db key account bytes) key' stored ↔
      key' = key ∧ stored = account ∨ key' ≠ key ∧ Stores db key' stored := by
  unfold Stores
  by_cases hkey : key' = key
  · subst hkey
    show (∃ b, Finmap.lookup key' (db.accounts.insert key' bytes) = some b ∧ _) ↔ _
    simp only [Finmap.lookup_insert, Option.some.injEq, exists_eq_left', ne_eq, not_true_eq_false,
      false_and, or_false, true_and, tryFromSlice_toVec hbytes, eq_comm]
  · show (∃ b, Finmap.lookup key' (db.accounts.insert key bytes) = some b ∧ _) ↔ _
    simp only [Finmap.lookup_insert_of_ne _ hkey, hkey, false_and, ne_eq, not_false_eq_true,
      true_and, false_or]

theorem mem_priorOwner {owner : Pubkey} :
    owner ∈ db.priorOwner key ↔ ∃ stored, Stores db key stored ∧ stored.owner = owner := by
  simp only [priorOwner, Option.mem_def, Option.map_eq_some_iff, Option.bind_eq_some_iff, Stores]

/-- One key has one record. -/
theorem Stores.unique (h : Stores db key stored) (h' : Stores db key account) :
    stored = account := by
  obtain ⟨bytes, hbytes, hstored⟩ := h
  obtain ⟨bytes', hbytes', haccount⟩ := h'
  rw [hbytes, Option.some.injEq] at hbytes'
  rw [← hbytes', hstored, Option.some.injEq] at haccount
  exact haccount

theorem mapM_eq_some_iff {α β : Type} {f : α → Option β} {xs : List α} {ys : List β} :
    xs.mapM f = some ys ↔ xs.map f = ys.map some := by
  induction xs generalizing ys with
  | nil => cases ys <;> simp
  | cons x xs ih =>
    rw [List.mapM_cons, List.map_cons]
    cases ys with
    | nil => cases f x <;> cases xs.mapM f <;> simp
    | cons y ys =>
      rw [List.map_cons, List.cons.injEq, ← ih]
      cases f x <;> cases xs.mapM f <;> simp

namespace Indexed

/-- A key is new exactly if it has no prior owner. -/
theorem fresh_eq (h : Indexed db) (key : Pubkey) :
    fresh db key = if key ∈ db.accounts.keys then 0 else 1 := by
  unfold fresh
  by_cases hkey : key ∈ db.accounts.keys
  · obtain ⟨bytes, hbytes⟩ := Finmap.mem_iff.mp (Finmap.mem_keys.mp hkey)
    obtain ⟨stored, hstored⟩ := h.readable key bytes hbytes
    have howner : db.priorOwner key = some stored.owner :=
      mem_priorOwner.mpr ⟨stored, hstored, rfl⟩
    rw [if_pos hkey, howner]
    rfl
  · have hprior : db.priorOwner key = none := by
      rw [Option.eq_none_iff_forall_not_mem]
      intro owner howner
      obtain ⟨stored, ⟨bytes, hbytes, -⟩, -⟩ := mem_priorOwner.mp howner
      exact hkey (Finmap.mem_keys.mpr (Finmap.mem_iff.mpr ⟨bytes, hbytes⟩))
    rw [if_neg hkey, hprior]
    rfl

/-- The index follows a record: its old entry goes, its new one is there. -/
theorem owners_put (h : Indexed db) (hbytes : toVec account = some bytes) (entry : List UInt8) :
    entry ∈ (put db key account bytes).ownerIdx ↔ ∃ key' stored,
      Stores (put db key account bytes) key' stored ∧ entry = composite stored.owner key' := by
  rw [mem_put, h.owners]
  simp only [stores_put hbytes]
  constructor
  · rintro (rfl | ⟨⟨key', stored, hstored, rfl⟩, hprior⟩)
    · exact ⟨key, account, .inl ⟨rfl, rfl⟩, rfl⟩
    · refine ⟨key', stored, .inr ⟨?_, hstored⟩, rfl⟩
      rintro rfl
      exact hprior stored.owner (mem_priorOwner.mpr ⟨stored, hstored, rfl⟩) rfl
  · rintro ⟨key', stored, ⟨rfl, rfl⟩ | ⟨hkey, hstored⟩, rfl⟩
    · exact .inl rfl
    · refine .inr ⟨⟨key', stored, hstored, rfl⟩, fun owner _ heq => ?_⟩
      exact hkey (composite_inj.mp heq).2

theorem saveAccount (h : Indexed db) (hsave : db.saveAccount key account = some db') :
    Indexed db' := by
  rw [saveAccount_eq, Option.map_eq_some_iff] at hsave
  obtain ⟨bytes, hbytes, rfl⟩ := hsave
  constructor
  · rintro key' bytes' hbytes'
    rw [settle_accounts] at hbytes'
    simp only [stores_settle, stores_put hbytes]
    by_cases hkey : key' = key
    · exact ⟨account, .inl ⟨hkey, rfl⟩⟩
    · have hold : db.accounts.lookup key' = some bytes' := by
        rw [← hbytes']
        exact (Finmap.lookup_insert_of_ne _ hkey).symm
      obtain ⟨stored, hstored⟩ := h.readable key' bytes' hold
      exact ⟨stored, .inr ⟨hkey, hstored⟩⟩
  · simp only [stores_settle, settle_ownerIdx]
    exact h.owners_put hbytes
  · rw [settle_counter, settle_accounts]
    show db.counter "account_count" + _ = (db.accounts.insert key bytes).keys.card
    rw [Table.keys_insert, h.fresh_eq, h.accounts]
    split
    · rename_i hmem
      rw [Finset.insert_eq_of_mem hmem, Nat.add_zero]
    · rename_i hmem
      rw [Finset.card_insert_of_notMem hmem]
  · rw [settle_counter_of_ne (by decide), settle_txIdx]
    exact h.txs

theorem saveEach {entries : List (Pubkey × StoredAccount)} (h : Indexed db)
    (hsave : saveEach db entries = some db') : Indexed db' := by
  induction entries generalizing db with
  | nil =>
    cases hsave
    exact h
  | cons entry entries ih =>
    unfold Proof.saveEach at hsave
    rw [List.foldlM_cons] at hsave
    obtain ⟨mid, hmid, hrest⟩ := Option.bind_eq_some_iff.mp hsave
    exact ih (h.saveAccount hmid) hrest

theorem indexTransaction (h : Indexed db) (txid : Blob 32) (slot : Nat) :
    Indexed (db.indexTransaction txid slot) := by
  have hkeys : (db.txIdx.insert txid slot).keys = insert txid db.txIdx.keys := by
    ext k
    rw [Finmap.mem_keys, Finmap.mem_insert, Finset.mem_insert, Finmap.mem_keys]
  unfold Store.indexTransaction
  cases hlookup : db.txIdx.lookup txid with
  | none =>
    have hnew : txid ∉ db.txIdx.keys := by
      rw [Finmap.mem_keys, Finmap.mem_iff, hlookup]
      simp
    refine ⟨h.readable, h.owners, ?_, ?_⟩
    · exact (counter_count_of_ne (by decide)).trans h.accounts
    · show _ = (db.txIdx.insert txid slot).keys.card
      rw [hkeys, Finset.card_insert_of_notMem hnew, ← h.txs]
      exact counter_count
  | some slot' =>
    have hold : txid ∈ db.txIdx.keys := Finmap.mem_keys.mpr (Finmap.mem_iff.mpr ⟨slot', hlookup⟩)
    refine ⟨h.readable, h.owners, h.accounts, ?_⟩
    show db.counter "tx_count" = (db.txIdx.insert txid slot).keys.card
    rw [hkeys, Finset.insert_eq_of_mem hold, h.txs]

/-- Opening a file that has its index changes nothing. -/
theorem reopen (h : Indexed db) : db.reopen = some db := by
  unfold Store.reopen backfillOwnerIndex
  rw [if_pos ?_]
  · rfl
  · rcases Nat.eq_zero_or_pos db.accounts.keys.card with hzero | hpos
    · exact .inr hzero
    · obtain ⟨key, hkey⟩ := Finset.card_pos.mp hpos
      obtain ⟨bytes, hbytes⟩ := Finmap.mem_iff.mp (Finmap.mem_keys.mp hkey)
      obtain ⟨stored, hstored⟩ := h.readable key bytes hbytes
      exact .inl (Finset.card_pos.mpr ⟨_, (h.owners _).mpr ⟨key, stored, hstored, rfl⟩⟩)

/-- A record that is there can be loaded. -/
theorem loadAccount_eq (h : Indexed db) (key : Pubkey) :
    db.loadAccount key = some (recordIn db key) := by
  unfold loadAccount recordIn
  cases hlookup : db.accounts.lookup key with
  | none => rfl
  | some bytes =>
    obtain ⟨stored, bytes', hbytes', hstored⟩ := h.readable key bytes hlookup
    rw [hlookup, Option.some.injEq] at hbytes'
    subst hbytes'
    show (tryFromSlice bytes).map some = some ((some bytes).bind tryFromSlice)
    rw [Option.bind_some, hstored]
    rfl

/-- What the index finds for an owner are its accounts. -/
theorem accountsByOwner (h : Indexed db) (owner : Pubkey) :
    ∃ out, db.accountsByOwner owner = some out ∧ out.Nodup ∧ ∀ a, a ∈ out ↔
      ∃ key stored, Stores db key stored ∧ stored.owner = owner ∧ a = stored.intoAccount key := by
  let keys := (db.ownerRange owner).filterMap (rangeKey owner)
  have hloads : keys.mapM (fun key => do
        let stored ← db.loadAccount key
        return stored.map (·.intoAccount key)) =
      some (keys.map fun key => (recordIn db key).map (·.intoAccount key)) := by
    simp only [h.loadAccount_eq, mapM_eq_some_iff, List.map_map]
    rfl
  have hfound : db.accountsByOwner owner =
      some (keys.filterMap fun key => (recordIn db key).map (·.intoAccount key)) := by
    refine (congrArg (Option.bind · fun loaded => some loaded.reduceOption) hloads).trans ?_
    have hreduce : ∀ as : List (Option AccountInfo), as.reduceOption = as.filterMap id :=
      fun _ => rfl
    rw [Option.bind_some, hreduce, List.filterMap_map]
    rfl
  refine ⟨_, hfound, ?_, fun a => ?_⟩
  · refine nodup_rangeKeys.filterMap ?_
    intro key key' a ha ha'
    obtain ⟨stored, -, rfl⟩ := Option.map_eq_some_iff.mp ha
    obtain ⟨stored', -, heq⟩ := Option.map_eq_some_iff.mp ha'
    exact (congrArg AccountInfo.key heq).symm
  · rw [List.mem_filterMap]
    simp only [keys, mem_rangeKeys, h.owners, composite_inj, Option.map_eq_some_iff,
      recordIn_eq_some]
    constructor
    · rintro ⟨key, ⟨key', stored', hstored', rfl, rfl⟩, stored, hstored, rfl⟩
      exact ⟨key, stored, hstored, congrArg _ (hstored.unique hstored'), rfl⟩
    · rintro ⟨key, stored, hstored, rfl, rfl⟩
      exact ⟨key, ⟨key, stored, hstored, rfl, rfl⟩, stored, hstored, rfl⟩

end Indexed
end

/-! ## The first open -/

/-- A file that has no index yet. Nothing was counted in it that is not there. -/
structure Unindexed (file : Store) : Prop where
  owners : file.ownerIdx = ∅
  accounts : file.accounts.keys.card = 0 → file.counter "account_count" = 0
  txs : file.counter "tx_count" = file.txIdx.keys.card

section
variable {file db : Store}

theorem mem_foldl_composite {pairs : List (Pubkey × Pubkey)} {owners : Finset (List UInt8)}
    {entry : List UInt8} :
    entry ∈ pairs.foldl (fun oi (owner, key) => insert (composite owner key) oi) owners ↔
      entry ∈ owners ∨ ∃ owner key, (owner, key) ∈ pairs ∧ entry = composite owner key := by
  induction pairs generalizing owners with
  | nil => simp
  | cons pair pairs ih =>
    rw [List.foldl_cons, ih, Finset.mem_insert]
    simp only [List.mem_cons, or_and_right, exists_or]
    constructor
    · rintro ((rfl | hmem) | hrest)
      · exact .inr (.inl ⟨pair.1, pair.2, rfl, rfl⟩)
      · exact .inl hmem
      · exact .inr (.inr hrest)
    · rintro (hmem | ⟨_, _, rfl, rfl⟩ | hrest)
      · exact .inl (.inr hmem)
      · exact .inl (.inl rfl)
      · exact .inr hrest

/-- The scan visits every account once. -/
theorem length_entries : db.entries.length = db.accounts.keys.card := by
  have hall : ∀ keys : List Pubkey, (∀ key ∈ keys, key ∈ db.accounts) →
      (keys.filterMap fun key => (db.accounts.lookup key).map fun bytes => (key, bytes)).length =
        keys.length := by
    intro keys hkeys
    induction keys with
    | nil => rfl
    | cons key keys ih =>
      obtain ⟨bytes, hbytes⟩ := Finmap.mem_iff.mp (hkeys key List.mem_cons_self)
      rw [List.filterMap_cons_some (by rw [hbytes]; rfl), List.length_cons, List.length_cons,
        ih fun k hk => hkeys k (List.mem_cons_of_mem key hk)]
  rw [← Finset.length_sort (s := db.accounts.keys) Pubkey.Le]
  exact hall _ fun key hkey => Finmap.mem_keys.mp ((Finset.mem_sort _).mp hkey)

/-- What the scan collects. -/
theorem scan_eq {pairs : List (Pubkey × Pubkey)} (h : file.entries.mapM ownerPair = some pairs) :
    pairs.length = file.accounts.keys.card ∧
      (∀ key bytes, file.accounts.lookup key = some bytes → ∃ stored, Stores file key stored) ∧
      ∀ owner key, (owner, key) ∈ pairs ↔ ∃ stored, Stores file key stored ∧
        stored.owner = owner := by
  rw [mapM_eq_some_iff] at h
  have hpair : ∀ pair, (∃ e ∈ file.entries, ownerPair e = some pair) ↔ pair ∈ pairs := by
    intro pair
    rw [← List.mem_map, h, List.mem_map_of_injective (Option.some_injective _)]
  refine ⟨?_, ?_, ?_⟩
  · have hlen := congrArg List.length h
    rw [List.length_map, List.length_map] at hlen
    rw [← hlen, length_entries]
  · intro key bytes hbytes
    have hmem : ownerPair (key, bytes) ∈ pairs.map some :=
      h ▸ List.mem_map_of_mem (mem_entries.mpr hbytes)
    obtain ⟨pair, -, hsome⟩ := List.mem_map.mp hmem
    obtain ⟨stored, hstored, -⟩ := Option.map_eq_some_iff.mp hsome.symm
    exact ⟨stored, bytes, hbytes, hstored⟩
  · intro owner key
    rw [← hpair]
    constructor
    · rintro ⟨⟨key', bytes⟩, hmem, hsome⟩
      obtain ⟨stored, hstored, heq⟩ := Option.map_eq_some_iff.mp hsome
      cases heq
      exact ⟨stored, ⟨bytes, mem_entries.mp hmem, hstored⟩, rfl⟩
    · rintro ⟨stored, ⟨bytes, hbytes, hstored⟩, rfl⟩
      exact ⟨(key, bytes), mem_entries.mpr hbytes,
        Option.map_eq_some_iff.mpr ⟨stored, hstored, rfl⟩⟩

theorem Unindexed.reopen (h : Unindexed file) (hopen : file.reopen = some db) : Indexed db := by
  unfold Store.reopen backfillOwnerIndex at hopen
  split at hopen
  · rename_i hskip
    cases hopen
    have hnone : file.accounts.keys.card = 0 := by
      rcases hskip with howners | hnone
      · rw [h.owners] at howners
        exact absurd howners (Nat.lt_irrefl 0)
      · exact hnone
    have hempty : ∀ key, file.accounts.lookup key = none := by
      intro key
      rw [Finmap.lookup_eq_none, ← Finmap.mem_keys, Finset.card_eq_zero.mp hnone]
      exact Finset.notMem_empty key
    refine ⟨?_, ?_, ?_, h.txs⟩
    · intro key bytes hbytes
      rw [hempty key] at hbytes
      cases hbytes
    · intro entry
      rw [h.owners]
      constructor
      · intro hentry
        exact absurd hentry (Finset.notMem_empty entry)
      · rintro ⟨key, stored, ⟨bytes, hbytes, -⟩, -⟩
        rw [hempty key] at hbytes
        cases hbytes
    · rw [h.accounts hnone, hnone]
  · obtain ⟨pairs, hpairs, hdb⟩ := Option.bind_eq_some_iff.mp hopen
    cases hdb
    obtain ⟨hlength, hreadable, hmem⟩ := scan_eq hpairs
    refine ⟨hreadable, ?_, ?_, ?_⟩
    · intro entry
      show entry ∈ pairs.foldl _ file.ownerIdx ↔ _
      rw [mem_foldl_composite, h.owners]
      simp only [Finset.notMem_empty, false_or, hmem]
      constructor
      · rintro ⟨owner, key, ⟨stored, hstored, rfl⟩, rfl⟩
        exact ⟨key, stored, hstored, rfl⟩
      · rintro ⟨key, stored, hstored, rfl⟩
        exact ⟨stored.owner, key, ⟨stored, hstored, rfl⟩, rfl⟩
    · simp [counter, Finmap.lookup_insert, hlength]
    · rw [← h.txs]
      simp [counter, Finmap.lookup_insert_of_ne]

end

/-! ## Runs -/

/-- What a node does with its store. A batch is given in the order in which the map is visited. -/
inductive StoreOp where
  | saveAccount (key : Pubkey) (account : StoredAccount)
  | saveAccountsAtomic (batch : List (Pubkey × StoredAccount))
  | indexTransaction (txid : Blob 32) (slot : Nat)
  | reopen

/-- An operation that fails leaves the tables as they were. -/
def StoreOp.apply (db : Store) : StoreOp → Store
  | .saveAccount key account => (db.saveAccount key account).getD db
  | .saveAccountsAtomic batch => (db.saveAccountsAtomic batch).getD db
  | .indexTransaction txid slot => db.indexTransaction txid slot
  | .reopen => db.reopen.getD db

theorem Indexed.apply {db : Store} (h : Indexed db) (op : StoreOp) : Indexed (op.apply db) := by
  cases op with
  | saveAccount key account =>
    show Indexed ((db.saveAccount key account).getD db)
    cases hsave : db.saveAccount key account with
    | none => exact h
    | some db' => exact h.saveAccount hsave
  | saveAccountsAtomic batch =>
    show Indexed ((db.saveAccountsAtomic batch).getD db)
    cases hsave : db.saveAccountsAtomic batch with
    | none => exact h
    | some db' =>
      rw [saveAccountsAtomic_eq] at hsave
      exact h.saveEach hsave
  | indexTransaction txid slot => exact h.indexTransaction txid slot
  | reopen =>
    show Indexed (db.reopen.getD db)
    rw [h.reopen]
    exact h

theorem Indexed.run {db : Store} (h : Indexed db) (ops : List StoreOp) :
    Indexed (ops.foldl StoreOp.apply db) := by
  induction ops generalizing db with
  | nil => exact h
  | cons op ops ih => exact ih (h.apply op)

/-- **The index and the counters tell the truth in every run.** From the first open of a file
    without an index: the index is the owner and the key of every record, the counters count the
    entries of their tables, an owner is listed exactly its accounts, and a batch leaves what
    saving its records one by one leaves, in any order. -/
theorem store_indexed {file db : Store} (hfile : Unindexed file) (hopen : file.reopen = some db)
    (ops : List StoreOp) :
    let out := ops.foldl StoreOp.apply db
    (∀ entry, entry ∈ out.ownerIdx ↔
      ∃ key stored, Stores out key stored ∧ entry = composite stored.owner key) ∧
    (∀ key, key ∈ out.accounts → ∃ stored, Stores out key stored) ∧
    out.counter "account_count" = out.accounts.keys.card ∧
    out.counter "tx_count" = out.txIdx.keys.card ∧
    (∀ owner, ∃ found, out.accountsByOwner owner = some found ∧ found.Nodup ∧ ∀ a, a ∈ found ↔
      ∃ key stored, Stores out key stored ∧ stored.owner = owner ∧ a = stored.intoAccount key) ∧
    ∀ batch order : List (Pubkey × StoredAccount), (batch.map Prod.fst).Nodup →
      order.Perm batch → out.saveAccountsAtomic batch = saveEach out order := by
  intro out
  have h : Indexed out := (hfile.reopen hopen).run ops
  refine ⟨h.owners, ?_, h.accounts, h.txs, h.accountsByOwner, ?_⟩
  · intro key hkey
    obtain ⟨bytes, hbytes⟩ := Finmap.mem_iff.mp hkey
    exact h.readable key bytes hbytes
  · intro batch order hkeys horder
    exact saveAccountsAtomic_perm hkeys horder out

/-- A wallet's record. -/
def walletRecord (lamports : UInt64) : StoredAccount :=
  ⟨lamports, [], ProgramIds.systemProgram, false, none, none⟩

/-- A file from before the index, with one account. -/
def legacyFile : Store where
  accounts := Finmap.singleton (.repeated 1) ((toVec (walletRecord 5)).getD [])

theorem legacyFile_unindexed : Unindexed legacyFile := by
  refine ⟨rfl, fun h => ?_, rfl⟩
  exact absurd h (by decide)

theorem legacyFile_reopen : ∃ db, legacyFile.reopen = some db := by
  have hkeys : legacyFile.accounts.keys = {.repeated 1} := by decide
  have hentries : legacyFile.entries =
      [(.repeated 1, (toVec (walletRecord 5)).getD [])] := by
    unfold Store.entries Store.sortedKeys
    rw [hkeys, Finset.sort_singleton]
    decide
  unfold Store.reopen backfillOwnerIndex
  rw [if_neg (by decide), hentries]
  exact ⟨_, rfl⟩

/-- The old account and a new one, after a second open. -/
theorem store_indexed_legacy : ∃ db, legacyFile.reopen = some db ∧
    let out := [StoreOp.saveAccount (.repeated 2) (walletRecord 7), .reopen].foldl StoreOp.apply db
    out.counter "account_count" = out.accounts.keys.card := by
  obtain ⟨db, hdb⟩ := legacyFile_reopen
  exact ⟨db, hdb, (store_indexed legacyFile_unindexed hdb _).2.2.1⟩

end Proof
end Himsha
