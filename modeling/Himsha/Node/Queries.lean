import Himsha.Node.Rpc

/-!
# What the node answers about transactions and blocks

The RPC handlers that only read. An id comes in as hex; the rest is a walk through the index and
the blocks.
-/

set_option autoImplicit false

namespace Himsha
namespace Node

open Himsha.Lib Himsha.Runtime Himsha.Programs

/-- `SignatureStatus`, what a client polls for. -/
structure SignatureStatus where
  status : String
  slot : Option Nat
  error : Option String
deriving DecidableEq

namespace NodeState

/-- The slot from the index, then that one block. -/
def processedTransaction (s : NodeState) (id : Blob 32) : Option RuntimeTransaction := do
  let slot ← s.txSlot id
  let block ← s.blocks.lookup slot
  block.transactions.find? fun tx => tx.messageHash = id

/-- `get_processed_transaction`. What is not the hex of 32 bytes finds nothing. -/
def getProcessedTransaction (s : NodeState) (txid : String) : Option RuntimeTransaction :=
  (parseTxid txid).bind s.processedTransaction

/-- `get_signature_status`, of an id that could be decoded. -/
def getSignatureStatus (s : NodeState) (id : Blob 32) : Option SignatureStatus :=
  (s.getTxStatus id).map fun
    | .pending => ⟨"pending", none, none⟩
    | .succeeded slot => ⟨"succeeded", some slot, none⟩
    | .failed slot error => ⟨"failed", some slot, some error⟩

/-- The inner loop of `recent_transactions`: `push`, and `break` at the limit. The length is cast
    to a `u32` before it is compared. -/
def pushTransactions (limit : UInt32) (out : List RuntimeTransaction) :
    List RuntimeTransaction → List RuntimeTransaction
  | [] => out
  | tx :: rest =>
      let out := out ++ [tx]
      if limit ≤ UInt32.ofNat out.length then out else pushTransactions limit out rest

/-- The outer loop, from a slot down to the floor. -/
def recentFrom (s : NodeState) (limit : UInt32) (floor : Nat) :
    Nat → List RuntimeTransaction → List RuntimeTransaction
  | 0, out => out
  | slot + 1, out =>
      if floor < slot + 1 ∧ UInt32.ofNat out.length < limit then
        let out := match s.blocks.lookup (slot + 1) with
          | some block => pushTransactions limit out block.transactions
          | none => out
        s.recentFrom limit floor slot out
      else out

/-- `recent_transactions`: of the last 1024 slots, the newest first. -/
def recentTransactions (s : NodeState) (limit : UInt32) : List RuntimeTransaction :=
  s.recentFrom limit (s.slot - 1024) s.slot []

/-- `stats`: the accounts, the transactions and the tip. -/
def stats (s : NodeState) : Nat × Nat × Nat := (s.accountCount, s.txCount, s.slot)

/-- The transactions of a slot. -/
def transactionsAt (s : NodeState) (slot : Nat) : List RuntimeTransaction :=
  match s.blocks.lookup slot with
  | some block => block.transactions
  | none => []

/-- All transactions of the slots above `floor` up to a slot, the newest slot first. -/
def newestFirst (s : NodeState) (floor : Nat) : Nat → List RuntimeTransaction
  | 0 => []
  | slot + 1 =>
      if floor < slot + 1 then s.transactionsAt (slot + 1) ++ s.newestFirst floor slot else []

/-- A client finds what it was answered when it sent the transaction. -/
theorem getProcessedTransaction_hexEncode (s : NodeState) (id : Blob 32) :
    s.getProcessedTransaction (Lending.hexEncode id.bytes) = s.processedTransaction id := by
  simp [getProcessedTransaction, parseTxid, hexDecode_hexEncode, id.length_eq]

/-- A length that is at most the limit survives the cast. -/
theorem toNat_ofNat_length {limit : UInt32} {n : Nat} (h : n ≤ limit.toNat) :
    (UInt32.ofNat n).toNat = n :=
  UInt32.toNat_ofNat_of_lt' (Nat.lt_of_le_of_lt h limit.toNat_lt)

/-- What is cut off later can be cut off at once. -/
theorem take_take_append {α : Type} (n : Nat) (xs ys : List α) :
    (xs.take n ++ ys).take n = (xs ++ ys).take n := by
  rcases Nat.le_total xs.length n with hle | hge
  · rw [List.take_of_length_le hle]
  · have hlength : (xs.take n).length = n := by simp [hge]
    rw [List.take_left' hlength, List.take_append_of_le_length hge]

/-- The inner loop takes what there is room for. -/
theorem pushTransactions_eq {limit : UInt32} (txs : List RuntimeTransaction) :
    ∀ {out : List RuntimeTransaction}, out.length < limit.toNat →
      pushTransactions limit out txs = (out ++ txs).take limit.toNat := by
  induction txs with
  | nil =>
    intro out h
    rw [pushTransactions, List.append_nil, List.take_of_length_le (Nat.le_of_lt h)]
  | cons tx rest ih =>
    intro out h
    have hlength : (out ++ [tx]).length = out.length + 1 := by simp
    have hcast : (UInt32.ofNat (out ++ [tx]).length).toNat = out.length + 1 := by
      rw [hlength]
      exact toNat_ofNat_length h
    have hsplit : out ++ tx :: rest = (out ++ [tx]) ++ rest := by simp
    rw [pushTransactions, hsplit]
    split
    · rename_i hfull
      rw [UInt32.le_iff_toNat_le, hcast] at hfull
      have hlimit : (out ++ [tx]).length = limit.toNat := by omega
      rw [List.take_left' hlimit]
    · rename_i hroom
      rw [UInt32.le_iff_toNat_le, hcast] at hroom
      exact ih (by omega)

/-- The outer loop takes what there is room for, and stops where nothing more could come. -/
theorem recentFrom_eq (s : NodeState) (limit : UInt32) (floor : Nat) :
    ∀ (slot : Nat) {out : List RuntimeTransaction}, out.length ≤ limit.toNat →
      s.recentFrom limit floor slot out = (out ++ s.newestFirst floor slot).take limit.toNat := by
  intro slot
  induction slot with
  | zero =>
    intro out h
    rw [recentFrom, newestFirst, List.append_nil, List.take_of_length_le h]
  | succ slot ih =>
    intro out h
    rw [recentFrom, newestFirst]
    by_cases hfloor : floor < slot + 1
    · rw [if_pos hfloor]
      by_cases hroom : out.length < limit.toNat
      · have hcond : floor < slot + 1 ∧ UInt32.ofNat out.length < limit := by
          rw [UInt32.lt_iff_toNat_lt, toNat_ofNat_length h]
          exact ⟨hfloor, hroom⟩
        have hpush : (match s.blocks.lookup (slot + 1) with
            | some block => pushTransactions limit out block.transactions
            | none => out) = (out ++ s.transactionsAt (slot + 1)).take limit.toNat := by
          unfold transactionsAt
          split
          · exact pushTransactions_eq _ hroom
          · rw [List.append_nil, List.take_of_length_le h]
        rw [if_pos hcond, hpush, ih (by simp), take_take_append, List.append_assoc]
      · have hfull : out.length = limit.toNat := by omega
        have hcond : ¬ (floor < slot + 1 ∧ UInt32.ofNat out.length < limit) := by
          rw [UInt32.lt_iff_toNat_lt, toNat_ofNat_length h]
          exact fun hcond => hroom hcond.2
        rw [if_neg hcond, List.take_left' hfull]
    · rw [if_neg fun hcond => hfloor hcond.1, if_neg hfloor, List.append_nil,
        List.take_of_length_le h]

/-- **What `recent_transactions` answers**: the first of all that the last 1024 slots hold. -/
theorem recentTransactions_eq (s : NodeState) (limit : UInt32) :
    s.recentTransactions limit = (s.newestFirst (s.slot - 1024) s.slot).take limit.toNat := by
  rw [recentTransactions, recentFrom_eq _ _ _ _ (Nat.zero_le _), List.nil_append]

end NodeState

end Node
end Himsha
