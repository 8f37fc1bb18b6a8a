import Himsha.Runtime.Cpi

/-!
# The Ordinals lending program

A borrower pledges an inscription and takes the highest bid. One `CollectionAccount` holds the
open bids, the active loans and the settlements that wait for the node to move Bitcoin.

The two maps of a collection are hash maps in the source. Their encoding is in key order, so only
one thing depends on the hasher: which of several equally high bids an `acceptBid` takes. A
`Hasher` is that iteration order.
-/

set_option autoImplicit false

namespace Himsha
namespace Programs
namespace Lending

open Himsha.Lib Himsha.Runtime

/-- What the node must do with a UTXO to settle a loan outcome. -/
inductive SettlementKind where
  /-- Loan repaid in time: return the inscription to the borrower. -/
  | returnInscription
  /-- Borrower defaulted: transfer the inscription to the lender. -/
  | seizeInscription
  /-- Pay the repayment sats to the lender. -/
  | repayment
deriving DecidableEq, Repr

instance : Borsh SettlementKind where
  ser
    | .returnInscription => some [0]
    | .seizeInscription => some [1]
    | .repayment => some [2]
  de
    | 0 :: bs => some (.returnInscription, bs)
    | 1 :: bs => some (.seizeInscription, bs)
    | 2 :: bs => some (.repayment, bs)
    | _ => none
  de_ser := by
    intro k bs h rest
    cases k <;> simp only [Option.some.injEq] at h <;> subst h <;> rfl

instance : Canonical SettlementKind where
  ser_de := by
    intro bs rest k h
    simp only [Borsh.de] at h
    split at h
    · simp only [Option.some.injEq, Prod.mk.injEq] at h
      exact ⟨[0], by simp [Borsh.ser, ← h.1], by simp [h.2]⟩
    · simp only [Option.some.injEq, Prod.mk.injEq] at h
      exact ⟨[1], by simp [Borsh.ser, ← h.1], by simp [h.2]⟩
    · simp only [Option.some.injEq, Prod.mk.injEq] at h
      exact ⟨[2], by simp [Borsh.ser, ← h.1], by simp [h.2]⟩
    · simp at h

/-- A single Bitcoin-layer action the node must perform to settle a loan. -/
structure Settlement where
  kind : SettlementKind
  inscriptionId : String
  /-- UTXO to spend: the inscription's, or the repayment's. -/
  utxo : UtxoMeta
  recipient : String
  /-- Sats to send, 0 for inscription moves. -/
  amount : UInt64
deriving DecidableEq

instance : Borsh Settlement :=
  .iso (fun s => (s.kind, s.inscriptionId, s.utxo, s.recipient, s.amount))
    (fun (k, i, u, r, a) => ⟨k, i, u, r, a⟩) fun _ => rfl

instance : Canonical Settlement :=
  .iso (f := fun s : Settlement => (s.kind, s.inscriptionId, s.utxo, s.recipient, s.amount))
    (g := fun (k, i, u, r, a) => ⟨k, i, u, r, a⟩) (fun _ => rfl) fun _ => rfl

/-- A lender's offer to provide liquidity. -/
structure Bid where
  utxo : UtxoMeta
  loanValue : UInt64
  /-- Loan duration in seconds. -/
  loanPeriod : UInt64
  /-- Flat interest charged over the loan term, in bps of `loanValue`. -/
  interestRateBps : UInt64
  lenderOrdinalsAddress : String
  lenderPaymentsAddress : String
deriving DecidableEq

instance : Borsh Bid :=
  .iso (fun b => (b.utxo, b.loanValue, b.loanPeriod, b.interestRateBps, b.lenderOrdinalsAddress,
      b.lenderPaymentsAddress))
    (fun (u, v, p, i, o, a) => ⟨u, v, p, i, o, a⟩) fun _ => rfl

instance : Canonical Bid :=
  .iso (f := fun b : Bid => (b.utxo, b.loanValue, b.loanPeriod, b.interestRateBps,
      b.lenderOrdinalsAddress, b.lenderPaymentsAddress))
    (g := fun (u, v, p, i, o, a) => ⟨u, v, p, i, o, a⟩) (fun _ => rfl) fun _ => rfl

/-- An active loan after a borrower accepted a bid. -/
structure Loan where
  inscriptionId : String
  inscriptionUtxo : UtxoMeta
  loanValue : UInt64
  loanPeriod : UInt64
  interestRateBps : UInt64
  lenderOrdinalsAddress : String
  lenderPaymentsAddress : String
  borrowerOrdinalsAddress : String
  borrowerPaymentsAddress : String
  /-- Unix timestamp when the loan started. -/
  startedAt : UInt64
  /-- Sats repaid so far. -/
  repaid : UInt64
deriving DecidableEq

instance : Borsh Loan :=
  .iso (fun l => (l.inscriptionId, l.inscriptionUtxo, l.loanValue, l.loanPeriod,
      l.interestRateBps, l.lenderOrdinalsAddress, l.lenderPaymentsAddress,
      l.borrowerOrdinalsAddress, l.borrowerPaymentsAddress, l.startedAt, l.repaid))
    (fun (i, u, v, p, r, lo, lp, bo, bp, s, d) => ⟨i, u, v, p, r, lo, lp, bo, bp, s, d⟩)
    fun _ => rfl

instance : Canonical Loan :=
  .iso (f := fun l : Loan => (l.inscriptionId, l.inscriptionUtxo, l.loanValue, l.loanPeriod,
      l.interestRateBps, l.lenderOrdinalsAddress, l.lenderPaymentsAddress,
      l.borrowerOrdinalsAddress, l.borrowerPaymentsAddress, l.startedAt, l.repaid))
    (g := fun (i, u, v, p, r, lo, lp, bo, bp, s, d) => ⟨i, u, v, p, r, lo, lp, bo, bp, s, d⟩)
    (fun _ => rfl) fun _ => rfl

/-- A lending market for one NFT collection. -/
structure CollectionAccount where
  name : String := ""
  /-- Open bids, keyed by the lender's UTXO `txid:vout`. -/
  bids : StringMap Bid := ∅
  /-- Active loans, keyed by inscription id. -/
  activeLoans : StringMap Loan := ∅
  /-- Settlements that wait for the node. -/
  pendingSettlements : List Settlement := []

instance : Borsh CollectionAccount :=
  .iso (fun c => (c.name, c.bids, c.activeLoans, c.pendingSettlements))
    (fun (n, b, l, p) => ⟨n, b, l, p⟩) fun _ => rfl

/-- Remove and return all queued settlements. -/
def takeSettlements (collection : CollectionAccount) : List Settlement × CollectionAccount :=
  (collection.pendingSettlements, { collection with pendingSettlements := [] })

/-- Basis-points denominator for interest. -/
def bps : UInt64 := 10000

/-- Total sats the borrower must repay: principal plus flat term interest. -/
def Loan.repaymentDue (π : Profile) (l : Loan) : Option UInt64 :=
  addU64 π l.loanValue (saturatingMul l.loanValue l.interestRateBps / bps)

inductive LendingInstruction where
  /-- `[0]` = collection, `[1]` = payer. -/
  | initCollection (name : String)
  /-- `[0]` = collection, `[1]` = lender. -/
  | placeBid (bidUtxo : UtxoMeta) (loanValue loanPeriod interestRateBps : UInt64)
      (lenderOrdinalsAddress lenderPaymentsAddress : String)
  /-- `[0]` = collection, `[1]` = lender. -/
  | cancelBid (bidUtxo : UtxoMeta)
  /-- `[0]` = collection, `[1]` = borrower. -/
  | acceptBid (inscriptionId : String) (inscriptionUtxo : UtxoMeta)
      (borrowerOrdinalsAddress borrowerPaymentsAddress : String)
  /-- `[0]` = collection, `[1]` = borrower. -/
  | repayLoan (inscriptionId : String) (repaymentUtxo : UtxoMeta) (amount : UInt64)
  /-- `[0]` = collection, `[1]` = lender. -/
  | claimDefault (inscriptionId : String)
deriving DecidableEq

namespace LendingInstruction

def ser : LendingInstruction → Option (List UInt8)
  | .initCollection name => tag 0 name
  | .placeBid utxo value period rate ordinals payments =>
      tag 1 (utxo, value, period, rate, ordinals, payments)
  | .cancelBid utxo => tag 2 utxo
  | .acceptBid id utxo ordinals payments => tag 3 (id, utxo, ordinals, payments)
  | .repayLoan id utxo amount => tag 4 (id, utxo, amount)
  | .claimDefault id => tag 5 id

def de : List UInt8 → Option (LendingInstruction × List UInt8)
  | 0 :: bs => untag .initCollection bs
  | 1 :: bs => untag (fun (u, v, p, r, o, a) => .placeBid u v p r o a) bs
  | 2 :: bs => untag .cancelBid bs
  | 3 :: bs => untag (fun (i, u, o, a) => .acceptBid i u o a) bs
  | 4 :: bs => untag (fun (i, u, a) => .repayLoan i u a) bs
  | 5 :: bs => untag .claimDefault bs
  | _ => none

instance : Borsh LendingInstruction where
  ser := ser
  de := de
  de_ser := by
    intro ix bs h rest
    cases ix <;>
    · obtain ⟨pre, rfl, hde⟩ := untag_tag (β := LendingInstruction) h
      simp only [List.cons_append, de, hde]

end LendingInstruction

/-- The iteration order of the hash map of bids: some permutation of its entries. -/
structure Hasher where
  order : List (String × Bid) → List (String × Bid)
  perm : ∀ entries, (order entries).Perm entries

/-- Iteration in key order. -/
def Hasher.sorted : Hasher := ⟨id, fun _ => .refl _⟩

/-- `hex::encode`. -/
def hexEncode (bytes : List UInt8) : String :=
  String.ofList (bytes.flatMap fun b =>
    [Nat.digitChar (b.toNat / 16), Nat.digitChar (b.toNat % 16)])

/-- `format!("{}:{}", hex::encode(utxo.txid), utxo.vout)`. -/
def bidKey (utxo : UtxoMeta) : String := hexEncode utxo.txid.bytes ++ ":" ++ toString utxo.vout

/-- `iter().max_by_key(|(_, b)| b.loan_value)`: of equal maxima, the last one in the order. -/
def bestBid (entries : List (String × Bid)) : Option (String × Bid) :=
  entries.foldl (fun best e =>
    match best with
    | none => some e
    | some b => if b.2.loanValue ≤ e.2.loanValue then some e else some b) none

def run (π : Profile) (hasher : Hasher) (accounts : List AccountInfo) (timestamp : UInt64) :
    LendingInstruction → Outcome (List AccountInfo)
  | .initCollection name => do
      let existing : Option CollectionAccount := tryFromSlice (← slot accounts 0).data
      require (existing.all (·.name.isEmpty)) .alreadyInitialized
      store accounts 0 ({ name } : CollectionAccount)
  | .placeBid bidUtxo loanValue loanPeriod interestRateBps lenderOrdinalsAddress
      lenderPaymentsAddress => do
      let collection : CollectionAccount ← load accounts 0
      let key := bidKey bidUtxo
      require (!collection.bids.contains key) .alreadyInitialized
      store accounts 0 { collection with
        bids := collection.bids.insert key
          { utxo := bidUtxo, loanValue, loanPeriod, interestRateBps, lenderOrdinalsAddress,
            lenderPaymentsAddress } }
  | .cancelBid bidUtxo => do
      let collection : CollectionAccount ← load accounts 0
      let key := bidKey bidUtxo
      require (collection.bids.contains key) .notInitialized
      store accounts 0 { collection with bids := collection.bids.erase key }
  | .acceptBid inscriptionId inscriptionUtxo borrowerOrdinalsAddress borrowerPaymentsAddress => do
      let collection : CollectionAccount ← load accounts 0
      require (!collection.bids.isEmpty) .notInitialized
      -- An inscription already pledged to an active loan cannot be pledged again.
      require (!collection.activeLoans.contains inscriptionId) .alreadyInitialized
      let (bestKey, bid) ← okOr .notInitialized (bestBid (hasher.order collection.bids.toList))
      store accounts 0 { collection with
        bids := collection.bids.erase bestKey
        activeLoans := collection.activeLoans.insert inscriptionId
          { inscriptionId, inscriptionUtxo
            loanValue := bid.loanValue
            loanPeriod := bid.loanPeriod
            interestRateBps := bid.interestRateBps
            lenderOrdinalsAddress := bid.lenderOrdinalsAddress
            lenderPaymentsAddress := bid.lenderPaymentsAddress
            borrowerOrdinalsAddress, borrowerPaymentsAddress
            startedAt := timestamp
            repaid := 0 } }
  | .repayLoan inscriptionId repaymentUtxo amount => do
      let collection : CollectionAccount ← load accounts 0
      let loan ← okOr .notInitialized collection.activeLoans[inscriptionId]?
      let elapsed := saturatingSub timestamp loan.startedAt
      if elapsed > loan.loanPeriod then
        -- The source puts the loan back and writes the account before it fails, and the write
        -- can fail first.
        let _ ← store accounts 0 { collection with
          activeLoans := (collection.activeLoans.erase inscriptionId).insert inscriptionId loan }
        fail .loanExpired
      else
        require (amount != 0) .invalidInstruction
        let loan : Loan := { loan with repaid := saturatingAdd loan.repaid amount }
        let payment : Settlement :=
          { kind := .repayment, inscriptionId, utxo := repaymentUtxo,
            recipient := loan.lenderPaymentsAddress, amount }
        let due ← orPanic (loan.repaymentDue π)
        if due ≤ loan.repaid then
          let returned : Settlement :=
            { kind := .returnInscription, inscriptionId, utxo := loan.inscriptionUtxo,
              recipient := loan.borrowerOrdinalsAddress, amount := 0 }
          store accounts 0 { collection with
            activeLoans := collection.activeLoans.erase inscriptionId
            pendingSettlements := collection.pendingSettlements ++ [payment, returned] }
        else
          store accounts 0 { collection with
            activeLoans := (collection.activeLoans.erase inscriptionId).insert inscriptionId loan
            pendingSettlements := collection.pendingSettlements ++ [payment] }
  | .claimDefault inscriptionId => do
      let collection : CollectionAccount ← load accounts 0
      let loan ← okOr .notInitialized collection.activeLoans[inscriptionId]?
      let elapsed := saturatingSub timestamp loan.startedAt
      require (decide (loan.loanPeriod < elapsed)) .loanNotExpired
      let seized : Settlement :=
        { kind := .seizeInscription, inscriptionId, utxo := loan.inscriptionUtxo,
          recipient := loan.lenderOrdinalsAddress, amount := 0 }
      store accounts 0 { collection with
        activeLoans := collection.activeLoans.erase inscriptionId
        pendingSettlements := collection.pendingSettlements ++ [seized] }

def process (π : Profile) (hasher : Hasher) (accounts : List AccountInfo) (data : List UInt8)
    (timestamp : UInt64) : Outcome (List AccountInfo) := do
  let ix ← okOr .invalidInstruction (tryFromSlice data)
  -- Every lending instruction is authorized by `accounts[1]`.
  require ((accounts[1]?.map (·.isSigner)).getD false) .missingSigner
  run π hasher accounts timestamp ix

end Lending
end Programs
end Himsha
