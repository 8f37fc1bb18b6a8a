import Himsha.Proof.TokenSlots

/-!
# What a lending instruction makes of a collection

The lending program keeps one record, in the first of its accounts. `lending_move` is the
inversion of an instruction that succeeded: what the collection was, what the instruction has
checked of it, and what is stored in its place. Everything that is said about runs of the program
is derived from it.
-/

set_option autoImplicit false

namespace Himsha
namespace Proof

open Himsha.Lib Himsha.Runtime Himsha.Programs

open Lending

/-- The loan that an `acceptBid` opens. -/
def openedBy (inscriptionId : String) (inscriptionUtxo : UtxoMeta)
    (borrowerOrdinalsAddress borrowerPaymentsAddress : String) (timestamp : UInt64)
    (bid : Bid) : Loan where
  inscriptionId
  inscriptionUtxo
  loanValue := bid.loanValue
  loanPeriod := bid.loanPeriod
  interestRateBps := bid.interestRateBps
  lenderOrdinalsAddress := bid.lenderOrdinalsAddress
  lenderPaymentsAddress := bid.lenderPaymentsAddress
  borrowerOrdinalsAddress
  borrowerPaymentsAddress
  startedAt := timestamp
  repaid := 0

/-- The highest bid is taken off the book, and its loan is opened. -/
def acceptedBy (inscriptionId : String) (inscriptionUtxo : UtxoMeta)
    (borrowerOrdinalsAddress borrowerPaymentsAddress : String) (timestamp : UInt64)
    (coll : CollectionAccount) (best : String × Bid) : CollectionAccount :=
  { coll with
    bids := coll.bids.erase best.1
    activeLoans := coll.activeLoans.insert inscriptionId
      (openedBy inscriptionId inscriptionUtxo borrowerOrdinalsAddress borrowerPaymentsAddress
        timestamp best.2) }

/-- The settlement that passes a payment on to the lender. -/
def paymentOf (inscriptionId : String) (repaymentUtxo : UtxoMeta) (amount : UInt64)
    (loan : Loan) : Settlement :=
  ⟨.repayment, inscriptionId, repaymentUtxo, loan.lenderPaymentsAddress, amount⟩

/-- The settlement that gives the inscription back. -/
def returnOf (inscriptionId : String) (loan : Loan) : Settlement :=
  ⟨.returnInscription, inscriptionId, loan.inscriptionUtxo, loan.borrowerOrdinalsAddress, 0⟩

/-- The settlement that gives it to the lender. -/
def seizureOf (inscriptionId : String) (loan : Loan) : Settlement :=
  ⟨.seizeInscription, inscriptionId, loan.inscriptionUtxo, loan.lenderOrdinalsAddress, 0⟩

/-- A payment on an active loan that it leaves open. -/
def paidOn (inscriptionId : String) (amount : UInt64) (payment : Settlement) (loan : Loan)
    (coll : CollectionAccount) : CollectionAccount :=
  { coll with
    activeLoans := (coll.activeLoans.erase inscriptionId).insert inscriptionId
      { loan with repaid := saturatingAdd loan.repaid amount }
    pendingSettlements := coll.pendingSettlements ++ [payment] }

/-- An active loan that is closed, with what is queued for it. -/
def closedBy (inscriptionId : String) (queued : List Settlement)
    (coll : CollectionAccount) : CollectionAccount :=
  { coll with
    activeLoans := coll.activeLoans.erase inscriptionId
    pendingSettlements := coll.pendingSettlements ++ queued }

/-- **What an instruction makes of a collection**, where it does not fail. -/
def LendingMove (π : Profile) (hasher : Hasher) (timestamp : UInt64)
    (coll : Option CollectionAccount) (coll' : CollectionAccount) : LendingInstruction → Prop
  | .initCollection name =>
      (∀ before, coll = some before → before.name.isEmpty = true) ∧ coll' = { name }
  | .placeBid utxo value period rate ordinals payments => ∃ before, coll = some before ∧
      before.bids.contains (bidKey utxo) = false ∧
      coll' = { before with
        bids := before.bids.insert (bidKey utxo) ⟨utxo, value, period, rate, ordinals, payments⟩ }
  | .cancelBid utxo => ∃ before, coll = some before ∧
      before.bids.contains (bidKey utxo) = true ∧
      coll' = { before with bids := before.bids.erase (bidKey utxo) }
  | .acceptBid id utxo ordinals payments => ∃ before best, coll = some before ∧
      before.activeLoans.contains id = false ∧
      bestBid (hasher.order before.bids.toList) = some best ∧
      coll' = acceptedBy id utxo ordinals payments timestamp before best
  | .repayLoan id utxo amount => ∃ before loan due, coll = some before ∧
      before.activeLoans[id]? = some loan ∧ loan.repaymentDue π = some due ∧
      coll' = if due ≤ saturatingAdd loan.repaid amount
        then closedBy id [paymentOf id utxo amount loan, returnOf id loan] before
        else paidOn id amount (paymentOf id utxo amount loan) loan before
  | .claimDefault id => ∃ before loan, coll = some before ∧
      before.activeLoans[id]? = some loan ∧
      loan.loanPeriod < saturatingSub timestamp loan.startedAt ∧
      coll' = closedBy id [seizureOf id loan] before

/-- Why a call fails, from what it is given: the second account does not sign, the first one is
    read-only, or the collection in it has what bars the instruction. -/
def Barred (accounts : List AccountInfo) (bar : CollectionAccount → Prop) : Prop :=
  (accounts[1]?.map (·.isSigner)).getD false = false ∨
    ∀ a, accounts[0]? = some a → a.isWritable = false ∨
      ∀ coll, tryFromSlice a.data = some coll → bar coll

section
variable {π : Profile} {hasher : Hasher} {accounts mid : List AccountInfo} {timestamp : UInt64}

/-- What is stored in the first slot is stored in a writable account. -/
theorem store_writable {v : CollectionAccount} (hstore : store accounts 0 v = .ok mid) :
    ∃ a rest, WritesFirst accounts mid a rest v ∧ a.isWritable = true := by
  obtain ⟨a, rest, ha, hwrites⟩ := store_first hstore
  obtain ⟨a', -, ha', hw, -⟩ := store_eq_ok hstore
  rw [ha, Option.some.injEq] at ha'
  subst ha'
  exact ⟨a, rest, hwrites, hw⟩

/-- The first slot held what was loaded from it, and holds what was stored in it. -/
theorem load_store {v v' : CollectionAccount} (hload : load accounts 0 = .ok v)
    (hstore : store accounts 0 v' = .ok mid) : ∃ a rest, WritesFirst accounts mid a rest v' ∧
      a.isWritable = true ∧ tryFromSlice a.data = some v := by
  obtain ⟨a, rest, hwrites, hw⟩ := store_writable hstore
  obtain ⟨a', ha', hdata⟩ := load_eq_ok hload
  rw [hwrites.given, List.getElem?_cons_zero, Option.some.injEq] at ha'
  subst ha'
  exact ⟨a, rest, hwrites, hw, hdata⟩

/-- **Inversion of a lending instruction that succeeded.** -/
theorem lending_move {ix : LendingInstruction}
    (h : Lending.run π hasher accounts timestamp ix = .ok mid) :
    ∃ a rest coll', WritesFirst accounts mid a rest coll' ∧ a.isWritable = true ∧
      LendingMove π hasher timestamp (tryFromSlice a.data) coll' ix := by
  cases ix with
  | initCollection name =>
    obtain ⟨a₀, hslot, h₁⟩ := bind_eq_ok.mp h
    obtain ⟨_, hname, h₂⟩ := bind_eq_ok.mp h₁
    obtain ⟨a, rest, hwrites, hw⟩ := store_writable h₂
    have ha := slot_eq_ok hslot
    rw [hwrites.given, List.getElem?_cons_zero, Option.some.injEq] at ha
    subst ha
    refine ⟨a, rest, _, hwrites, hw, fun before hbefore => ?_, rfl⟩
    simpa [hbefore] using hname
  | placeBid bidUtxo loanValue loanPeriod interestRateBps ordinals payments =>
    obtain ⟨coll, hload, h₁⟩ := bind_eq_ok.mp h
    obtain ⟨_, hfree, h₂⟩ := bind_eq_ok.mp h₁
    obtain ⟨a, rest, hwrites, hw, hdata⟩ := load_store hload h₂
    exact ⟨a, rest, _, hwrites, hw, coll, hdata, by simpa using hfree, rfl⟩
  | cancelBid bidUtxo =>
    obtain ⟨coll, hload, h₁⟩ := bind_eq_ok.mp h
    obtain ⟨_, hopen, h₂⟩ := bind_eq_ok.mp h₁
    obtain ⟨a, rest, hwrites, hw, hdata⟩ := load_store hload h₂
    exact ⟨a, rest, _, hwrites, hw, coll, hdata, by simpa using hopen, rfl⟩
  | acceptBid inscriptionId inscriptionUtxo ordinals payments =>
    obtain ⟨coll, hload, h₁⟩ := bind_eq_ok.mp h
    obtain ⟨_, -, h₂⟩ := bind_eq_ok.mp h₁
    obtain ⟨_, hfree, h₃⟩ := bind_eq_ok.mp h₂
    obtain ⟨best, hbest, h₄⟩ := bind_eq_ok.mp h₃
    obtain ⟨a, rest, hwrites, hw, hdata⟩ := load_store hload h₄
    exact ⟨a, rest, _, hwrites, hw, coll, best, hdata, by simpa using hfree, okOr_eq_ok.mp hbest, rfl⟩
  | repayLoan inscriptionId repaymentUtxo amount =>
    obtain ⟨coll, hload, h₁⟩ := bind_eq_ok.mp h
    obtain ⟨loan, hloan, h₂⟩ := bind_eq_ok.mp h₁
    dsimp only at h₂
    split at h₂
    · -- The loan has expired: it is put back, and the instruction fails.
      obtain ⟨_, -, h₃⟩ := bind_eq_ok.mp h₂
      simp [fail] at h₃
    · obtain ⟨_, -, h₃⟩ := bind_eq_ok.mp h₂
      obtain ⟨due, hdue, h₄⟩ := bind_eq_ok.mp h₃
      split at h₄
      · rename_i hpaid
        obtain ⟨a, rest, hwrites, hw, hdata⟩ := load_store hload h₄
        refine ⟨a, rest, _, hwrites, hw, coll, loan, due, hdata, okOr_eq_ok.mp hloan,
          orPanic_eq_ok.mp hdue, ?_⟩
        rw [if_pos hpaid]
        rfl
      · rename_i hpart
        obtain ⟨a, rest, hwrites, hw, hdata⟩ := load_store hload h₄
        refine ⟨a, rest, _, hwrites, hw, coll, loan, due, hdata, okOr_eq_ok.mp hloan,
          orPanic_eq_ok.mp hdue, ?_⟩
        rw [if_neg hpart]
        rfl
  | claimDefault inscriptionId =>
    obtain ⟨coll, hload, h₁⟩ := bind_eq_ok.mp h
    obtain ⟨loan, hloan, h₂⟩ := bind_eq_ok.mp h₁
    obtain ⟨_, hlate, h₃⟩ := bind_eq_ok.mp h₂
    obtain ⟨a, rest, hwrites, hw, hdata⟩ := load_store hload h₃
    exact ⟨a, rest, _, hwrites, hw, coll, loan, hdata, okOr_eq_ok.mp hloan, by simpa using hlate, rfl⟩

end

end Proof
end Himsha
