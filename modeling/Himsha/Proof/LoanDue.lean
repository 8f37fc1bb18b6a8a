import Himsha.Proof.LoanLife

/-!
# What a borrower owes

A loan is owed back with its interest: the principal, and the rate of it in basis points, rounded
down (`owedBack`). The program computes this on words, with a product that saturates and a plain
sum. It comes to what is owed for the terms that `TermsFit`, and for no others; nothing bounds the
terms where a bid is placed.

`terms_end` carries the terms of the bids through a run: those of an active loan are the terms of
a bid that was placed.
-/

set_option autoImplicit false

namespace Himsha
namespace Proof

open Himsha.Lib Himsha.Runtime Himsha.Programs

open Lending

/-! ## One loan -/

/-- Principal plus the flat interest of the term, over the integers. -/
def owedBack (l : Loan) : Nat :=
  l.loanValue.toNat + l.loanValue.toNat * l.interestRateBps.toNat / bps.toNat

/-- The interest is no more than a saturated product gives, and the sum fits a word. -/
def TermsFit (loanValue interestRateBps : UInt64) : Prop :=
  loanValue.toNat * interestRateBps.toNat / bps.toNat ≤ (2 ^ 64 - 1) / bps.toNat ∧
  loanValue.toNat + loanValue.toNat * interestRateBps.toNat / bps.toNat < 2 ^ 64

instance (loanValue interestRateBps : UInt64) : Decidable (TermsFit loanValue interestRateBps) :=
  inferInstanceAs (Decidable (_ ∧ _))

section
variable {π : Profile} {stored : List UInt8} {e : LendingEvent} {id : String} {loan : Loan}

/-- The interest as the program computes it. -/
theorem interest_toNat (value rate : UInt64) : (saturatingMul value rate / bps).toNat =
    min (value.toNat * rate.toNat / bps.toNat) ((2 ^ 64 - 1) / bps.toNat) := by
  rw [UInt64.toNat_div, saturatingMul_toNat]
  have hbps : bps.toNat = 10000 := rfl
  rw [hbps]
  generalize value.toNat * rate.toNat = product
  omega

/-- **When what the program asks for is what is owed.** -/
theorem due_exact_iff (l : Loan) :
    (∃ due, l.repaymentDue π = some due ∧ due.toNat = owedBack l) ↔
      TermsFit l.loanValue l.interestRateBps := by
  have hinterest := interest_toNat l.loanValue l.interestRateBps
  unfold owedBack TermsFit
  generalize l.loanValue.toNat * l.interestRateBps.toNat / bps.toNat = interest at hinterest ⊢
  constructor
  · rintro ⟨due, hdue, hexact⟩
    have hlt := due.toNat_lt
    -- A sum that wraps, or an interest that was cut, is below what is owed.
    obtain hsum | ⟨-, -, hsum⟩ := addU64_eq_some hdue
    · omega
    · omega
  · rintro ⟨hcut, hfits⟩
    have hsum : l.loanValue.toNat + (saturatingMul l.loanValue l.interestRateBps / bps).toNat <
        2 ^ 64 := by omega
    refine ⟨_, congrArg (Option.map UInt64.ofNat) (if_pos hsum), ?_⟩
    rw [UInt64.toNat_ofNat_of_lt' hsum]
    omega

/-- What is due of the loan with an id is what is owed, and the inscription is released only once
    that much is recorded as repaid. -/
structure DueHolds (π : Profile) (stored : List UInt8) (id : String) (loan : Loan) : Prop where
  exact : ∃ due, loan.repaymentDue π = some due ∧ due.toNat = owedBack loan
  released : ∀ e utxo amount, completed π stored e = some (.repayLoan id utxo amount) →
    loanAt (lendingNext π stored e) id = none →
      owedBack loan ≤ (saturatingAdd loan.repaid amount).toNat

/-- A repayment that ends the loan has reached what is due. -/
theorem released_due {utxo : UtxoMeta} {amount : UInt64} (hloan : loanAt stored id = some loan)
    (hdone : completed π stored e = some (.repayLoan id utxo amount))
    (hgone : loanAt (lendingNext π stored e) id = none) :
    ∃ due, loan.repaymentDue π = some due ∧ due ≤ saturatingAdd loan.repaid amount := by
  obtain ⟨hasher, c, s, coll', rfl, -, -, -, hmove, hnext⟩ := completed_some hdone
  obtain ⟨before, loan', due, hbefore, hat, hdue, rfl⟩ := hmove
  rw [loanAt_eq hbefore, hat, Option.some.injEq] at hloan
  subst hloan
  refine ⟨due, hdue, ?_⟩
  split at hnext
  · assumption
  · -- A part of it keeps the loan.
    rw [loanAt_eq hnext, paidOn_loans, if_pos rfl] at hgone
    simp at hgone

theorem due_holds_iff (hloan : loanAt stored id = some loan) :
    DueHolds π stored id loan ↔ TermsFit loan.loanValue loan.interestRateBps := by
  refine ⟨fun h => (due_exact_iff loan).mp h.exact, fun hfit => ?_⟩
  obtain ⟨due, hdue, hexact⟩ := (due_exact_iff (π := π) loan).mpr hfit
  refine ⟨⟨due, hdue, hexact⟩, fun e utxo amount hdone hgone => ?_⟩
  obtain ⟨due', hdue', hpaid⟩ := released_due hloan hdone hgone
  rw [hdue, Option.some.injEq] at hdue'
  subst hdue'
  rw [← hexact]
  exact UInt64.le_iff_toNat_le.mp hpaid

/-! ## The terms in a run -/

/-- The terms of all bids and loans of a collection. -/
structure TermsMeet (P : UInt64 → UInt64 → Prop) (stored : List UInt8) : Prop where
  bids : ∀ k bid, bidAt stored k = some bid → P bid.loanValue bid.interestRateBps
  loans : ∀ id loan, loanAt stored id = some loan → P loan.loanValue loan.interestRateBps

theorem TermsMeet.mono {P Q : UInt64 → UInt64 → Prop} (h : TermsMeet P stored)
    (himp : ∀ value rate, P value rate → Q value rate) : TermsMeet Q stored :=
  ⟨fun k bid hbid => himp _ _ (h.bids k bid hbid),
    fun id loan hloan => himp _ _ (h.loans id loan hloan)⟩

/-- Only a bid that is placed brings terms in. -/
theorem terms_step {P : UInt64 → UInt64 → Prop} (h : TermsMeet P stored)
    (hplaced : ∀ utxo value period rate ordinals payments, completed π stored e =
      some (.placeBid utxo value period rate ordinals payments) → P value rate) :
    TermsMeet P (lendingNext π stored e) := by
  constructor
  · intro k bid hbid
    cases hdone : completed π stored e with
    | none =>
      rw [completed_none_bidAt hdone] at hbid
      exact h.bids k bid hbid
    | some ix =>
      obtain ⟨hasher, c, s, coll', rfl, -, -, -, hmove, hnext⟩ := completed_some hdone
      rw [bidAt_eq hnext] at hbid
      cases ix with
      | initCollection name =>
        obtain ⟨-, rfl⟩ := hmove
        simp at hbid
      | placeBid utxo value period rate ordinals payments =>
        obtain ⟨before, hbefore, -, rfl⟩ := hmove
        dsimp only at hbid
        rw [Std.ExtTreeMap.getElem?_insert] at hbid
        split at hbid
        · rw [Option.some.injEq] at hbid
          subst hbid
          exact hplaced utxo value period rate ordinals payments hdone
        · exact h.bids k bid ((bidAt_eq hbefore k).trans hbid)
      | cancelBid utxo =>
        obtain ⟨before, hbefore, -, rfl⟩ := hmove
        dsimp only at hbid
        rw [Std.ExtTreeMap.getElem?_erase] at hbid
        split at hbid
        · simp at hbid
        · exact h.bids k bid ((bidAt_eq hbefore k).trans hbid)
      | acceptBid id utxo ordinals payments =>
        obtain ⟨before, best, hbefore, -, -, rfl⟩ := hmove
        dsimp only [acceptedBy] at hbid
        rw [Std.ExtTreeMap.getElem?_erase] at hbid
        split at hbid
        · simp at hbid
        · exact h.bids k bid ((bidAt_eq hbefore k).trans hbid)
      | repayLoan id utxo amount =>
        obtain ⟨before, loan, due, hbefore, -, -, rfl⟩ := hmove
        refine h.bids k bid ((bidAt_eq hbefore k).trans ?_)
        split at hbid
        · exact hbid
        · exact hbid
      | claimDefault id =>
        obtain ⟨before, loan, hbefore, -, -, rfl⟩ := hmove
        exact h.bids k bid ((bidAt_eq hbefore k).trans hbid)
  · intro id loan hloan
    rcases loan_origin hloan with hopens | ⟨old, hold, hterms⟩
    · -- It has the terms of a bid of the book.
      obtain ⟨k, bid, utxo, ordinals, payments, hbid, -, hat⟩ := opens_records hopens
      rw [hloan, Option.some.injEq] at hat
      subst hat
      exact h.bids k bid hbid
    · rw [hterms]
      exact h.loans id old hold

/-- A run places a bid with these terms. -/
def PlacedIn (π : Profile) (stored : List UInt8) (es : List LendingEvent)
    (value rate : UInt64) : Prop :=
  ∃ before a after utxo period ordinals payments, es = before ++ a :: after ∧
    completed π (storedEnd π stored before) a =
      some (.placeBid utxo value period rate ordinals payments)

/-- What a run places is placed when the run goes on. -/
theorem PlacedIn.snoc {es : List LendingEvent} {value rate : UInt64}
    (h : PlacedIn π stored es value rate) : PlacedIn π stored (es ++ [e]) value rate := by
  obtain ⟨before, a, after, utxo, period, ordinals, payments, rfl, hdone⟩ := h
  exact ⟨before, a, after ++ [e], utxo, period, ordinals, payments, by simp, hdone⟩

/-- The terms of bids and loans, after a run from a collection without any. -/
theorem terms_end (hstart : TermsMeet (fun _ _ => False) stored) (es : List LendingEvent) :
    TermsMeet (PlacedIn π stored es) (storedEnd π stored es) := by
  induction es using List.reverseRecOn with
  | nil => exact hstart.mono fun _ _ h => h.elim
  | append_singleton es e ih =>
    rw [storedEnd_snoc]
    refine terms_step (ih.mono fun _ _ h => h.snoc) ?_
    intro utxo value period rate ordinals payments hdone
    exact ⟨es, e, [], utxo, period, ordinals, payments, rfl, hdone⟩

/-- **When a loan is owed back with its interest.** Take a collection that is initialized, and any
    run on it. Each active loan has the terms of a bid that was placed in the run. What is due of it
    is the principal and its interest, and the inscription is released only once that much is
    recorded as repaid, if and only if these terms fit; so it holds of all loans of a run that
    places only bids with terms that fit. -/
theorem repayment_due_iff (π : Profile) (stored₀ : List UInt8) (e₀ : LendingEvent) (name : String)
    (hinit : completed π stored₀ e₀ = some (.initCollection name)) (es : List LendingEvent)
    (stored : List UInt8) (hstored : stored = storedEnd π (lendingNext π stored₀ e₀) es) :
    (∀ id loan, loanAt stored id = some loan →
      PlacedIn π (lendingNext π stored₀ e₀) es loan.loanValue loan.interestRateBps ∧
      (DueHolds π stored id loan ↔ TermsFit loan.loanValue loan.interestRateBps)) ∧
    ((∀ value rate, PlacedIn π (lendingNext π stored₀ e₀) es value rate → TermsFit value rate) →
      ∀ id loan, loanAt stored id = some loan → DueHolds π stored id loan) := by
  obtain ⟨hasher, c, signer, coll, -, -, -, -, ⟨-, hcoll⟩, hnext⟩ := completed_some hinit
  have hstart : TermsMeet (fun _ _ => False) (lendingNext π stored₀ e₀) := by
    constructor
    · intro k bid hbid
      rw [bidAt_eq hnext, hcoll] at hbid
      simp at hbid
    · intro id loan hloan
      rw [loanAt_eq hnext, hcoll] at hloan
      simp at hloan
  have hterms : TermsMeet (PlacedIn π (lendingNext π stored₀ e₀) es) stored := by
    rw [hstored]
    exact terms_end hstart es
  constructor
  · intro id loan hloan
    exact ⟨hterms.loans id loan hloan, due_holds_iff hloan⟩
  · intro hfit id loan hloan
    exact (due_holds_iff hloan).mpr (hfit _ _ (hterms.loans id loan hloan))

end

/-- A bid of some sats at a rate. -/
def bidsTerms (value rate : UInt64) : LendingEvent :=
  calls (.repeated 2) (.placeBid ⟨.zero 32, 0⟩ value 100 rate "l" "p")

/-- A loan of 900 sats at 5 %, opened in a run. -/
theorem repayment_due_small : ∃ loan,
    loanAt (storedEnd .dev (lendingNext .dev [] opensBook) [bidsTerms 900 500, pledges "i0"]) "i0" =
      some loan ∧ owedBack loan = 945 ∧
    DueHolds .dev (storedEnd .dev (lendingNext .dev [] opensBook) [bidsTerms 900 500, pledges "i0"])
      "i0" loan := by
  have hinit : completed .dev [] opensBook = some (.initCollection "c") := by decide
  have hloan : (loanAt (storedEnd .dev (lendingNext .dev [] opensBook)
      [bidsTerms 900 500, pledges "i0"]) "i0").any (fun loan => loan.loanValue = 900 ∧
        loan.interestRateBps = 500) = true := by
    decide +kernel
  obtain ⟨loan, hat, hthen⟩ := (Option.any_eq_true _ _).mp hloan
  obtain ⟨hvalue, hrate⟩ := of_decide_eq_true hthen
  refine ⟨loan, hat, by rw [owedBack, hvalue, hrate]; rfl, ?_⟩
  apply ((repayment_due_iff .dev [] opensBook "c" hinit _ _ rfl).1 "i0" loan hat).2.mpr
  rw [hvalue, hrate]
  decide

/-- **A loan that is given back early.** At 200 %, a loan of 10^15 sats is owed back with
    2·10^15 sats of interest; the product saturates, and the inscription is released for less. -/
theorem vast_loan_released : ∃ stored loan,
    stored = storedEnd .release (lendingNext .release [] opensBook)
      [bidsTerms 1000000000000000 20000, pledges "i0"] ∧
    loanAt stored "i0" = some loan ∧ owedBack loan = 3000000000000000 ∧
    loan.repaymentDue .release = some 2844674407370955 ∧
    loanAt (lendingNext .release stored (paysOn 2844674407370955 50)) "i0" = none ∧
    ¬ DueHolds .release stored "i0" loan := by
  have hloan : (loanAt (storedEnd .release (lendingNext .release [] opensBook)
      [bidsTerms 1000000000000000 20000, pledges "i0"]) "i0").any (fun loan =>
        loan.loanValue = 1000000000000000 ∧ loan.interestRateBps = 20000) = true := by
    decide +kernel
  have hgone : loanAt (lendingNext .release (storedEnd .release (lendingNext .release [] opensBook)
      [bidsTerms 1000000000000000 20000, pledges "i0"]) (paysOn 2844674407370955 50)) "i0" =
        none := by
    decide +kernel
  obtain ⟨loan, hat, hthen⟩ := (Option.any_eq_true _ _).mp hloan
  obtain ⟨hvalue, hrate⟩ := of_decide_eq_true hthen
  refine ⟨_, loan, rfl, hat, ?_, ?_, hgone, ?_⟩
  · rw [owedBack, hvalue, hrate]
    rfl
  · rw [Loan.repaymentDue, hvalue, hrate]
    rfl
  · rw [due_holds_iff hat, hvalue, hrate]
    decide

end Proof
end Himsha
