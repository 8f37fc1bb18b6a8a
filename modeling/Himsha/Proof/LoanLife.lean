import Himsha.Proof.Pledges

/-!
# The life of a loan

Seen from one inscription id, a lending event is a step of a small machine (`LoanStep`): nothing
happens, the loan is paid on, or it ends with the return or the seizure of the inscription; or a
loan is opened where there was none. `loan_step` is that simulation, for every event of a run on a
collection with a name. The history of a loan is then an induction over the machine.
-/

set_option autoImplicit false

namespace Himsha
namespace Proof

open Himsha.Lib Himsha.Runtime Himsha.Programs

open Lending

/-! ## Histories -/

/-- The settlements that an event queues. -/
def queuedBy (π : Profile) (stored : List UInt8) (e : LendingEvent) : List Settlement :=
  (queuedIn (lendingNext π stored e)).drop (queuedIn stored).length

/-- The id of the loan that an event opens. -/
def opens (π : Profile) (stored : List UInt8) (e : LendingEvent) : Option String :=
  match completed π stored e with
  | some (.acceptBid id _ _ _) => some id
  | _ => none

/-- What is stored after a run. -/
def storedEnd (π : Profile) (stored : List UInt8) (es : List LendingEvent) : List UInt8 :=
  es.foldl (lendingNext π) stored

/-- What a run queues for an id until the id is pledged again, with the timestamps. -/
def queuedFor (π : Profile) (id : String) :
    List UInt8 → List LendingEvent → List (UInt64 × Settlement)
  | _, [] => []
  | stored, e :: es =>
      if opens π stored e = some id then []
      else ((queuedBy π stored e).filter (·.inscriptionId = id)).map (e.timestamp, ·) ++
        queuedFor π id (lendingNext π stored e) es

/-- The id is pledged again in a run. -/
def pledgedAgain (π : Profile) (id : String) : List UInt8 → List LendingEvent → Prop
  | _, [] => False
  | stored, e :: es => opens π stored e = some id ∨ pledgedAgain π id (lendingNext π stored e) es

/-- The sats of some settlements. -/
def paidIn (queued : List (UInt64 × Settlement)) : Nat :=
  (queued.map (·.2.amount.toNat)).sum

/-! ## The machine -/

/-- What an event can do to a loan, and what it queues for it. -/
inductive LoanStep (π : Profile) (id : String) (timestamp : UInt64) :
    Option Loan → List Settlement → Option Loan → Prop
  | rests (l : Option Loan) : LoanStep π id timestamp l [] l
  | paid (loan : Loan) (utxo : UtxoMeta) (amount : UInt64) :
      LoanStep π id timestamp (some loan) [paymentOf id utxo amount loan]
        (some { loan with repaid := saturatingAdd loan.repaid amount })
  | returned (loan : Loan) (utxo : UtxoMeta) (amount due : UInt64)
      (hdue : loan.repaymentDue π = some due) (hpaid : due ≤ saturatingAdd loan.repaid amount) :
      LoanStep π id timestamp (some loan) [paymentOf id utxo amount loan, returnOf id loan] none
  | seized (loan : Loan) (hlate : loan.loanPeriod < saturatingSub timestamp loan.startedAt) :
      LoanStep π id timestamp (some loan) [seizureOf id loan] none

/-- The stored data is a collection with a name. -/
def Named (stored : List UInt8) : Prop :=
  ∃ coll : CollectionAccount, tryFromSlice stored = some coll ∧ coll.name ≠ ""

section
variable {π : Profile} {stored : List UInt8} {e : LendingEvent} {id : String}

theorem queuedBy_eq {coll coll' : CollectionAccount} {more : List Settlement}
    (hcoll : tryFromSlice stored = some coll)
    (hnext : tryFromSlice (lendingNext π stored e) = some coll')
    (hqueue : coll'.pendingSettlements = coll.pendingSettlements ++ more) :
    queuedBy π stored e = more := by
  unfold queuedBy queuedIn
  rw [hcoll, hnext]
  dsimp only
  rw [hqueue, List.drop_left]

/-- What is drained queues nothing. -/
theorem queuedBy_none (h : completed π stored e = none) : queuedBy π stored e = [] := by
  unfold queuedBy queuedIn
  rcases completed_none h with hsame | ⟨coll, -, hnext⟩
  · rw [hsame, List.drop_length]
  · rw [hnext]
    exact List.drop_nil

theorem opens_eq {id' : String} (h : opens π stored e = some id') :
    ∃ utxo ordinals payments,
      completed π stored e = some (.acceptBid id' utxo ordinals payments) := by
  unfold opens at h
  split at h
  · rename_i id₀ utxo ordinals payments hdone
    obtain rfl : id₀ = id' := Option.some.inj h
    exact ⟨utxo, ordinals, payments, hdone⟩
  · simp at h

theorem closedBy_loans {id' : String} {queued : List Settlement} {coll : CollectionAccount} :
    (closedBy id' queued coll).activeLoans[id]? =
      if id' = id then none else coll.activeLoans[id]? := by
  simp only [closedBy]
  rw [Std.ExtTreeMap.getElem?_erase]
  exact if_congr Std.LawfulEqCmp.compare_eq_iff_eq rfl rfl

theorem paidOn_loans {id' : String} {amount : UInt64} {payment : Settlement} {loan : Loan}
    {coll : CollectionAccount} : (paidOn id' amount payment loan coll).activeLoans[id]? =
      if id' = id then some { loan with repaid := saturatingAdd loan.repaid amount }
      else coll.activeLoans[id]? := by
  simp only [paidOn]
  rw [Std.ExtTreeMap.getElem?_insert, Std.ExtTreeMap.getElem?_erase]
  by_cases hid : id' = id
  · rw [if_pos (Std.LawfulEqCmp.compare_eq_iff_eq.mpr hid), if_pos hid]
  · have hcmp : ¬ compare id' id = .eq := fun h => hid (Std.LawfulEqCmp.compare_eq_iff_eq.mp h)
    rw [if_neg hcmp, if_neg hcmp, if_neg hid]

/-- **An event, seen from one id.** -/
theorem loan_step (e : LendingEvent) (id : String) (hnamed : Named stored) :
    Named (lendingNext π stored e) ∧
    ((opens π stored e = some id ∧ loanAt stored id = none ∧ queuedBy π stored e = []) ∨
      opens π stored e ≠ some id ∧ LoanStep π id e.timestamp (loanAt stored id)
        ((queuedBy π stored e).filter (·.inscriptionId = id))
        (loanAt (lendingNext π stored e) id)) := by
  obtain ⟨coll, hcoll, hname⟩ := hnamed
  cases hdone : completed π stored e with
  | none =>
    have hopens : opens π stored e ≠ some id := by simp [opens, hdone]
    refine ⟨?_, .inr ⟨hopens, ?_⟩⟩
    · rcases completed_none hdone with hsame | ⟨coll₀, hcoll₀, hnext⟩
      · rw [hsame]
        exact ⟨coll, hcoll, hname⟩
      · rw [hcoll, Option.some.injEq] at hcoll₀
        subst hcoll₀
        exact ⟨_, hnext, hname⟩
    · rw [queuedBy_none hdone, completed_none_loanAt hdone]
      exact .rests _
  | some ix =>
    obtain ⟨hasher, c, s, coll', rfl, -, -, -, hmove, hnext⟩ := completed_some hdone
    cases ix with
    | initCollection name =>
      obtain ⟨hunnamed, -⟩ := hmove
      exact absurd (String.isEmpty_iff.mp (hunnamed coll hcoll)) hname
    | placeBid utxo value period rate ordinals payments =>
      obtain ⟨before, hbefore, -, rfl⟩ := hmove
      obtain rfl : coll = before := Option.some.inj (hcoll.symm.trans hbefore)
      refine ⟨⟨_, hnext, hname⟩, .inr ⟨by simp [opens, hdone], ?_⟩⟩
      rw [queuedBy_eq hcoll hnext (List.append_nil _).symm, loanAt_eq hnext, loanAt_eq hcoll]
      exact .rests _
    | cancelBid utxo =>
      obtain ⟨before, hbefore, -, rfl⟩ := hmove
      obtain rfl : coll = before := Option.some.inj (hcoll.symm.trans hbefore)
      refine ⟨⟨_, hnext, hname⟩, .inr ⟨by simp [opens, hdone], ?_⟩⟩
      rw [queuedBy_eq hcoll hnext (List.append_nil _).symm, loanAt_eq hnext, loanAt_eq hcoll]
      exact .rests _
    | acceptBid id' utxo ordinals payments =>
      obtain ⟨before, best, hbefore, hfree, -, rfl⟩ := hmove
      obtain rfl : coll = before := Option.some.inj (hcoll.symm.trans hbefore)
      refine ⟨⟨_, hnext, hname⟩, ?_⟩
      have hopens : opens π stored (.call hasher c) = some id' := by simp [opens, hdone]
      rw [hopens, loanAt_eq hnext, loanAt_eq hcoll]
      simp only [acceptedBy]
      have hqueued : queuedBy π stored (.call hasher c) = [] :=
        queuedBy_eq hcoll hnext (List.append_nil _).symm
      by_cases hid : id' = id
      · left
        subst hid
        rw [Std.ExtTreeMap.contains_eq_isSome_getElem?] at hfree
        exact ⟨rfl, Option.not_isSome_iff_eq_none.mp (Bool.eq_false_iff.mp hfree), hqueued⟩
      · right
        refine ⟨fun h => hid (Option.some.inj h), ?_⟩
        rw [hqueued, Std.ExtTreeMap.getElem?_insert,
          if_neg fun hcmp => hid (Std.LawfulEqCmp.compare_eq_iff_eq.mp hcmp)]
        exact .rests _
    | repayLoan id' utxo amount =>
      obtain ⟨before, loan, due, hbefore, hloan, hdue, rfl⟩ := hmove
      obtain rfl : coll = before := Option.some.inj (hcoll.symm.trans hbefore)
      have hopens : opens π stored (.call hasher c) ≠ some id := by simp [opens, hdone]
      rw [loanAt_eq hnext, loanAt_eq hcoll]
      split at hnext
      · rename_i hpaid
        refine ⟨⟨_, hnext, hname⟩, .inr ⟨hopens, ?_⟩⟩
        rw [queuedBy_eq hcoll hnext rfl, if_pos hpaid, closedBy_loans]
        by_cases hid : id' = id
        · subst hid
          rw [if_pos rfl, hloan]
          simpa [paymentOf, returnOf] using .returned loan utxo amount due hdue hpaid
        · rw [if_neg hid]
          simpa [paymentOf, returnOf, hid] using .rests _
      · rename_i hpart
        refine ⟨⟨_, hnext, hname⟩, .inr ⟨hopens, ?_⟩⟩
        rw [queuedBy_eq hcoll hnext rfl, if_neg hpart, paidOn_loans]
        by_cases hid : id' = id
        · subst hid
          rw [if_pos rfl, hloan]
          simpa [paymentOf] using .paid loan utxo amount
        · rw [if_neg hid]
          simpa [paymentOf, hid] using .rests _
    | claimDefault id' =>
      obtain ⟨before, loan, hbefore, hloan, hlate, rfl⟩ := hmove
      obtain rfl : coll = before := Option.some.inj (hcoll.symm.trans hbefore)
      refine ⟨⟨_, hnext, hname⟩, .inr ⟨by simp [opens, hdone], ?_⟩⟩
      rw [queuedBy_eq hcoll hnext rfl, loanAt_eq hnext, loanAt_eq hcoll, closedBy_loans]
      by_cases hid : id' = id
      · subst hid
        rw [if_pos rfl, hloan]
        simpa [seizureOf] using .seized loan hlate
      · rw [if_neg hid]
        simpa [seizureOf, hid] using .rests _

/-! ## The history of a loan -/

/-- A loan that is open: only payments were queued for it, and its terms are what they were. -/
structure StillOpen (loan : Loan) (queued : List (UInt64 × Settlement)) (now : Option Loan) :
    Prop where
  payments : ∀ p ∈ queued, p.2.kind = .repayment
  active : ∃ l, now = some l ∧ l = { loan with repaid := l.repaid }

/-- A settlement that ends a loan, with the inscription of the loan: its return to the borrower,
    where the payments come to what is due, or its seizure by the lender, after the loan period. -/
structure Ends (π : Profile) (loan : Loan) (paid : Nat) (timestamp : UInt64) (s : Settlement) :
    Prop where
  utxo : s.utxo = loan.inscriptionUtxo
  how : (s.kind = .returnInscription ∧ s.recipient = loan.borrowerOrdinalsAddress ∧
      ∃ due, loan.repaymentDue π = some due ∧ due.toNat ≤ paid) ∨
    (s.kind = .seizeInscription ∧ s.recipient = loan.lenderOrdinalsAddress ∧
      loan.startedAt.toNat + loan.loanPeriod.toNat < timestamp.toNat)

/-- A loan that has ended: payments, and then the one settlement that ends it. -/
def Ended (π : Profile) (loan : Loan) (before : Nat) (queued : List (UInt64 × Settlement)) : Prop :=
  ∃ payments timestamp s, queued = payments ++ [(timestamp, s)] ∧
    (∀ p ∈ payments, p.2.kind = .repayment) ∧
    Ends π loan (before + paidIn payments) timestamp s

theorem queuedFor_cons {es : List LendingEvent} (h : opens π stored e ≠ some id) :
    queuedFor π id stored (e :: es) =
      ((queuedBy π stored e).filter (·.inscriptionId = id)).map (e.timestamp, ·) ++
        queuedFor π id (lendingNext π stored e) es :=
  if_neg h

/-- An id without a loan: nothing is queued for it until it is pledged. -/
theorem idle_rest (es : List LendingEvent) : ∀ {stored : List UInt8}, Named stored →
    loanAt stored id = none → queuedFor π id stored es = [] ∧
      (¬ pledgedAgain π id stored es → loanAt (storedEnd π stored es) id = none) := by
  induction es with
  | nil => exact fun _ hidle => ⟨rfl, fun _ => hidle⟩
  | cons e es ih =>
    intro stored hnamed hidle
    obtain ⟨hnamed', hopened | ⟨hopens, hstep⟩⟩ := loan_step e id hnamed
    · exact ⟨if_pos hopened.1, fun hnever => absurd (.inl hopened.1) hnever⟩
    · rw [queuedFor_cons hopens]
      rw [hidle] at hstep
      generalize (queuedBy π stored e).filter (·.inscriptionId = id) = queued at hstep
      generalize hnext : loanAt (lendingNext π stored e) id = next at hstep
      cases hstep with
      | rests =>
        obtain ⟨hnone, hlast⟩ := ih hnamed' hnext
        exact ⟨hnone, fun hnever => hlast fun hagain => hnever (.inr hagain)⟩

/-- A payment adds at most its amount. -/
theorem saturatingAdd_le (a b : UInt64) : (saturatingAdd a b).toNat ≤ a.toNat + b.toNat := by
  rw [saturatingAdd_toNat]
  exact Nat.min_le_left _ _

/-- **An id with an open loan**: payments, and at most one settlement that ends it. -/
theorem open_rest {loan : Loan} (es : List LendingEvent) :
    ∀ {stored : List UInt8} {now : Loan}, Named stored → loanAt stored id = some now →
      now = { loan with repaid := now.repaid } →
      (¬ pledgedAgain π id stored es ∧
        StillOpen loan (queuedFor π id stored es) (loanAt (storedEnd π stored es) id)) ∨
      (Ended π loan now.repaid.toNat (queuedFor π id stored es) ∧
        (¬ pledgedAgain π id stored es → loanAt (storedEnd π stored es) id = none)) := by
  induction es with
  | nil =>
    intro stored now _ hat hterms
    exact .inl ⟨fun hnever => hnever, ⟨by simp [queuedFor], now, hat, hterms⟩⟩
  | cons e es ih =>
    intro stored now hnamed hat hterms
    obtain ⟨hnamed', hopened | ⟨hopens, hstep⟩⟩ := loan_step e id hnamed
    · rw [hat] at hopened
      simp at hopened
    rw [queuedFor_cons hopens]
    rw [hat] at hstep
    generalize (queuedBy π stored e).filter (·.inscriptionId = id) = queued at hstep
    generalize hnext : loanAt (lendingNext π stored e) id = next at hstep
    have hagain : pledgedAgain π id stored (e :: es) ↔
        pledgedAgain π id (lendingNext π stored e) es :=
      ⟨fun h => h.resolve_left hopens, .inr⟩
    rw [hagain]
    cases hstep with
    | rests => exact ih hnamed' hnext hterms
    | paid loan' utxo amount =>
      have hle := saturatingAdd_le now.repaid amount
      rcases ih hnamed' hnext (by rw [hterms]) with ⟨hnever, hopen⟩ | ⟨hended, hlast⟩
      · refine .inl ⟨hnever, ?_, hopen.active⟩
        intro p hp
        rcases List.mem_cons.mp hp with rfl | hrest
        · rfl
        · exact hopen.payments p hrest
      · obtain ⟨payments, timestamp, s, hqueued, hpayments, hends⟩ := hended
        refine .inr ⟨⟨(e.timestamp, paymentOf id utxo amount now) :: payments, timestamp, s, ?_, ?_,
          hends.utxo, ?_⟩, hlast⟩
        · rw [hqueued]
          rfl
        · intro p hp
          rcases List.mem_cons.mp hp with rfl | hrest
          · rfl
          · exact hpayments p hrest
        · rcases hends.how with ⟨hkind, hto, due, hdue, hpaid⟩ | hseized
          · refine .inl ⟨hkind, hto, due, hdue, ?_⟩
            have hsum : paidIn ((e.timestamp, paymentOf id utxo amount now) :: payments) =
                amount.toNat + paidIn payments := by
              simp [paidIn, paymentOf]
            dsimp only at hpaid
            omega
          · exact .inr hseized
    | returned loan' utxo amount due hdue hpaid =>
      obtain ⟨hnone, hlast⟩ := idle_rest es hnamed' hnext
      rw [hnone]
      have hle := saturatingAdd_le now.repaid amount
      refine .inr ⟨⟨[(e.timestamp, paymentOf id utxo amount now)], e.timestamp,
        returnOf id now, rfl, ?_, ?_, ?_⟩, hlast⟩
      · intro p hp
        rw [List.mem_singleton.mp hp]
        rfl
      · rw [hterms]
        rfl
      · refine .inl ⟨rfl, by rw [hterms]; rfl, due, by rw [← hdue, hterms]; rfl, ?_⟩
        have hsum : paidIn [(e.timestamp, paymentOf id utxo amount now)] = amount.toNat := by
          simp [paidIn, paymentOf]
        have hreached := UInt64.le_iff_toNat_le.mp hpaid
        omega
    | seized loan' hlate =>
      obtain ⟨hnone, hlast⟩ := idle_rest es hnamed' hnext
      rw [hnone]
      refine .inr ⟨⟨[], e.timestamp, seizureOf id now, rfl, by simp, ?_, ?_⟩, hlast⟩
      · rw [hterms]
        rfl
      · refine .inr ⟨rfl, by rw [hterms]; rfl, ?_⟩
        have hstarted : now.startedAt = loan.startedAt := by rw [hterms]
        have hperiod : now.loanPeriod = loan.loanPeriod := by rw [hterms]
        have hlater := UInt64.lt_iff_toNat_lt.mp hlate
        rw [saturatingSub_toNat, hstarted, hperiod] at hlater
        omega

/-- What an acceptance records: its own arguments, and the terms of a bid of the book. -/
theorem opens_records (h : opens π stored e = some id) :
    ∃ k bid utxo ordinals payments, bidAt stored k = some bid ∧
      e.asks = some (.acceptBid id utxo ordinals payments) ∧
      loanAt (lendingNext π stored e) id =
        some (openedBy id utxo ordinals payments e.timestamp bid) := by
  obtain ⟨utxo, ordinals, payments, hdone⟩ := opens_eq h
  have hasks := completed_asks hdone
  obtain ⟨hasher, c, s, coll', rfl, -, -, -, hmove, hnext⟩ := completed_some hdone
  obtain ⟨before, best, hcoll, -, hbest, rfl⟩ := hmove
  refine ⟨best.1, best.2, utxo, ordinals, payments, ?_, hasks, ?_⟩
  · rw [bidAt_eq hcoll]
    exact Std.ExtTreeMap.mem_toList_iff_getElem?_eq_some.mp (best_mem hbest)
  · rw [loanAt_eq hnext]
    exact Std.ExtTreeMap.getElem?_insert_self

/-- A loan that is active after an event was opened by it, or was active with the same terms. -/
theorem loan_origin {loan : Loan} (h : loanAt (lendingNext π stored e) id = some loan) :
    opens π stored e = some id ∨
      ∃ old, loanAt stored id = some old ∧ loan = { old with repaid := loan.repaid } := by
  cases hdone : completed π stored e with
  | none =>
    rw [completed_none_loanAt hdone] at h
    exact .inr ⟨loan, h, rfl⟩
  | some ix =>
    obtain ⟨hasher, c, s, coll', rfl, -, -, -, hmove, hnext⟩ := completed_some hdone
    rw [loanAt_eq hnext] at h
    cases ix with
    | initCollection name =>
      obtain ⟨-, rfl⟩ := hmove
      simp at h
    | placeBid utxo value period rate ordinals payments =>
      obtain ⟨before, hbefore, -, rfl⟩ := hmove
      exact .inr ⟨loan, (loanAt_eq hbefore id).trans h, rfl⟩
    | cancelBid utxo =>
      obtain ⟨before, hbefore, -, rfl⟩ := hmove
      exact .inr ⟨loan, (loanAt_eq hbefore id).trans h, rfl⟩
    | acceptBid id' utxo ordinals payments =>
      obtain ⟨before, best, hbefore, -, -, rfl⟩ := hmove
      dsimp only [acceptedBy] at h
      rw [Std.ExtTreeMap.getElem?_insert] at h
      split at h
      · rename_i hid
        obtain rfl := Std.LawfulEqCmp.compare_eq_iff_eq.mp hid
        exact .inl (by simp [opens, hdone])
      · exact .inr ⟨loan, (loanAt_eq hbefore id).trans h, rfl⟩
    | repayLoan id' utxo amount =>
      obtain ⟨before, loan', due, hbefore, hat, -, rfl⟩ := hmove
      right
      split at h
      · rw [closedBy_loans] at h
        split at h
        · simp at h
        · exact ⟨loan, (loanAt_eq hbefore id).trans h, rfl⟩
      · rw [paidOn_loans] at h
        split at h
        · rename_i hid
          rw [Option.some.injEq] at h
          subst hid h
          exact ⟨loan', (loanAt_eq hbefore id').trans hat, rfl⟩
        · exact ⟨loan, (loanAt_eq hbefore id).trans h, rfl⟩
    | claimDefault id' =>
      obtain ⟨before, loan', hbefore, -, -, rfl⟩ := hmove
      rw [closedBy_loans] at h
      split at h
      · simp at h
      · exact .inr ⟨loan, (loanAt_eq hbefore id).trans h, rfl⟩

theorem storedEnd_snoc (es : List LendingEvent) :
    storedEnd π stored (es ++ [e]) = lendingNext π (storedEnd π stored es) e := by
  unfold storedEnd
  rw [List.foldl_append]
  rfl

theorem pledgedAgain_snoc (es : List LendingEvent) : ∀ {stored : List UInt8},
    pledgedAgain π id stored (es ++ [e]) ↔
      pledgedAgain π id stored es ∨ opens π (storedEnd π stored es) e = some id := by
  induction es with
  | nil =>
    intro stored
    exact ⟨fun h => .inr (h.resolve_right fun hnever => hnever), fun h => h.elim False.elim .inl⟩
  | cons a es ih =>
    intro stored
    change _ ∨ pledgedAgain π id (lendingNext π stored a) (es ++ [e]) ↔ (_ ∨ _) ∨ _
    rw [ih, or_assoc]
    rfl

theorem named_end (es : List LendingEvent) : ∀ {stored : List UInt8}, Named stored →
    Named (storedEnd π stored es) := by
  induction es with
  | nil => exact fun h => h
  | cons e es ih => exact fun h => ih (loan_step e "" h).1

/-- An active loan of a run from a collection without loans was opened in the run. -/
theorem opened_in_run (hnamed : Named stored) (hidle : loanAt stored id = none)
    (es : List LendingEvent) : ∀ {loan : Loan}, loanAt (storedEnd π stored es) id = some loan →
      ∃ before a after, es = before ++ a :: after ∧
        opens π (storedEnd π stored before) a = some id ∧
        ¬ pledgedAgain π id (storedEnd π stored (before ++ [a])) after := by
  induction es using List.reverseRecOn with
  | nil =>
    intro loan h
    rw [show storedEnd π stored [] = stored from rfl, hidle] at h
    simp at h
  | append_singleton es e ih =>
    intro loan h
    rw [storedEnd_snoc] at h
    obtain ⟨-, hopened | ⟨hopens, hstep⟩⟩ := loan_step e id
      (named_end (π := π) es hnamed)
    · exact ⟨es, e, [], rfl, hopened.1, fun hnever => hnever⟩
    · rw [h] at hstep
      obtain ⟨old, hold⟩ : ∃ old, loanAt (storedEnd π stored es) id = some old := by
        generalize loanAt (storedEnd π stored es) id = now at hstep
        generalize (queuedBy π (storedEnd π stored es) e).filter (·.inscriptionId = id) = queued
          at hstep
        cases hstep with
        | rests => exact ⟨loan, rfl⟩
        | paid loan' utxo amount => exact ⟨loan', rfl⟩
      obtain ⟨before, a, after, rfl, hat, honce⟩ := ih hold
      refine ⟨before, a, after ++ [e], by simp, hat, fun hagain => ?_⟩
      rcases (pledgedAgain_snoc after).mp hagain with hbefore | hlast
      · exact honce hbefore
      · have hend : storedEnd π (storedEnd π stored (before ++ [a])) after =
            storedEnd π stored (before ++ a :: after) := by
          unfold storedEnd
          rw [← List.foldl_append, List.append_assoc, List.singleton_append]
        rw [hend] at hlast
        exact hopens hlast

/-- Something is queued only for an active loan. -/
theorem queued_for_active {s : Settlement} (hnamed : Named stored) (h : s ∈ queuedBy π stored e) :
    ∃ loan, loanAt stored s.inscriptionId = some loan := by
  have hmem : s ∈ (queuedBy π stored e).filter (·.inscriptionId = s.inscriptionId) :=
    List.mem_filter.mpr ⟨h, by simp⟩
  obtain ⟨-, hopened | ⟨-, hstep⟩⟩ := loan_step e s.inscriptionId hnamed
  · rw [hopened.2.2] at h
    simp at h
  · generalize (queuedBy π stored e).filter (·.inscriptionId = s.inscriptionId) = queued
      at hstep hmem
    generalize loanAt stored s.inscriptionId = now at hstep
    generalize loanAt (lendingNext π stored e) s.inscriptionId = next at hstep
    cases hstep with
    | rests => simp at hmem
    | paid loan utxo amount => exact ⟨loan, rfl⟩
    | returned loan utxo amount due _ _ => exact ⟨loan, rfl⟩
    | seized loan _ => exact ⟨loan, rfl⟩

/-- **The life of a loan.** Take a collection that is initialized with a name, and any run on it: calls
    in any order, with any timestamps and in processes with any hashers, and the node draining
    the queue at any point. Each loan that an `AcceptBid` opens records its arguments and the terms
    of a bid; from then on it is either still active, with payments only queued for it, or it has had
    exactly one settlement queued that ends it: the return to its borrower, the payments queued
    for it coming to what is due, or the seizure by its lender, after its period. And whatever is
    queued in the run is queued for such a loan. -/
theorem loan_lifecycle (π : Profile) (stored₀ : List UInt8) (e₀ : LendingEvent) (name : String)
    (hinit : completed π stored₀ e₀ = some (.initCollection name)) (hname : name ≠ "")
    (before : List LendingEvent) (e : LendingEvent) (stored : List UInt8)
    (hstored : stored = storedEnd π (lendingNext π stored₀ e₀) before) :
    (∀ id, opens π stored e = some id → ∃ k bid utxo ordinals payments, bidAt stored k = some bid ∧
      e.asks = some (.acceptBid id utxo ordinals payments) ∧
      loanAt (lendingNext π stored e) id =
        some (openedBy id utxo ordinals payments e.timestamp bid) ∧
      ∀ after queued, queued = queuedFor π id (lendingNext π stored e) after →
        (¬ pledgedAgain π id (lendingNext π stored e) after ∧
          StillOpen (openedBy id utxo ordinals payments e.timestamp bid) queued
            (loanAt (storedEnd π (lendingNext π stored e) after) id)) ∨
        (Ended π (openedBy id utxo ordinals payments e.timestamp bid) 0 queued ∧
          (¬ pledgedAgain π id (lendingNext π stored e) after →
            loanAt (storedEnd π (lendingNext π stored e) after) id = none))) ∧
    ∀ s ∈ queuedBy π stored e, ∃ early a late, before = early ++ a :: late ∧
      opens π (storedEnd π (lendingNext π stored₀ e₀) early) a = some s.inscriptionId ∧
      ¬ pledgedAgain π s.inscriptionId
        (storedEnd π (lendingNext π stored₀ e₀) (early ++ [a])) late := by
  obtain ⟨hasher, c, signer, coll, -, -, -, -, ⟨-, hcoll⟩, hnext⟩ := completed_some hinit
  have hstart : Named (lendingNext π stored₀ e₀) := ⟨coll, hnext, by rw [hcoll]; exact hname⟩
  have hnamed : Named stored := by
    rw [hstored]
    exact named_end before hstart
  constructor
  · intro id hopens
    obtain ⟨k, bid, utxo, ordinals, payments, hbid, hasks, hloan⟩ := opens_records hopens
    refine ⟨k, bid, utxo, ordinals, payments, hbid, hasks, hloan, fun after queued hqueued => ?_⟩
    rw [hqueued]
    exact open_rest after (loan_step e id hnamed).1 hloan rfl
  · intro s hs
    obtain ⟨loan, hloan⟩ := queued_for_active hnamed hs
    rw [hstored] at hloan
    refine opened_in_run hstart ?_ before hloan
    rw [loanAt_eq hnext, hcoll]
    simp

end

/-- A payment on the loan, at some time. -/
def paysOn (amount timestamp : UInt64) : LendingEvent :=
  calls (.repeated 4) (.repayLoan "i0" ⟨.zero 32, 7⟩ amount) timestamp

/-- The node drains the queue. -/
def drains : LendingEvent :=
  .drain { key := .repeated 3, lamports := 0, data := [], owner := ProgramIds.lendingProgram }

/-- A loan of 900 sats that is paid in two parts, the queue being drained in between. -/
theorem loan_lifecycle_repaid : ∃ k bid, bidAt (storedEnd .dev (lendingNext .dev [] opensBook)
      [bidsWith 0]) k = some bid ∧
    Ended .dev (openedBy "i0" ⟨.zero 32, 9⟩ "o" "b" 0 bid) 0
      (queuedFor .dev "i0" (lendingNext .dev (storedEnd .dev (lendingNext .dev [] opensBook)
        [bidsWith 0]) (pledges "i0")) [paysOn 400 50, drains, paysOn 500 60]) := by
  have hinit : completed .dev [] opensBook = some (.initCollection "c") := by decide
  have hopens : opens .dev (storedEnd .dev (lendingNext .dev [] opensBook) [bidsWith 0])
      (pledges "i0") = some "i0" := by
    decide +kernel
  have hasks : (pledges "i0").asks = some (.acceptBid "i0" ⟨.zero 32, 9⟩ "o" "b") := by
    decide
  have hgone : loanAt (storedEnd .dev (lendingNext .dev (storedEnd .dev
      (lendingNext .dev [] opensBook) [bidsWith 0]) (pledges "i0"))
      [paysOn 400 50, drains, paysOn 500 60]) "i0" = none := by
    decide +kernel
  obtain ⟨k, bid, utxo, ordinals, payments, hbid, hasks', -, hlife⟩ :=
    (loan_lifecycle .dev [] opensBook "c" hinit (by decide) [bidsWith 0] (pledges "i0") _ rfl).1
      "i0" hopens
  rw [hasks, Option.some.injEq, LendingInstruction.acceptBid.injEq] at hasks'
  obtain ⟨-, rfl, rfl, rfl⟩ := hasks'
  refine ⟨k, bid, hbid, ?_⟩
  rcases hlife [paysOn 400 50, drains, paysOn 500 60] _ rfl with ⟨-, hopen⟩ | ⟨hended, -⟩
  · obtain ⟨loan, hloan, -⟩ := hopen.active
    rw [hgone] at hloan
    simp at hloan
  · exact hended

end Proof
end Himsha
