import Himsha.Proof.BidChoice
import Himsha.Proof.LendingRuns

/-!
# Who withdraws a bid, and what is pledged twice

A bid is stored without the key that has placed it, and a loan without the output that funds it.
Both are known to a run only: each of the two parts below carries what it needs of the past along
with the stored collection.
-/

set_option autoImplicit false

namespace Himsha
namespace Proof

open Himsha.Lib Himsha.Runtime Himsha.Programs

open Lending

/-- The instruction that a call asks for. -/
def LendingEvent.asks : LendingEvent → Option LendingInstruction
  | .call _ c => tryFromSlice c.data
  | .drain _ => none

/-- A call that is barred, as its accounts are when it comes. -/
def LendingEvent.Barred (stored : List UInt8) (bar : CollectionAccount → Prop) :
    LendingEvent → Prop
  | .call _ c => Proof.Barred (c.accounts stored) bar
  | .drain _ => True

/-- The open bid under a key of the book. -/
def bidAt (stored : List UInt8) (k : String) : Option Bid :=
  (tryFromSlice stored : Option CollectionAccount).bind (·.bids[k]?)

/-- The active loan of an inscription id. -/
def loanAt (stored : List UInt8) (id : String) : Option Loan :=
  (tryFromSlice stored : Option CollectionAccount).bind (·.activeLoans[id]?)

section
variable {π : Profile} {stored : List UInt8} {e : LendingEvent} {ix : LendingInstruction}
  {coll : CollectionAccount}

theorem bidAt_eq (h : tryFromSlice stored = some coll) (k : String) :
    bidAt stored k = coll.bids[k]? := by
  rw [bidAt, h]
  rfl

theorem loanAt_eq (h : tryFromSlice stored = some coll) (id : String) :
    loanAt stored id = coll.activeLoans[id]? := by
  rw [loanAt, h]
  rfl

theorem completed_asks (h : completed π stored e = some ix) : e.asks = some ix := by
  cases e with
  | drain account => simp [completed] at h
  | call hasher c =>
    dsimp only [completed] at h
    split at h
    · exact h
    · simp at h

/-- What is carried out is not barred. -/
theorem bar_of_completed {bar : CollectionAccount → Prop} (h : completed π stored e = some ix)
    (hbarred : e.Barred stored bar) :
    ∀ coll, tryFromSlice stored = some coll → bar coll := by
  obtain ⟨hasher, c, s, coll', rfl, hw, hothers, hsigner, -, -⟩ := completed_some h
  rcases hbarred with hunsigned | hfirst
  · have hsecond : (c.accounts stored)[1]? = some s := by
      rw [← hothers, List.head?_eq_getElem?]
      rfl
    rw [hsecond] at hunsigned
    simp [hsigner] at hunsigned
  · rcases hfirst _ rfl with hreadonly | hbar
    · rw [hw] at hreadonly
      simp at hreadonly
    · exact hbar

/-- A call that is not barred is signed, and can write the collection. -/
theorem not_barred {hasher : Hasher} {c : RecordCall} {bar : CollectionAccount → Prop}
    (h : ¬ LendingEvent.Barred stored bar (.call hasher c)) :
    ((c.accounts stored)[1]?.map (·.isSigner)).getD false = true ∧ c.account.isWritable = true ∧
      ∃ coll, tryFromSlice stored = some coll ∧ ¬ bar coll := by
  obtain ⟨hsigned, hfirst⟩ := not_or.mp h
  push Not at hfirst
  obtain ⟨a, ha, hw, coll, hcoll, hbar⟩ := hfirst
  obtain rfl : { c.account with data := stored } = a := Option.some.inj ha
  exact ⟨by simpa using hsigned, by simpa using hw, coll, hcoll, hbar⟩

/-- A call that stores a collection is carried out. -/
theorem completed_of_store {hasher : Hasher} {c : RecordCall}
    (hasks : tryFromSlice c.data = some ix)
    (hsigned : ((c.accounts stored)[1]?.map (·.isSigner)).getD false = true)
    (hw : c.account.isWritable = true) (hcoll : Encodes coll)
    (hrun : Lending.run π hasher (c.accounts stored) c.timestamp ix =
      store (c.accounts stored) 0 coll) :
    tryFromSlice (lendingNext π stored (.call hasher c)) = some coll := by
  obtain ⟨data, hdata⟩ := hcoll.toVec
  have hprocess : process π hasher (c.accounts stored) c.data c.timestamp =
      .ok ({ c.account with data } :: c.others) := by
    have hstore : store (c.accounts stored) 0 coll = .ok ({ c.account with data } :: c.others) :=
      store_encodable (a := { c.account with data := stored }) hw hdata
    unfold process
    rw [hasks, hsigned]
    exact hrun.trans hstore
  unfold lendingNext
  dsimp only
  rw [hprocess]
  exact tryFromSlice_toVec hdata

/-- A step that completes no instruction leaves bids and loans. -/
theorem completed_none_bidAt (h : completed π stored e = none) (k : String) :
    bidAt (lendingNext π stored e) k = bidAt stored k := by
  rcases completed_none h with hsame | ⟨coll, hcoll, hnext⟩
  · rw [hsame]
  · rw [bidAt_eq hnext, bidAt_eq hcoll]
    rfl

theorem completed_none_loanAt (h : completed π stored e = none) (id : String) :
    loanAt (lendingNext π stored e) id = loanAt stored id := by
  rcases completed_none h with hsame | ⟨coll, hcoll, hnext⟩
  · rw [hsame]
  · rw [loanAt_eq hnext, loanAt_eq hcoll]
    rfl

end

/-! ## The bids of a key -/

/-- The bid that a step places with the signature of a key. -/
def placedBy (π : Profile) (key : Pubkey) (stored : List UInt8) (e : LendingEvent) : List String :=
  match completed π stored e with
  | some (.placeBid utxo _ _ _ _ _) => if e.SignedBy stored key then [bidKey utxo] else []
  | _ => []

/-- What is stored, and which of the open bids were placed with the signature of a key. -/
abbrev Watched := List UInt8 × List String

def watch (π : Profile) (key : Pubkey) (w : Watched) (e : LendingEvent) : Option Watched :=
  some (lendingNext π w.1 e, (placedBy π key w.1 e ++ w.2).filter fun k =>
    (bidAt (lendingNext π w.1 e) k).isSome)

/-- An open bid of the key stays on the book as it is, unless a bid is accepted or the key signs
    its withdrawal. -/
def OnlyWithdrawn (π : Profile) (key : Pubkey) (w : Watched) (e : LendingEvent) : Prop :=
  ∀ k ∈ w.2, bidAt (lendingNext π w.1 e) k = bidAt w.1 k ∨
    (∃ id utxo ordinals payments, e.asks = some (.acceptBid id utxo ordinals payments)) ∨
    (∃ utxo, e.asks = some (.cancelBid utxo) ∧ k = bidKey utxo ∧ e.SignedBy w.1 key)

/-- A withdrawal of a bid of the key is signed by it or barred, and a collection without a name is
    not initialized again while there are bids of the key. -/
def WithdrawalCare (key : Pubkey) (w : Watched) (e : LendingEvent) : Prop :=
  match e.asks with
  | some (.cancelBid utxo) => bidKey utxo ∈ w.2 →
      e.SignedBy w.1 key ∨ e.Barred w.1 fun _ => False
  | some (.initCollection _) => w.2 = [] ∨ e.Barred w.1 fun coll => coll.name ≠ ""
  | _ => True

section
variable {π : Profile} {key : Pubkey}

/-- The bids that are watched are open. -/
def Watched.Open (w : Watched) : Prop := ∀ k ∈ w.2, (bidAt w.1 k).isSome = true

theorem watch_open {w w' : Watched} {e : LendingEvent} (h : watch π key w e = some w') :
    w'.Open := by
  obtain rfl : _ = w' := Option.some.inj h
  intro k hk
  exact (List.mem_filter.mp hk).2

/-- **A step with care.** -/
theorem onlyWithdrawn_of_care {w : Watched} {e : LendingEvent} (hopen : w.Open)
    (hcare : WithdrawalCare key w e) : OnlyWithdrawn π key w e := by
  intro k hk
  cases hdone : completed π w.1 e with
  | none => exact .inl (completed_none_bidAt hdone k)
  | some ix =>
    have hasks := completed_asks hdone
    obtain ⟨hasher, c, s, coll', rfl, -, -, -, hmove, hnext⟩ := completed_some hdone
    rw [bidAt_eq hnext]
    unfold WithdrawalCare at hcare
    rw [hasks] at hcare
    cases ix with
    | initCollection name =>
      -- The collection has no name, so there are no bids of the key to lose.
      obtain ⟨hunnamed, rfl⟩ := hmove
      rcases hcare with hnone | hbarred
      · rw [hnone] at hk
        simp at hk
      · obtain ⟨bid, hbid⟩ := Option.isSome_iff_exists.mp (hopen k hk)
        obtain ⟨coll, hcoll, -⟩ := Option.bind_eq_some_iff.mp hbid
        refine absurd (bar_of_completed hdone hbarred coll hcoll) (not_not_intro ?_)
        exact String.isEmpty_iff.mp (hunnamed coll hcoll)
    | placeBid utxo value period rate ordinals payments =>
      obtain ⟨before, hcoll, hfree, rfl⟩ := hmove
      left
      rw [bidAt_eq hcoll, Std.ExtTreeMap.getElem?_insert]
      refine if_neg fun hcmp => ?_
      have hkey : bidKey utxo = k := Std.LawfulEqCmp.compare_eq_iff_eq.mp hcmp
      have hsome := hopen k hk
      rw [bidAt_eq hcoll, ← hkey, ← Std.ExtTreeMap.contains_eq_isSome_getElem?, hfree] at hsome
      simp at hsome
    | cancelBid utxo =>
      obtain ⟨before, hcoll, -, rfl⟩ := hmove
      by_cases hkey : bidKey utxo = k
      · subst hkey
        rcases hcare hk with hsigned | hbarred
        · exact .inr (.inr ⟨utxo, hasks, rfl, hsigned⟩)
        · exact absurd (bar_of_completed hdone hbarred before hcoll) id
      · left
        rw [bidAt_eq hcoll, Std.ExtTreeMap.getElem?_erase]
        exact if_neg fun hcmp => hkey (Std.LawfulEqCmp.compare_eq_iff_eq.mp hcmp)
    | acceptBid id utxo ordinals payments =>
      exact .inr (.inl ⟨id, utxo, ordinals, payments, hasks⟩)
    | repayLoan id utxo amount =>
      obtain ⟨before, loan, due, hcoll, -, -, rfl⟩ := hmove
      left
      rw [bidAt_eq hcoll]
      split <;> rfl
    | claimDefault id =>
      obtain ⟨before, loan, hcoll, -, -, rfl⟩ := hmove
      left
      rw [bidAt_eq hcoll]
      rfl

/-- **A step without care loses a bid of the key.** -/
theorem care_of_onlyWithdrawn {w : Watched} {e : LendingEvent} (hopen : w.Open)
    (honly : OnlyWithdrawn π key w e) : WithdrawalCare key w e := by
  unfold WithdrawalCare
  cases e with
  | drain account => trivial
  | call hasher c =>
    cases hasks : tryFromSlice (α := LendingInstruction) c.data with
    | none =>
      rw [show LendingEvent.asks (.call hasher c) = none from hasks]
      trivial
    | some ix =>
      have hasks' : LendingEvent.asks (.call hasher c) = some ix := hasks
      rw [hasks']
      cases ix with
      | placeBid _ _ _ _ _ _ | acceptBid _ _ _ _ | repayLoan _ _ _ | claimDefault _ => trivial
      | cancelBid utxo =>
        intro hk
        by_contra hneither
        obtain ⟨hunsigned, hallowed⟩ := not_or.mp hneither
        obtain ⟨hsigned, hw, coll, hcoll, -⟩ := not_barred hallowed
        have hsome := hopen _ hk
        rw [bidAt_eq hcoll, ← Std.ExtTreeMap.contains_eq_isSome_getElem?] at hsome
        have hrun : Lending.run π hasher (c.accounts w.1) c.timestamp (.cancelBid utxo) =
            store (c.accounts w.1) 0 { coll with bids := coll.bids.erase (bidKey utxo) } := by
          unfold Lending.run
          dsimp only
          rw [RecordCall.accounts, load_first hcoll]
          change (require (coll.bids.contains (bidKey utxo)) .notInitialized >>= fun _ => _) = _
          rw [hsome]
          rfl
        have hencodes : Encodes { coll with bids := coll.bids.erase (bidKey utxo) } := by
          obtain ⟨hname, hbids, hloans, hqueue⟩ :=
            encodes_collection.mp (encodes_of_tryFromSlice hcoll)
          exact encodes_collection.mpr ⟨hname, hbids.erase _, hloans, hqueue⟩
        have hnext := completed_of_store hasks hsigned hw hencodes hrun
        rcases honly _ hk with hsame | haccept | hcancel
        · rw [bidAt_eq hnext, bidAt_eq hcoll, Std.ExtTreeMap.getElem?_erase_self] at hsame
          rw [Std.ExtTreeMap.contains_eq_isSome_getElem?, ← hsame] at hsome
          simp at hsome
        · obtain ⟨id, utxo', ordinals, payments, hother⟩ := haccept
          rw [hasks'] at hother
          simp at hother
        · obtain ⟨utxo', -, -, hsignedBy⟩ := hcancel
          exact hunsigned hsignedBy
      | initCollection name =>
        change _ ∨ _
        by_contra hneither
        obtain ⟨hsome, hallowed⟩ := not_or.mp hneither
        obtain ⟨hsigned, hw, coll, hcoll, hname⟩ := not_barred hallowed
        obtain ⟨k, hk⟩ := List.exists_mem_of_ne_nil _ hsome
        have hrun : Lending.run π hasher (c.accounts w.1) c.timestamp (.initCollection name) =
            store (c.accounts w.1) 0 ({ name } : CollectionAccount) := by
          have hunnamed : coll.name.isEmpty = true := String.isEmpty_iff.mpr (not_not.mp hname)
          change (require ((tryFromSlice w.1 : Option CollectionAccount).all (·.name.isEmpty))
            .alreadyInitialized >>= fun _ => _) = _
          rw [hcoll, Option.all_some, hunnamed]
          rfl
        have hencodes : Encodes ({ name } : CollectionAccount) := by
          have htext : Encodes name := encodes_tag.mp (encodes_of_tryFromSlice hasks)
          exact encodes_collection.mpr ⟨htext, rfl, rfl, rfl⟩
        have hnext := completed_of_store hasks hsigned hw hencodes hrun
        rcases honly k hk with hsame | haccept | hcancel
        · have hopened := hopen k hk
          rw [← hsame, bidAt_eq hnext] at hopened
          simp at hopened
        · obtain ⟨id, utxo', ordinals, payments, hother⟩ := haccept
          rw [hasks'] at hother
          simp at hother
        · obtain ⟨utxo', hother, -⟩ := hcancel
          rw [hasks'] at hother
          simp at hother

/-- **When only the lender withdraws a bid.** In every run, from any stored data: a bid that was
    placed with the signature of a key stays on the book until a bid is accepted or that key signs
    its withdrawal, throughout the run, if and only if every `CancelBid` of an open bid of the key
    that is not barred is signed by it, and no `InitCollection` finds open bids of the key in a
    collection whose name is empty. -/
theorem bids_withdrawn_iff (π : Profile) (key : Pubkey) (stored : List UInt8)
    (es : List LendingEvent) :
    Meets (watch π key) (OnlyWithdrawn π key) (stored, []) es ↔
      Meets (watch π key) (WithdrawalCare key) (stored, []) es := by
  have hstart : Watched.Open (stored, []) := by
    intro k hk
    simp at hk
  constructor
  · intro h
    exact Meets.of_invariant (fun _ _ _ _ _ hstep => watch_open hstep)
      (fun _ _ honly hopen => care_of_onlyWithdrawn hopen honly) h hstart
  · intro h
    exact Meets.of_invariant (fun _ _ _ _ _ hstep => watch_open hstep)
      (fun _ _ hcare hopen => onlyWithdrawn_of_care hopen hcare) h hstart

end

/-- A call of an instruction on a collection, signed by one key. -/
def calls (signer : Pubkey) (ix : LendingInstruction) (timestamp : UInt64 := 0) : LendingEvent :=
  .call .sorted
    { account := { key := .repeated 3, lamports := 0, data := [], owner := ProgramIds.lendingProgram }
      others := [{ key := signer, lamports := 0, data := [], owner := ProgramIds.systemProgram,
                   isSigner := true, isWritable := false }]
      data := (toVec ix).getD []
      timestamp }

/-- A named collection, before anybody bids. -/
def emptyBook : List UInt8 := (toVec ({ name := "c" } : CollectionAccount)).getD []

/-- A lender bids 900 sats for a loan. -/
def lenderBids : LendingEvent :=
  calls (.repeated 2) (.placeBid ⟨.zero 32, 0⟩ 900 100 0 "l" "p")

/-- Somebody withdraws the bid. -/
def cancels (signer : Pubkey) : LendingEvent := calls signer (.cancelBid ⟨.zero 32, 0⟩)

/-- **A stranger withdraws the bid of a lender**, with nothing but a signature of its own. -/
theorem stranger_withdraws :
    (bidAt (lendingNext .dev emptyBook lenderBids) (bidKey ⟨.zero 32, 0⟩)).isSome = true ∧
    bidAt (lendingNext .dev (lendingNext .dev emptyBook lenderBids) (cancels (.repeated 4)))
      (bidKey ⟨.zero 32, 0⟩) = none ∧
    ¬ Meets (watch .dev (.repeated 2)) (OnlyWithdrawn .dev (.repeated 2)) (emptyBook, [])
      [lenderBids, cancels (.repeated 4)] := by
  have hplaced : placedBy .dev (.repeated 2) emptyBook lenderBids = [bidKey ⟨.zero 32, 0⟩] := by
    decide
  have hopen : (bidAt (lendingNext .dev emptyBook lenderBids)
      (bidKey ⟨.zero 32, 0⟩)).isSome = true := by
    decide +kernel
  have hgone : bidAt (lendingNext .dev (lendingNext .dev emptyBook lenderBids)
      (cancels (.repeated 4))) (bidKey ⟨.zero 32, 0⟩) = none := by
    decide +kernel
  have hasks : (cancels (.repeated 4)).asks = some (.cancelBid ⟨.zero 32, 0⟩) := by decide
  refine ⟨hopen, hgone, fun h => ?_⟩
  have hstep : watch .dev (.repeated 2) (emptyBook, []) lenderBids =
      some (lendingNext .dev emptyBook lenderBids, [bidKey ⟨.zero 32, 0⟩]) := by
    unfold watch
    dsimp only
    rw [hplaced]
    simp [hopen]
  rcases (h.2 _ hstep).1 _ List.mem_cons_self with hsame | haccept | hcancel
  · rw [hgone] at hsame
    rw [← hsame] at hopen
    simp at hopen
  · obtain ⟨id, utxo, ordinals, payments, hother⟩ := haccept
    rw [hasks] at hother
    simp at hother
  · obtain ⟨utxo, -, -, hsigned⟩ := hcancel
    have hunsigned : ¬ (cancels (.repeated 4)).SignedBy
        (lendingNext .dev emptyBook lenderBids) (.repeated 2) := by
      decide
    exact hunsigned hsigned

/-! ## What is pledged -/

/-- The bid that a step takes off the book. -/
def takenBid (stored stored' : List UInt8) : Option Bid :=
  (tryFromSlice stored : Option CollectionAccount).bind fun coll =>
    (coll.bids.toList.find? fun e => (bidAt stored' e.1).isNone).map (·.2)

/-- The loan that a step opens, with the output of the bid that funds it. -/
def fundedBy (π : Profile) (stored : List UInt8) (e : LendingEvent) : List (String × UtxoMeta) :=
  match completed π stored e with
  | some (.acceptBid id _ _ _) =>
      ((takenBid stored (lendingNext π stored e)).map fun bid => (id, bid.utxo)).toList
  | _ => []

/-- What is stored, and the output that funds each active loan. -/
abbrev Funded := List UInt8 × List (String × UtxoMeta)

def fund (π : Profile) (w : Funded) (e : LendingEvent) : Option Funded :=
  some (lendingNext π w.1 e, (fundedBy π w.1 e ++ w.2).filter fun p =>
    (loanAt (lendingNext π w.1 e) p.1).isSome)

/-- Nothing is pledged twice. -/
structure PledgedOnce (w : Funded) : Prop where
  /-- No two active loans have one inscription. -/
  inscriptions : ∀ id id' loan loan', loanAt w.1 id = some loan → loanAt w.1 id' = some loan' →
    loan.inscriptionUtxo = loan'.inscriptionUtxo → id = id'
  /-- It is known what funds an active loan. -/
  funded : ∀ id loan, loanAt w.1 id = some loan → ∃ utxo, (id, utxo) ∈ w.2
  /-- No output funds two active loans. -/
  outputs : ∀ id id' utxo, (id, utxo) ∈ w.2 → (id', utxo) ∈ w.2 → id = id'
  /-- What funds an active loan is not on the book. -/
  unbid : ∀ id utxo, (id, utxo) ∈ w.2 → ∀ k bid, bidAt w.1 k = some bid → bid.utxo ≠ utxo

/-- What keeps a `placeBid` from being carried out. -/
def placeBar (bidUtxo : UtxoMeta) (coll : CollectionAccount) : Prop :=
  coll.bids.contains (bidKey bidUtxo) = true ∨ 2 ^ 32 ≤ coll.bids.size + 1

/-- An `AcceptBid` names an inscription that no active loan has, and a `PlaceBid` an output that
    funds none, or they are barred. -/
def PledgeCare (w : Funded) (e : LendingEvent) : Prop :=
  match e.asks with
  | some (.acceptBid id utxo _ _) =>
      (∀ id' loan, loanAt w.1 id' = some loan → loan.inscriptionUtxo ≠ utxo) ∨
        e.Barred w.1 (acceptBar id)
  | some (.placeBid utxo _ _ _ _ _) => (∀ p ∈ w.2, p.2 ≠ utxo) ∨ e.Barred w.1 (placeBar utxo)
  | _ => True

/-- With it, that every bid is on the book under the key of its output. -/
structure PledgeBook (w : Funded) : Prop extends PledgedOnce w where
  keys : ∀ k bid, bidAt w.1 k = some bid → k = bidKey bid.utxo

/-- Loans that are closed and bids that are withdrawn. -/
theorem PledgeBook.shrink {w : Funded} {stored' : List UInt8} (h : PledgeBook w)
    (hbids : ∀ k bid, bidAt stored' k = some bid → bidAt w.1 k = some bid)
    (hloans : ∀ id loan', loanAt stored' id = some loan' → ∃ loan, loanAt w.1 id = some loan ∧
      loan.inscriptionUtxo = loan'.inscriptionUtxo) :
    PledgeBook (stored', w.2.filter fun p => (loanAt stored' p.1).isSome) where
  inscriptions := by
    intro id₁ id₂ loan₁ loan₂ h₁ h₂ hsame
    obtain ⟨old₁, hold₁, hutxo₁⟩ := hloans id₁ loan₁ h₁
    obtain ⟨old₂, hold₂, hutxo₂⟩ := hloans id₂ loan₂ h₂
    exact h.inscriptions id₁ id₂ old₁ old₂ hold₁ hold₂ (by rw [hutxo₁, hutxo₂, hsame])
  funded := by
    intro id loan' hloan
    obtain ⟨loan, hold, -⟩ := hloans id loan' hloan
    obtain ⟨utxo, hmem⟩ := h.funded id loan hold
    exact ⟨utxo, List.mem_filter.mpr ⟨hmem, by rw [hloan]; rfl⟩⟩
  outputs := by
    intro id₁ id₂ utxo h₁ h₂
    exact h.outputs id₁ id₂ utxo (List.mem_filter.mp h₁).1 (List.mem_filter.mp h₂).1
  unbid := by
    intro id utxo hmem k bid hbid
    exact h.unbid id utxo (List.mem_filter.mp hmem).1 k bid (hbids k bid hbid)
  keys := fun k bid hbid => h.keys k bid (hbids k bid hbid)

/-- The bid that an acceptance takes is the one it takes off the book. -/
theorem takenBid_accepted {stored stored' : List UInt8} {coll : CollectionAccount}
    {id ordinals payments : String} {utxo : UtxoMeta} {timestamp : UInt64} {best : String × Bid}
    (hcoll : tryFromSlice stored = some coll) (hbest : best ∈ coll.bids.toList)
    (hnext : tryFromSlice stored' =
      some (acceptedBy id utxo ordinals payments timestamp coll best)) :
    takenBid stored stored' = some best.2 := by
  have hat : coll.bids[best.1]? = some best.2 :=
    Std.ExtTreeMap.mem_toList_iff_getElem?_eq_some.mp hbest
  have hgone : bidAt stored' best.1 = none := by
    rw [bidAt_eq hnext]
    exact Std.ExtTreeMap.getElem?_erase_self
  unfold takenBid
  rw [hcoll, Option.bind_some]
  cases hfind : coll.bids.toList.find? fun e => (bidAt stored' e.1).isNone with
  | none =>
    have hall := List.find?_eq_none.mp hfind best hbest
    rw [hgone] at hall
    simp at hall
  | some e =>
    -- Only the accepted bid is gone.
    have he := List.find?_some hfind
    have hemem : coll.bids[e.1]? = some e.2 :=
      Std.ExtTreeMap.mem_toList_iff_getElem?_eq_some.mp (List.mem_of_find?_eq_some hfind)
    have hkey : best.1 = e.1 := by
      by_contra hdiff
      have hstays : bidAt stored' e.1 = some e.2 := by
        rw [bidAt_eq hnext]
        simp only [acceptedBy]
        rw [Std.ExtTreeMap.getElem?_erase,
          if_neg fun hcmp => hdiff (Std.LawfulEqCmp.compare_eq_iff_eq.mp hcmp), hemem]
      rw [hstays] at he
      simp at he
    rw [← hkey, hat, Option.some.injEq] at hemem
    rw [Option.map_some, hemem]

/-- A bid of an output that funds no loan. -/
theorem PledgeBook.place {w : Funded} {stored' : List UInt8} (utxo : UtxoMeta) (h : PledgeBook w)
    (hfresh : ∀ p ∈ w.2, p.2 ≠ utxo) (hloans : ∀ id, loanAt stored' id = loanAt w.1 id)
    (hbids : ∀ k bid, bidAt stored' k = some bid →
      (k = bidKey utxo ∧ bid.utxo = utxo) ∨ bidAt w.1 k = some bid) :
    PledgeBook (stored', w.2.filter fun p => (loanAt stored' p.1).isSome) where
  inscriptions := by
    intro id₁ id₂ loan₁ loan₂ h₁ h₂
    rw [hloans] at h₁ h₂
    exact h.inscriptions id₁ id₂ loan₁ loan₂ h₁ h₂
  funded := by
    intro id loan hloan
    obtain ⟨utxo', hmem⟩ := h.funded id loan (by rw [← hloans]; exact hloan)
    exact ⟨utxo', List.mem_filter.mpr ⟨hmem, by rw [hloan]; rfl⟩⟩
  outputs := by
    intro id₁ id₂ utxo' h₁ h₂
    exact h.outputs id₁ id₂ utxo' (List.mem_filter.mp h₁).1 (List.mem_filter.mp h₂).1
  unbid := by
    intro id utxo' hmem k bid hbid
    have hmem' := (List.mem_filter.mp hmem).1
    rcases hbids k bid hbid with ⟨-, hutxo⟩ | hold
    · rw [hutxo]
      exact (hfresh _ hmem').symm
    · exact h.unbid id utxo' hmem' k bid hold
  keys := by
    intro k bid hbid
    rcases hbids k bid hbid with ⟨hkey, hutxo⟩ | hold
    · rw [hkey, hutxo]
    · exact h.keys k bid hold

/-- A loan on an inscription that no active loan has. -/
theorem PledgeBook.accept {w : Funded} {stored' : List UInt8} {id : String}
    {best : String × Bid} (utxo : UtxoMeta) (h : PledgeBook w) (hopen : bidAt w.1 best.1 = some best.2)
    (hidle : loanAt w.1 id = none)
    (hfresh : ∀ id' loan, loanAt w.1 id' = some loan → loan.inscriptionUtxo ≠ utxo)
    (hbids : ∀ k bid, bidAt stored' k = some bid → k ≠ best.1 ∧ bidAt w.1 k = some bid)
    (hnew : (loanAt stored' id).isSome = true)
    (hloans : ∀ id' loan, loanAt stored' id' = some loan →
      (id' = id ∧ loan.inscriptionUtxo = utxo) ∨ id' ≠ id ∧ loanAt w.1 id' = some loan) :
    PledgeBook (stored', ((id, best.2.utxo) :: w.2).filter fun p =>
      (loanAt stored' p.1).isSome) := by
  -- What funded a loan of the same id is gone with it.
  have hothers : ∀ id' utxo', (id', utxo') ∈ ((id, best.2.utxo) :: w.2).filter
      (fun p => (loanAt stored' p.1).isSome) →
      (id' = id ∧ utxo' = best.2.utxo) ∨ (id', utxo') ∈ w.2 := by
    intro id' utxo' hmem
    rcases List.mem_cons.mp (List.mem_filter.mp hmem).1 with heq | hold
    · rw [Prod.mk.injEq] at heq
      exact .inl heq
    · exact .inr hold
  exact
    { inscriptions := by
        intro id₁ id₂ loan₁ loan₂ h₁ h₂ hsame
        rcases hloans id₁ loan₁ h₁ with ⟨hid₁, hutxo₁⟩ | ⟨-, hold₁⟩
        · rcases hloans id₂ loan₂ h₂ with ⟨hid₂, -⟩ | ⟨-, hold₂⟩
          · rw [hid₁, hid₂]
          · exact absurd (by rw [← hsame, hutxo₁]) (hfresh id₂ loan₂ hold₂)
        · rcases hloans id₂ loan₂ h₂ with ⟨-, hutxo₂⟩ | ⟨-, hold₂⟩
          · exact absurd (by rw [hsame, hutxo₂]) (hfresh id₁ loan₁ hold₁)
          · exact h.inscriptions id₁ id₂ loan₁ loan₂ hold₁ hold₂ hsame
      funded := by
        intro id' loan hloan
        rcases hloans id' loan hloan with ⟨rfl, -⟩ | ⟨-, hold⟩
        · exact ⟨best.2.utxo, List.mem_filter.mpr ⟨List.mem_cons_self, hnew⟩⟩
        · obtain ⟨utxo', hmem⟩ := h.funded id' loan hold
          exact ⟨utxo', List.mem_filter.mpr
            ⟨List.mem_cons_of_mem _ hmem, by rw [hloan]; rfl⟩⟩
      outputs := by
        intro id₁ id₂ utxo' h₁ h₂
        rcases hothers id₁ utxo' h₁ with ⟨hid₁, hutxo₁⟩ | hold₁
        · rcases hothers id₂ utxo' h₂ with ⟨hid₂, -⟩ | hold₂
          · rw [hid₁, hid₂]
          · exact absurd hutxo₁.symm (h.unbid id₂ utxo' hold₂ best.1 best.2 hopen)
        · rcases hothers id₂ utxo' h₂ with ⟨-, hutxo₂⟩ | hold₂
          · exact absurd hutxo₂.symm (h.unbid id₁ utxo' hold₁ best.1 best.2 hopen)
          · exact h.outputs id₁ id₂ utxo' hold₁ hold₂
      unbid := by
        intro id' utxo' hmem k bid hbid
        obtain ⟨hkey, hold⟩ := hbids k bid hbid
        rcases hothers id' utxo' hmem with ⟨-, hutxo⟩ | hfunds
        · -- Two bids of one output would be under one key.
          intro hsame
          apply hkey
          rw [h.keys k bid hold, h.keys best.1 best.2 hopen, hsame, hutxo]
        · exact h.unbid id' utxo' hfunds k bid hold
      keys := fun k bid hbid => h.keys k bid (hbids k bid hbid).2 }

/-- What is stored can be encoded, so there is room for one more entry. -/
theorem insert_fits {β : Type} [Borsh β] {m : StringMap β} {k : String} {v : β}
    (hfree : m.contains k = false) (h : Encodes (m.insert k v)) : ¬ 2 ^ 32 ≤ m.size + 1 := by
  have hsize := (encodes_map.mp h).1
  rw [Std.ExtTreeMap.size_insert, hfree] at hsize
  exact Nat.not_le.mpr hsize

section
variable {π : Profile}

/-- A loan that is paid on keeps its inscription. -/
theorem repaid_loans {before : CollectionAccount} {id : String} {loan : Loan} {amount due : UInt64}
    {utxo : UtxoMeta} (hloan : before.activeLoans[id]? = some loan) {id' : String} {loan' : Loan}
    (h : (if due ≤ saturatingAdd loan.repaid amount
      then closedBy id [paymentOf id utxo amount loan, returnOf id loan] before
      else paidOn id amount (paymentOf id utxo amount loan) loan before).activeLoans[id']? =
        some loan') :
    ∃ old, before.activeLoans[id']? = some old ∧ old.inscriptionUtxo = loan'.inscriptionUtxo := by
  split at h
  · simp only [closedBy] at h
    rw [Std.ExtTreeMap.getElem?_erase] at h
    split at h
    · simp at h
    · exact ⟨loan', h, rfl⟩
  · simp only [paidOn] at h
    rw [Std.ExtTreeMap.getElem?_insert, Std.ExtTreeMap.getElem?_erase] at h
    split at h
    · rename_i hcmp
      rw [Std.LawfulEqCmp.compare_eq_iff_eq] at hcmp
      subst hcmp
      rw [Option.some.injEq] at h
      subst h
      exact ⟨loan, hloan, rfl⟩
    · exact ⟨loan', h, rfl⟩

/-- **A step with care pledges nothing twice.** -/
theorem pledgeBook_step {w w' : Funded} {e : LendingEvent} (hcare : PledgeCare w e)
    (h : PledgeBook w) (hstep : fund π w e = some w') : PledgeBook w' := by
  obtain rfl : _ = w' := Option.some.inj hstep
  obtain ⟨stored, funding⟩ := w
  dsimp only
  cases hdone : completed π stored e with
  | none =>
    rw [show fundedBy π stored e = [] by simp [fundedBy, hdone]]
    refine h.shrink (fun k bid hbid => ?_) fun id loan hloan => ⟨loan, ?_, rfl⟩
    · rwa [completed_none_bidAt hdone] at hbid
    · rwa [completed_none_loanAt hdone] at hloan
  | some ix =>
    have hasks := completed_asks hdone
    obtain ⟨hasher, c, s, coll', rfl, -, -, -, hmove, hnext⟩ := completed_some hdone
    unfold PledgeCare at hcare
    rw [hasks] at hcare
    cases ix with
    | initCollection name =>
      obtain ⟨-, rfl⟩ := hmove
      rw [show fundedBy π stored (.call hasher c) = [] by simp [fundedBy, hdone]]
      refine h.shrink (fun k bid hbid => ?_) fun id loan hloan => ?_
      · rw [bidAt_eq hnext] at hbid
        simp at hbid
      · rw [loanAt_eq hnext] at hloan
        simp at hloan
    | placeBid utxo value period rate ordinals payments =>
      obtain ⟨before, hcoll, hfree, rfl⟩ := hmove
      rw [show fundedBy π stored (.call hasher c) = [] by simp [fundedBy, hdone]]
      refine h.place utxo ?_ (fun id => ?_) fun k bid hbid => ?_
      · rcases hcare with hfresh | hbarred
        · exact hfresh
        · rcases bar_of_completed hdone hbarred before hcoll with hopen | hmany
          · rw [hfree] at hopen
            simp at hopen
          · have hencodes := (encodes_collection.mp (encodes_of_tryFromSlice hnext)).2.1
            exact absurd hmany (insert_fits hfree hencodes)
      · rw [loanAt_eq hnext, loanAt_eq hcoll]
      · rw [bidAt_eq hnext, Std.ExtTreeMap.getElem?_insert] at hbid
        split at hbid
        · rename_i hcmp
          rw [Option.some.injEq] at hbid
          subst hbid
          exact .inl ⟨(Std.LawfulEqCmp.compare_eq_iff_eq.mp hcmp).symm, rfl⟩
        · exact .inr (by rw [bidAt_eq hcoll, hbid])
    | cancelBid utxo =>
      obtain ⟨before, hcoll, -, rfl⟩ := hmove
      rw [show fundedBy π stored (.call hasher c) = [] by simp [fundedBy, hdone]]
      refine h.shrink (fun k bid hbid => ?_) fun id loan hloan => ⟨loan, ?_, rfl⟩
      · rw [bidAt_eq hnext, Std.ExtTreeMap.getElem?_erase] at hbid
        split at hbid
        · simp at hbid
        · rw [bidAt_eq hcoll, hbid]
      · rw [loanAt_eq hnext] at hloan
        rw [loanAt_eq hcoll, hloan]
    | acceptBid id utxo ordinals payments =>
      obtain ⟨before, best, hcoll, hfree, hbest, rfl⟩ := hmove
      have hmem := best_mem hbest
      rw [show fundedBy π stored (.call hasher c) = [(id, best.2.utxo)] by
        simp [fundedBy, hdone, takenBid_accepted hcoll hmem hnext]]
      refine h.accept utxo ?_ ?_ ?_ (fun k bid hbid => ?_) ?_ fun id' loan hloan => ?_
      · rw [bidAt_eq hcoll]
        exact Std.ExtTreeMap.mem_toList_iff_getElem?_eq_some.mp hmem
      · rw [loanAt_eq hcoll]
        rw [Std.ExtTreeMap.contains_eq_isSome_getElem?] at hfree
        exact Option.not_isSome_iff_eq_none.mp (Bool.eq_false_iff.mp hfree)
      · rcases hcare with hfresh | hbarred
        · exact hfresh
        · have hne : before.bids.isEmpty = false := by
            rw [← Std.ExtTreeMap.isEmpty_toList]
            exact List.isEmpty_eq_false_iff.mpr (List.ne_nil_of_mem hmem)
          rcases bar_of_completed hdone hbarred before hcoll with hempty | hactive | hmany
          · rw [hne] at hempty
            simp at hempty
          · rw [hfree] at hactive
            simp at hactive
          · have hencodes := (encodes_collection.mp (encodes_of_tryFromSlice hnext)).2.2.1
            exact absurd hmany (insert_fits hfree hencodes)
      · rw [bidAt_eq hnext] at hbid
        simp only [acceptedBy] at hbid
        rw [Std.ExtTreeMap.getElem?_erase] at hbid
        split at hbid
        · simp at hbid
        · rename_i hcmp
          refine ⟨fun hkey => hcmp ?_, by rw [bidAt_eq hcoll, hbid]⟩
          rw [hkey]
          exact Std.ReflCmp.compare_self
      · rw [loanAt_eq hnext]
        simp [acceptedBy]
      · rw [loanAt_eq hnext] at hloan
        simp only [acceptedBy] at hloan
        rw [Std.ExtTreeMap.getElem?_insert] at hloan
        split at hloan
        · rename_i hcmp
          rw [Option.some.injEq] at hloan
          subst hloan
          exact .inl ⟨(Std.LawfulEqCmp.compare_eq_iff_eq.mp hcmp).symm, rfl⟩
        · rename_i hcmp
          refine .inr ⟨fun hid => hcmp ?_, by rw [loanAt_eq hcoll, hloan]⟩
          rw [hid]
          exact Std.ReflCmp.compare_self
    | repayLoan id utxo amount =>
      obtain ⟨before, loan, due, hcoll, hloan, -, rfl⟩ := hmove
      rw [show fundedBy π stored (.call hasher c) = [] by simp [fundedBy, hdone]]
      refine h.shrink (fun k bid hbid => ?_) fun id' loan' hloan' => ?_
      · rw [bidAt_eq hnext] at hbid
        rw [bidAt_eq hcoll, ← hbid]
        split <;> rfl
      · rw [loanAt_eq hnext] at hloan'
        rw [loanAt_eq hcoll]
        exact repaid_loans hloan hloan'
    | claimDefault id =>
      obtain ⟨before, loan, hcoll, hloan, -, rfl⟩ := hmove
      rw [show fundedBy π stored (.call hasher c) = [] by simp [fundedBy, hdone]]
      refine h.shrink (fun k bid hbid => ?_) fun id' loan' hloan' => ⟨loan', ?_, rfl⟩
      · rw [bidAt_eq hnext] at hbid
        rw [bidAt_eq hcoll, ← hbid]
        rfl
      · rw [loanAt_eq hnext] at hloan'
        simp only [closedBy] at hloan'
        rw [Std.ExtTreeMap.getElem?_erase] at hloan'
        split at hloan'
        · simp at hloan'
        · rw [loanAt_eq hcoll, hloan']

/-- A collection that has just been initialized. -/
theorem pledgeBook_init {stored₀ : List UInt8} {e₀ : LendingEvent} {name : String}
    (hinit : completed π stored₀ e₀ = some (.initCollection name)) :
    PledgeBook (lendingNext π stored₀ e₀, []) := by
  obtain ⟨hasher, c, s, coll', -, -, -, -, ⟨-, rfl⟩, hnext⟩ := completed_some hinit
  have hnoBid : ∀ k, bidAt (lendingNext π stored₀ e₀) k = none := by
    intro k
    rw [bidAt_eq hnext]
    simp
  have hnoLoan : ∀ id, loanAt (lendingNext π stored₀ e₀) id = none := by
    intro id
    rw [loanAt_eq hnext]
    simp
  exact
    { inscriptions := by simp [hnoLoan]
      funded := by simp [hnoLoan]
      outputs := by simp
      unbid := by simp
      keys := by simp [hnoBid] }

/-- **When nothing is pledged twice.** In every run from an `InitCollection`, in every state
    reached: no two active loans have one inscription, no output funds two of them, and what funds
    an active loan is not on the book again, provided that every `AcceptBid` that is not barred
    names an inscription that no active loan has, and every `PlaceBid` that is not barred an output
    that funds none. -/
theorem pledged_once (π : Profile) (stored₀ : List UInt8) (e₀ : LendingEvent) (name : String)
    (es : List LendingEvent) (w : Funded)
    (hinit : completed π stored₀ e₀ = some (.initCollection name))
    (hcare : Meets (fund π) PledgeCare (lendingNext π stored₀ e₀, []) es)
    (hrun : Lib.run (fund π) (lendingNext π stored₀ e₀, []) es = some w) : PledgedOnce w :=
  (run_invariant (I := PledgeBook) (fun _ _ _ hok h hstep => pledgeBook_step hok h hstep)
    hcare (pledgeBook_init hinit) hrun).toPledgedOnce

end

/-- The collection is initialized, in an account without data. -/
def opensBook : LendingEvent := calls (.repeated 2) (.initCollection "c")

/-- A bid of the output `vout` of a transaction. -/
def bidsWith (vout : UInt32) : LendingEvent :=
  calls (.repeated 2) (.placeBid ⟨.zero 32, vout⟩ 900 100 0 "l" "p")

/-- A borrower pledges the inscription in output 9 of a transaction, under some id. -/
def pledges (id : String) : LendingEvent :=
  calls (.repeated 4) (.acceptBid id ⟨.zero 32, 9⟩ "o" "b")

theorem pledged_once_accept : ∃ w, Lib.run (fund .dev) (lendingNext .dev [] opensBook, [])
      [bidsWith 0, pledges "i0"] = some w ∧ w.2 = [("i0", ⟨.zero 32, 0⟩)] ∧ PledgedOnce w := by
  have hinit : completed .dev [] opensBook = some (.initCollection "c") := by decide
  have hasks : (bidsWith 0).asks =
      some (.placeBid ⟨.zero 32, 0⟩ 900 100 0 "l" "p") := by decide
  have hasks' : (pledges "i0").asks = some (.acceptBid "i0" ⟨.zero 32, 9⟩ "o" "b") := by
    decide
  have hnone : (tryFromSlice (lendingNext .dev (lendingNext .dev [] opensBook) (bidsWith 0)) :
      Option CollectionAccount).all (·.activeLoans.isEmpty) = true := by
    decide +kernel
  have hfunded : (Lib.run (fund .dev) (lendingNext .dev [] opensBook, [])
      [bidsWith 0, pledges "i0"]).any (fun w => w.2 = [("i0", ⟨.zero 32, 0⟩)]) = true := by
    decide +kernel
  obtain ⟨w, hrun, hthen⟩ := (Option.any_eq_true _ _).mp hfunded
  refine ⟨w, hrun, of_decide_eq_true hthen, pledged_once .dev [] opensBook "c"
    [bidsWith 0, pledges "i0"] w hinit ⟨?_, fun w₁ hw₁ => ⟨?_, fun _ _ => trivial⟩⟩ hrun⟩
  · unfold PledgeCare
    rw [hasks]
    left
    intro p hp
    simp at hp
  · obtain rfl : _ = w₁ := Option.some.inj hw₁
    unfold PledgeCare
    rw [hasks']
    -- There is no loan yet.
    left
    intro id loan hloan
    obtain ⟨coll, hcoll, hat⟩ := Option.bind_eq_some_iff.mp hloan
    dsimp only at hcoll
    rw [hcoll, Option.all_some, Std.ExtTreeMap.isEmpty_iff] at hnone
    rw [hnone] at hat
    simp at hat

/-- **Two pledges of one inscription**, under two ids, and **two bids of one output**, the second
    while the loan of the first is active. -/
theorem pledged_twice :
    (∃ w, Lib.run (fund .dev) (lendingNext .dev [] opensBook, [])
      [bidsWith 0, bidsWith 1, pledges "i0", pledges "i1"] = some w ∧ ¬ PledgedOnce w) ∧
    ∃ w, Lib.run (fund .dev) (lendingNext .dev [] opensBook, [])
      [bidsWith 0, pledges "i0", bidsWith 0] = some w ∧ ¬ PledgedOnce w := by
  have htwice : (Lib.run (fund .dev) (lendingNext .dev [] opensBook, [])
      [bidsWith 0, bidsWith 1, pledges "i0", pledges "i1"]).any (fun w =>
        (loanAt w.1 "i0").map (·.inscriptionUtxo) = some ⟨.zero 32, 9⟩ ∧
        (loanAt w.1 "i1").map (·.inscriptionUtxo) = some ⟨.zero 32, 9⟩) = true := by
    decide +kernel
  have hagain : (Lib.run (fund .dev) (lendingNext .dev [] opensBook, [])
      [bidsWith 0, pledges "i0", bidsWith 0]).any (fun w => ("i0", ⟨.zero 32, 0⟩) ∈ w.2 ∧
        (bidAt w.1 (bidKey ⟨.zero 32, 0⟩)).map (·.utxo) = some ⟨.zero 32, 0⟩) = true := by
    decide +kernel
  constructor
  · obtain ⟨w, hrun, hthen⟩ := (Option.any_eq_true _ _).mp htwice
    obtain ⟨hfirst, hsecond⟩ := of_decide_eq_true hthen
    refine ⟨w, hrun, fun h => ?_⟩
    obtain ⟨loan, hloan, hutxo⟩ := Option.map_eq_some_iff.mp hfirst
    obtain ⟨loan', hloan', hutxo'⟩ := Option.map_eq_some_iff.mp hsecond
    have hsame := h.inscriptions "i0" "i1" loan loan' hloan hloan' (by rw [hutxo, hutxo'])
    exact absurd hsame (by decide)
  · obtain ⟨w, hrun, hthen⟩ := (Option.any_eq_true _ _).mp hagain
    obtain ⟨hmem, hopen⟩ := of_decide_eq_true hthen
    refine ⟨w, hrun, fun h => ?_⟩
    obtain ⟨bid, hbid, hutxo⟩ := Option.map_eq_some_iff.mp hopen
    exact h.unbid "i0" ⟨.zero 32, 0⟩ hmem _ bid hbid hutxo

end Proof
end Himsha
