import Himsha.Proof.LendingMoves
import Himsha.Proof.Unsettled

/-!
# What backs a repayment

A `RepayLoan` names a UTXO and an amount. The program books the amount and queues a payment of it
to the lender; nobody looks at the UTXO. `lending_post` is what a lending instruction does to the
queue. From it follow what a run books, which is what its `RepayLoan`s name (`booked_eq`), and what
it pays: as much, unless a queue was there before, or an invoice asks for more
(`applyInstruction_sats`).
-/

set_option autoImplicit false

namespace Himsha
namespace Proof

open Himsha.Lib Himsha.Runtime Himsha.Programs Himsha.Vm Himsha.Node

open Lending

/-- The queue of a collection after a lending instruction, and the loan of a repayment. -/
def LendingPost (coll : Option CollectionAccount) (coll' : CollectionAccount) :
    LendingInstruction → Prop
  | .initCollection _ => coll'.pendingSettlements = []
  | .repayLoan inscriptionId repaymentUtxo amount => ∃ before loan more, coll = some before ∧
      before.activeLoans[inscriptionId]? = some loan ∧
      (coll'.activeLoans[inscriptionId]? =
          some { loan with repaid := saturatingAdd loan.repaid amount } ∨
        coll'.activeLoans[inscriptionId]? = none) ∧
      coll'.pendingSettlements = before.pendingSettlements ++
        ⟨.repayment, inscriptionId, repaymentUtxo, loan.lenderPaymentsAddress, amount⟩ :: more ∧
      ∀ s ∈ more, s.kind ≠ .repayment
  | .claimDefault _ => ∃ before seized, coll = some before ∧ seized.kind = .seizeInscription ∧
      coll'.pendingSettlements = before.pendingSettlements ++ [seized]
  | .placeBid .. | .cancelBid .. | .acceptBid .. => ∃ before, coll = some before ∧
      coll'.pendingSettlements = before.pendingSettlements

section
variable {π : Profile} {hasher : Hasher} {accounts mid : List AccountInfo} {timestamp : UInt64}

/-- **The queue after a lending instruction that succeeded.** -/
theorem lending_post {ix : LendingInstruction}
    (h : Lending.run π hasher accounts timestamp ix = .ok mid) :
    ∃ a rest coll', WritesFirst accounts mid a rest coll' ∧
      LendingPost (tryFromSlice a.data) coll' ix := by
  obtain ⟨a, rest, coll', hwrites, -, hmove⟩ := lending_move h
  refine ⟨a, rest, coll', hwrites, ?_⟩
  cases ix with
  | initCollection name =>
    obtain ⟨-, rfl⟩ := hmove
    rfl
  | placeBid bidUtxo loanValue loanPeriod interestRateBps ordinals payments =>
    obtain ⟨before, hcoll, -, rfl⟩ := hmove
    exact ⟨before, hcoll, rfl⟩
  | cancelBid bidUtxo =>
    obtain ⟨before, hcoll, -, rfl⟩ := hmove
    exact ⟨before, hcoll, rfl⟩
  | acceptBid inscriptionId inscriptionUtxo ordinals payments =>
    obtain ⟨before, best, hcoll, -, -, rfl⟩ := hmove
    exact ⟨before, hcoll, rfl⟩
  | repayLoan inscriptionId repaymentUtxo amount =>
    obtain ⟨before, loan, due, hcoll, hloan, -, rfl⟩ := hmove
    split
    · exact ⟨before, loan, [returnOf inscriptionId loan], hcoll, hloan, .inr (by simp [closedBy]),
        rfl, by simp [returnOf]⟩
    · exact ⟨before, loan, [], hcoll, hloan, .inl (by simp [paidOn]), rfl, by simp⟩
  | claimDefault inscriptionId =>
    obtain ⟨before, loan, hcoll, -, -, rfl⟩ := hmove
    exact ⟨before, seizureOf inscriptionId loan, hcoll, rfl, rfl⟩

end

/-! ## What is booked -/

/-- The repayments that were queued between two states of an account. -/
def bookedIn (before after : List UInt8) : List Settlement :=
  ((queuedIn after).drop (queuedIn before).length).filter (·.kind = .repayment)

/-- The repayments an instruction has booked, in its first slot. -/
def bookedBy (instr : Instruction) (given updated : List AccountInfo) : List Settlement :=
  if instr.programId = ProgramIds.lendingProgram then
    match given, updated with
    | a :: _, b :: _ => bookedIn a.data b.data
    | _, _ => []
  else []

/-- The repayments that the instructions of a transaction book, one after the other. -/
def bookedFrom (ex : Executor) (tx : RuntimeTransaction) :
    Accounts → List Instruction → List Settlement
  | _, [] => []
  | t, instr :: rest =>
      match executeProgram ex.machine instr.programId
          ⟨accountsOf t instr, instr.data, tx.message.timestamp⟩ [] with
      | .ok transition =>
          bookedBy instr (accountsOf t instr) transition.updatedAccounts ++
            bookedFrom ex tx (t.write (entries (kept .commit instr transition.updatedAccounts))) rest
      | .error _ => []

/-- A transaction that commits. -/
def commitStep (ex : Executor) (w : World) (tx : RuntimeTransaction) : Option World :=
  match ex.apply w tx .commit with
  | (.ok (), r) => some r.toWorld
  | (.error _, _) => none

/-- The repayments that a run of commits books. -/
def booked (ex : Executor) : World → List RuntimeTransaction → List Settlement
  | _, [] => []
  | w, tx :: rest =>
      bookedFrom ex tx w.state.accounts tx.message.instructions ++
        booked ex (ex.apply w tx .commit).2.toWorld rest

/-- The UTXO and the amount that a `RepayLoan` names. -/
def namedBy : LendingInstruction → Option (UtxoMeta × UInt64)
  | .repayLoan _ utxo amount => some (utxo, amount)
  | _ => none

def repaymentOf (instr : Instruction) : Option (UtxoMeta × UInt64) :=
  if instr.programId = ProgramIds.lendingProgram then
    (tryFromSlice (α := LendingInstruction) instr.data).bind namedBy
  else none

/-- All of them, in a list of transactions. -/
def repaymentsIn (txs : List RuntimeTransaction) : List (UtxoMeta × UInt64) :=
  txs.flatMap fun tx => tx.message.instructions.filterMap repaymentOf

theorem bookedIn_of_post {a : AccountInfo} {coll' : CollectionAccount} {data : List UInt8}
    {ix : LendingInstruction} (hdata : toVec coll' = some data)
    (h : LendingPost (tryFromSlice a.data) coll' ix) :
    (bookedIn a.data data).map (fun s => (s.utxo, s.amount)) = (namedBy ix).toList := by
  have hafter : queuedIn data = coll'.pendingSettlements := by
    rw [queuedIn, tryFromSlice_toVec hdata]
  have hbefore : ∀ before : CollectionAccount, tryFromSlice a.data = some before →
      queuedIn a.data = before.pendingSettlements := by
    intro before hsome
    rw [queuedIn, hsome]
  unfold bookedIn
  rw [hafter]
  cases ix with
  | initCollection name =>
    rw [show coll'.pendingSettlements = [] from h, List.drop_nil]
    rfl
  | placeBid _ _ _ _ _ _ | cancelBid _ | acceptBid _ _ _ _ =>
    obtain ⟨before, hsome, hqueue⟩ := h
    rw [hqueue, hbefore before hsome, List.drop_length]
    rfl
  | repayLoan inscriptionId utxo amount =>
    obtain ⟨before, loan, more, hsome, -, -, hqueue, hmore⟩ := h
    rw [hqueue, hbefore before hsome, List.drop_left, List.filter_cons_of_pos (by simp),
      List.filter_eq_nil_iff.mpr fun s hs => by simpa using hmore s hs]
    rfl
  | claimDefault inscriptionId =>
    obtain ⟨before, seized, hsome, hkind, hqueue⟩ := h
    rw [hqueue, hbefore before hsome, List.drop_left, List.filter_cons_of_neg (by simp [hkind])]
    rfl

section
variable {ex : Executor} {tx : RuntimeTransaction} {t : Accounts} {instr : Instruction}
  {transition : StateTransition}

/-- A lending instruction, from its decoding to the gate. -/
theorem lending_completes (hprog : instr.programId = ProgramIds.lendingProgram)
    (h : Completes ex tx t instr transition) :
    ∃ ix a rest coll' data b, tryFromSlice instr.data = some ix ∧
      accountsOf t instr = a :: rest ∧ LendingPost (tryFromSlice a.data) coll' ix ∧
      toVec coll' = some data ∧ transition.updatedAccounts = b :: rest ∧ b.data = data := by
  have hexec := h.2
  unfold executeProgram at hexec
  rw [hprog, if_pos (by decide)] at hexec
  obtain ⟨s', hret, -⟩ := executeNative_eq_ok hexec
  obtain ⟨_, th, hbegin, h₁⟩ := Comp.returns_bind.mp hret
  obtain ⟨mid, _, hrun, hgate⟩ := Comp.returns_bind.mp h₁
  rw [runBuiltin_lending] at hrun
  obtain ⟨hprocess, hsame⟩ := Comp.returns_ofExcept.mp hrun
  obtain ⟨ix, hix, h₂⟩ := bind_eq_ok.mp hprocess
  obtain ⟨_, -, h₃⟩ := bind_eq_ok.mp h₂
  obtain ⟨a, rest, coll', ⟨hgiven, data, hdata, rfl⟩, hpost⟩ := lending_post h₃
  have hempty : th.approved = ∅ := by
    rw [Comp.returns_modify.mp hbegin]
    rfl
  dsimp only at hgiven hgate
  rw [hgiven, hsame] at hgate
  obtain ⟨b, hout, hpassed⟩ := gate_first hempty hgate rfl
  exact ⟨ix, a, rest, coll', data, b, okOr_eq_ok.mp hix, hgiven, hpost, hdata, hout, hpassed.data⟩

/-- **What an instruction books is what it names.** -/
theorem bookedBy_eq (h : Completes ex tx t instr transition) :
    (bookedBy instr (accountsOf t instr) transition.updatedAccounts).map
        (fun s => (s.utxo, s.amount)) = (repaymentOf instr).toList := by
  unfold bookedBy repaymentOf
  by_cases hprog : instr.programId = ProgramIds.lendingProgram
  · rw [if_pos hprog, if_pos hprog]
    obtain ⟨ix, a, rest, coll', data, b, hix, hgiven, hpost, hdata, hout, hb⟩ :=
      lending_completes hprog h
    rw [hgiven, hout, hix]
    dsimp only
    rw [hb, bookedIn_of_post hdata hpost]
    rfl
  · rw [if_neg hprog, if_neg hprog]
    rfl

/-- And so what a transaction that commits books. -/
theorem bookedFrom_eq {t' : Accounts} (instrs : List Instruction) : ∀ t : Accounts,
    Lib.run (tableStep ex .commit tx) t instrs = some t' →
      (bookedFrom ex tx t instrs).map (fun s => (s.utxo, s.amount)) =
        instrs.filterMap repaymentOf := by
  induction instrs with
  | nil => exact fun _ _ => rfl
  | cons instr rest ih =>
    intro t h
    obtain ⟨t₁, hstep, hrest⟩ := run_cons h
    obtain ⟨transition, hcompletes⟩ := completes_of_tableStep hstep
    rw [hcompletes.tableStep, Option.some.injEq] at hstep
    rw [bookedFrom, hcompletes.2]
    dsimp only
    rw [List.map_append, bookedBy_eq hcompletes, hstep, ih t₁ hrest, List.filterMap_cons]
    cases repaymentOf instr <;> rfl

/-- And so what a run of commits books. -/
theorem booked_eq {w' : World} (txs : List RuntimeTransaction) : ∀ w : World,
    Lib.run (commitStep ex) w txs = some w' →
      (booked ex w txs).map (fun s => (s.utxo, s.amount)) = repaymentsIn txs := by
  induction txs with
  | nil => exact fun _ _ => rfl
  | cons tx rest ih =>
    intro w h
    obtain ⟨w₁, hstep, hrest⟩ := run_cons h
    unfold commitStep at hstep
    cases happly : ex.apply w tx .commit with
    | mk res r =>
      rw [happly] at hstep
      cases res with
      | error e => simp at hstep
      | ok u =>
        obtain rfl : r.toWorld = w₁ := Option.some.inj hstep
        have hok : (ex.apply w tx .commit).1 = .ok () := by rw [happly]
        have htail := ih _ hrest
        rw [booked, List.map_append, bookedFrom_eq _ _ (apply_commit_run hok), happly, htail]
        rfl

end

/-! ## What there is on Bitcoin -/

/-- The value of each unspent output, as it is when a repayment is booked. -/
abbrev Chain := Nat → UtxoMeta → Option Nat

/-- The repayments that are booked name outputs that exist and are worth what is booked, each
    another one. -/
structure PaidFor (chain : Chain) (repayments : List Settlement) : Prop where
  worth : ∀ (n : Nat) (s : Settlement), repayments[n]? = some s →
    ∃ value, chain n s.utxo = some value ∧ s.amount.toNat ≤ value
  distinct : (repayments.map (·.utxo)).Nodup

/-- What the `RepayLoan`s of a run name, before any of them is executed: an output that is there
    when its turn comes and is worth the amount, and that no other of them names. -/
structure NamesOutputs (chain : Chain) (named : List (UtxoMeta × UInt64)) : Prop where
  worth : ∀ (n : Nat) (p : UtxoMeta × UInt64), named[n]? = some p →
    ∃ value, chain n p.1 = some value ∧ p.2.toNat ≤ value
  distinct : (named.map Prod.fst).Nodup

/-- The sats that come in by the outputs of the repayments. -/
def satsIn (chain : Chain) : Nat → List Settlement → Nat
  | _, [] => 0
  | n, s :: rest => (chain n s.utxo).getD 0 + satsIn chain (n + 1) rest

theorem amounts_le {chain : Chain} : ∀ {repayments : List Settlement} {n : Nat},
    (∀ (i : Nat) (s : Settlement), repayments[i]? = some s →
      ∃ value, chain (n + i) s.utxo = some value ∧ s.amount.toNat ≤ value) →
    (repayments.map (·.amount.toNat)).sum ≤ satsIn chain n repayments := by
  intro repayments
  induction repayments with
  | nil => exact fun _ => Nat.le_refl _
  | cons s rest ih =>
    intro n h
    obtain ⟨value, hvalue, hle⟩ := h 0 s rfl
    have hrest : (rest.map (·.amount.toNat)).sum ≤ satsIn chain (n + 1) rest := by
      refine ih fun i s' hs' => ?_
      rw [Nat.add_right_comm, Nat.add_assoc]
      exact h (i + 1) s' hs'
    rw [Nat.add_zero] at hvalue
    rw [List.map_cons, List.sum_cons, satsIn, hvalue, Option.getD_some]
    omega

/-! ## What is paid -/

/-- The sats that a payment sends out for a repayment. An invoice is paid as it stands, so that it
    is the invoice that says how many. -/
def satsOf (invoice : String → Nat) : Effect → Nat
  | .payInvoice recipient => invoice recipient
  | .sendPayment _ sats => sats.toNat
  | .transferUtxo .. | .transferUtxoCommittee .. => 0

/-- The sats that some payments send out. -/
def satsOut (invoice : String → Nat) (payments : List Effect) : Nat :=
  (payments.map (satsOf invoice)).sum

/-- What a lending instruction is given holds no repayment that it did not queue itself, and where
    it repays a lender whose address is an invoice, that asks for no more than the amount. -/
def PaysOwn (ex : Executor) (invoice : String → Nat) (t : Accounts) (instr : Instruction) : Prop :=
  instr.programId = ProgramIds.lendingProgram →
    (∀ a ∈ accountsOf t instr, ∀ s ∈ queuedIn a.data, s.kind ≠ .repayment) ∧
    ∀ inscriptionId utxo amount a coll loan,
      tryFromSlice instr.data = some (LendingInstruction.repayLoan inscriptionId utxo amount) →
      (accountsOf t instr)[0]? = some a →
      tryFromSlice (α := CollectionAccount) a.data = some coll →
      coll.activeLoans[inscriptionId]? = some loan → ex.outside.lightning = true →
      isInvoice loan.lenderPaymentsAddress = true →
      invoice loan.lenderPaymentsAddress ≤ amount.toNat

/-- So it is at every instruction of a run of commits. -/
def PaysOwnIn (ex : Executor) (invoice : String → Nat) (w : World)
    (txs : List RuntimeTransaction) : Prop :=
  Meets (commitStep ex) (fun w tx => Meets (tableStep ex .commit tx) (PaysOwn ex invoice)
    w.state.accounts tx.message.instructions) w txs

/-- The repayments that a run booked are paid for, and no more has been paid after it than before
    it and what came in by their outputs. -/
structure RepaymentsBacked (ex : Executor) (chain : Chain) (invoice : String → Nat) (w w' : World)
    (txs : List RuntimeTransaction) : Prop where
  paidFor : PaidFor chain (booked ex w txs)
  covered : satsOut invoice (ex.outside.paid w'.effects) ≤
    satsOut invoice (ex.outside.paid w.effects) + satsIn chain 0 (booked ex w txs)

section
variable {o : Outside} {invoice : String → Nat}

theorem satsOut_append (payments more : List Effect) :
    satsOut invoice (payments ++ more) = satsOut invoice payments + satsOut invoice more := by
  unfold satsOut
  rw [List.map_append, List.sum_append]

/-- Not every call pays. -/
theorem satsOut_paidAfter (calls : List Effect) : ∀ past : List Effect,
    satsOut invoice (o.paidAfter past calls) ≤ satsOut invoice past + satsOut invoice calls := by
  induction calls with
  | nil => exact fun past => Nat.le_add_right _ _
  | cons call rest ih =>
    intro past
    have hcalls : satsOut invoice (call :: rest) = satsOf invoice call + satsOut invoice rest :=
      List.sum_cons
    have hone : satsOut invoice [call] = satsOf invoice call := Nat.add_zero _
    change satsOut invoice
      (o.paidAfter (if o.sends past call then past ++ [call] else past) rest) ≤ _
    split
    · have hrest := ih (past ++ [call])
      rw [satsOut_append, hone] at hrest
      omega
    · have hrest := ih past
      omega

/-- What is called for a directive. -/
def satsFor (o : Outside) (invoice : String → Nat) (s : Settlement) : Nat :=
  satsOut invoice (callFor o s).toList

theorem satsFor_other {s : Settlement} (h : s.kind ≠ .repayment) : satsFor o invoice s = 0 := by
  unfold satsFor callFor settlementCall
  rw [if_neg fun hboth => h hboth.1]
  cases o.bitcoin with
  | false => rfl
  | true =>
    cases hkind : s.kind with
    | repayment => exact absurd hkind h
    | returnInscription | seizeInscription => cases o.custody <;> rfl

theorem satsFor_repayment {s : Settlement} (h : s.kind = .repayment)
    (hinvoice : o.lightning = true → isInvoice s.recipient = true →
      invoice s.recipient ≤ s.amount.toNat) : satsFor o invoice s ≤ s.amount.toNat := by
  unfold satsFor callFor settlementCall
  split
  · rename_i hboth
    split
    · rename_i hlightning
      exact hinvoice hlightning hboth.2
    · exact Nat.zero_le _
  · split
    · rw [h]
      exact Nat.le_refl _
    · exact Nat.zero_le _

theorem satsOut_calls (ss : List Settlement) :
    satsOut invoice (ss.filterMap (callFor o)) = (ss.map (satsFor o invoice)).sum := by
  induction ss with
  | nil => rfl
  | cons s rest ih =>
    rw [List.map_cons, List.sum_cons, ← ih, satsFor]
    cases hcall : callFor o s with
    | none => simp [hcall, satsOut]
    | some call => simp [hcall, satsOut]

/-- Without repayments in it a queue costs nothing. -/
theorem satsOut_others {ss : List Settlement} (h : ∀ s ∈ ss, s.kind ≠ .repayment) :
    satsOut invoice (ss.filterMap (callFor o)) = 0 := by
  rw [satsOut_calls]
  refine List.sum_eq_zero fun n hn => ?_
  obtain ⟨s, hs, rfl⟩ := List.mem_map.mp hn
  exact satsFor_other (h s hs)

end

section
variable {ex : Executor} {invoice : String → Nat} {tx : RuntimeTransaction} {t : Accounts}
  {instr : Instruction} {transition : StateTransition}

/-- The amount that a `RepayLoan` names. -/
def amountOf (instr : Instruction) : Nat := ((repaymentOf instr).map (·.2.toNat)).getD 0

/-- **What an instruction pays is what it names**, at most. -/
theorem applyInstruction_sats (hown : PaysOwn ex invoice t instr)
    (h : Completes ex tx t instr transition) :
    satsOut invoice (callsOf ex instr transition) ≤ amountOf instr := by
  unfold callsOf
  by_cases hlending : instr.programId = ProgramIds.lendingProgram
  · rw [if_pos hlending]
    obtain ⟨ix, a, rest, coll', data, b, hix, hgiven, hpost, hdata, hout, hb⟩ :=
      lending_completes hlending h
    obtain ⟨hqueues, hinvoice⟩ := hown hlending
    rw [hgiven] at hqueues hinvoice
    -- The slots after the first are as they were given.
    have hrest : satsOut invoice (rest.flatMap (callsFor ex.outside)) = 0 := by
      have hnone : (rest.flatMap fun c => queuedIn c.data).filterMap (callFor ex.outside) =
          rest.flatMap (callsFor ex.outside) := List.filterMap_flatMap ..
      rw [← hnone]
      refine satsOut_others fun s hs => ?_
      obtain ⟨c, hc, hsc⟩ := List.mem_flatMap.mp hs
      exact hqueues c (List.mem_cons_of_mem _ hc) s hsc
    have hqueue : callsFor ex.outside b = coll'.pendingSettlements.filterMap
        (callFor ex.outside) := by
      rw [callsFor, hb, queuedIn, tryFromSlice_toVec hdata]
    have hbefore : ∀ before : CollectionAccount, tryFromSlice a.data = some before →
        ∀ s ∈ before.pendingSettlements, s.kind ≠ .repayment := by
      intro before hsome s hs
      refine hqueues a List.mem_cons_self s ?_
      rw [queuedIn, hsome]
      exact hs
    rw [hout, List.flatMap_cons, satsOut_append, hrest, Nat.add_zero, hqueue]
    have hamount : amountOf instr = ((namedBy ix).map (·.2.toNat)).getD 0 := by
      rw [amountOf, repaymentOf, if_pos hlending, hix]
      rfl
    rw [hamount]
    cases ix with
    | initCollection name =>
      rw [show coll'.pendingSettlements = [] from hpost]
      exact Nat.le_refl _
    | placeBid _ _ _ _ _ _ | cancelBid _ | acceptBid _ _ _ _ =>
      obtain ⟨before, hsome, hsame⟩ := hpost
      rw [hsame, satsOut_others (hbefore before hsome)]
      exact Nat.zero_le _
    | repayLoan inscriptionId utxo amount =>
      obtain ⟨before, loan, more, hsome, hloan, -, hadded, hmore⟩ := hpost
      rw [hadded, List.filterMap_append, satsOut_append, satsOut_others (hbefore before hsome),
        Nat.zero_add, satsOut_calls, List.map_cons, List.sum_cons, ← satsOut_calls,
        satsOut_others hmore, Nat.add_zero]
      exact satsFor_repayment rfl fun hlightning haddress =>
        hinvoice inscriptionId utxo amount a before loan hix rfl hsome hloan hlightning haddress
    | claimDefault inscriptionId =>
      obtain ⟨before, seized, hsome, hkind, hadded⟩ := hpost
      refine Nat.le_of_eq (hadded ▸ satsOut_others fun s hs => ?_)
      rcases List.mem_append.mp hs with hold | hnew
      · exact hbefore before hsome s hold
      · rw [List.mem_singleton.mp hnew, hkind]
        decide
  · rw [if_neg hlending]
    exact Nat.zero_le _

/-- And so a transaction, over its instructions. -/
theorem applyInstructions_sats (instrs : List Instruction) : ∀ {r r' : Running},
    Comp.Returns (Executor.applyInstructions ex .commit tx instrs) r () r' →
      Meets (tableStep ex .commit tx) (PaysOwn ex invoice) (current r) instrs →
      ∃ calls, r'.effects = r.effects ++ calls ∧
        satsOut invoice calls ≤ (instrs.map amountOf).sum := by
  induction instrs with
  | nil =>
    intro r r' h _
    obtain ⟨-, rfl⟩ := Comp.returns_pure.mp h
    exact ⟨[], (List.append_nil _).symm, Nat.le_refl _⟩
  | cons instr rest ih =>
    intro r r' h hown
    obtain ⟨_, m, hhead, htail⟩ := Comp.returns_bind.mp h
    obtain ⟨transition, hcompletes, heffects, -, hstep⟩ := applyInstruction_calls hhead
    obtain ⟨calls, hcalls, hsats⟩ := ih htail (hown.2 _ hstep)
    refine ⟨callsOf ex instr transition ++ calls, ?_, ?_⟩
    · rw [hcalls, heffects, List.append_assoc]
    · have hfirst := applyInstruction_sats hown.1 hcompletes
      rw [satsOut_append, List.map_cons, List.sum_cons]
      omega

theorem sum_amountOf (instrs : List Instruction) :
    (instrs.map amountOf).sum = ((instrs.filterMap repaymentOf).map (·.2.toNat)).sum := by
  induction instrs with
  | nil => rfl
  | cons instr rest ih =>
    rw [List.map_cons, List.sum_cons, ih, List.filterMap_cons, amountOf]
    cases repaymentOf instr with
    | none => simp
    | some p => simp

/-- And so a run of commits: what it has paid is at most what its `RepayLoan`s name. -/
theorem run_sats {w' : World} (txs : List RuntimeTransaction) : ∀ {w : World},
    Lib.run (commitStep ex) w txs = some w' → PaysOwnIn ex invoice w txs →
      satsOut invoice (ex.outside.paid w'.effects) ≤ satsOut invoice (ex.outside.paid w.effects) +
        ((repaymentsIn txs).map (·.2.toNat)).sum := by
  induction txs with
  | nil =>
    intro w h _
    obtain rfl : w = w' := Option.some.inj h
    exact Nat.le_add_right _ _
  | cons tx rest ih =>
    intro w h hown
    obtain ⟨w₁, hstep, hrest⟩ := run_cons h
    have htail := ih hrest (hown.2 w₁ hstep)
    have hhere : Meets (tableStep ex .commit tx) (PaysOwn ex invoice) w.state.accounts
        tx.message.instructions := hown.1
    unfold commitStep at hstep
    cases happly : ex.apply w tx .commit with
    | mk res r =>
      rw [happly] at hstep
      cases res with
      | error e => simp at hstep
      | ok u =>
        obtain rfl : r.toWorld = w₁ := Option.some.inj hstep
        have hok : (ex.apply w tx .commit).1 = .ok () := by rw [happly]
        obtain ⟨m, state, hloop, -, hend⟩ := Executor.apply_commit_ok hok
        rw [← show current { toWorld := w } = w.state.accounts from Table.layered_empty] at hhere
        obtain ⟨calls, hcalls, hsats⟩ :=
          applyInstructions_sats tx.message.instructions hloop hhere
        have heffects : r.effects = w.effects ++ calls := by
          rw [happly] at hend
          rw [show r = _ from hend]
          exact hcalls
        have hpaid : satsOut invoice (ex.outside.paidAfter (ex.outside.paid w.effects) calls) ≤
            satsOut invoice (ex.outside.paid w.effects) + satsOut invoice calls :=
          satsOut_paidAfter calls _
        rw [← paid_append, ← heffects] at hpaid
        have hsum : ((repaymentsIn (tx :: rest)).map (·.2.toNat)).sum =
            (tx.message.instructions.map amountOf).sum +
              ((repaymentsIn rest).map (·.2.toNat)).sum := by
          rw [sum_amountOf, repaymentsIn, List.flatMap_cons, List.map_append, List.sum_append]
          rfl
        omega

/-- What is booked is paid for exactly where what is named is there. -/
theorem paidFor_iff {chain : Chain} {repayments : List Settlement} :
    PaidFor chain repayments ↔ NamesOutputs chain (repayments.map fun s => (s.utxo, s.amount)) := by
  constructor
  · intro h
    refine ⟨fun n p hp => ?_, by rw [List.map_map]; exact h.distinct⟩
    rw [List.getElem?_map] at hp
    obtain ⟨s, hs, rfl⟩ := Option.map_eq_some_iff.mp hp
    exact h.worth n s hs
  · intro h
    have hdistinct := h.distinct
    rw [List.map_map] at hdistinct
    exact ⟨fun n s hs => h.worth n (s.utxo, s.amount) (by rw [List.getElem?_map, hs]; rfl),
      hdistinct⟩

end

/-- **When repayments are backed.** In every run of transactions that commit, in any state of the
    node and of Bitcoin: if the `RepayLoan`s of the run name outputs that are there and are worth the
    amounts, each another one, and the run pays for no repayment but these, then what the run has
    booked is paid for, and no more goes out than comes in. The first condition is necessary too. -/
theorem repayments_backed (ex : Executor) (w w' : World) (txs : List RuntimeTransaction)
    (chain : Chain) (invoice : String → Nat) (hrun : Lib.run (commitStep ex) w txs = some w') :
    (NamesOutputs chain (repaymentsIn txs) → PaysOwnIn ex invoice w txs →
      RepaymentsBacked ex chain invoice w w' txs) ∧
    (RepaymentsBacked ex chain invoice w w' txs → NamesOutputs chain (repaymentsIn txs)) := by
  have hbooked := booked_eq txs w hrun
  constructor
  · intro hnames hown
    rw [← hbooked] at hnames
    have hpaidFor := paidFor_iff.mpr hnames
    refine ⟨hpaidFor, ?_⟩
    have hin : ((booked ex w txs).map (·.amount.toNat)).sum ≤
        satsIn chain 0 (booked ex w txs) := by
      refine amounts_le fun n s hs => ?_
      rw [Nat.zero_add]
      exact hpaidFor.worth n s hs
    have hout := run_sats txs hrun hown
    rw [← hbooked, List.map_map] at hout
    exact Nat.le_trans hout (Nat.add_le_add_left hin _)
  · intro h
    rw [← hbooked]
    exact paidFor_iff.mp h.paidFor

/-- A Bitcoin on which output 7 of one transaction is worth 400 sats. -/
def fourHundred : Chain := fun _ utxo => if utxo = ⟨.zero 32, 7⟩ then some 400 else none

/-- A step, to be evaluated. -/
theorem commitStep_eval (ex : Executor) : commitStep ex = fun w tx =>
    match ex.eval w tx .commit with
    | (.ok (), r) => some r.toWorld
    | (.error _, _) => none := by
  funext w tx
  rw [commitStep, Executor.apply_eval]

theorem repayments_backed_once : ∃ w',
    Lib.run (commitStep walletNode) lendingWorld [signedBy [.repeated 2] [repays]] = some w' ∧
      RepaymentsBacked walletNode fourHundred (fun _ => 0) lendingWorld w'
        [signedBy [.repeated 2] [repays]] := by
  have hsome : (Lib.run (commitStep walletNode) lendingWorld
      [signedBy [.repeated 2] [repays]]).isSome = true := by
    rw [commitStep_eval]
    decide +kernel
  obtain ⟨w', hrun⟩ := Option.isSome_iff_exists.mp hsome
  refine ⟨w', hrun, (repayments_backed walletNode lendingWorld w' _ fourHundred (fun _ => 0)
    hrun).1 ?_ ⟨⟨fun _ => ⟨by decide +kernel, ?_⟩, fun _ _ => trivial⟩, fun _ _ => trivial⟩⟩
  · have hnamed : repaymentsIn [signedBy [.repeated 2] [repays]] = [(⟨.zero 32, 7⟩, 400)] := by
      decide
    rw [hnamed]
    refine ⟨fun n p hp => ?_, by simp⟩
    obtain ⟨rfl, rfl⟩ : n = 0 ∧ (⟨.zero 32, 7⟩, 400) = p := by
      cases n with
      | zero => exact ⟨rfl, Option.some.inj hp⟩
      | succ n => simp at hp
    exact ⟨400, rfl, Nat.le_refl _⟩
  · intro inscriptionId utxo amount a coll loan _ _ _ _ hlightning
    exact absurd hlightning Bool.false_ne_true

/-- Two repayments of one loan, of 400 and of 500 sats, that name one output. -/
def repaysTwice : List RuntimeTransaction :=
  [signedBy [.repeated 2] [repays],
    signedBy [.repeated 2] [borrows (.repayLoan "i0" ⟨.zero 32, 7⟩ 500)]]

/-- **One output, twice.** Both repayments are booked, and the lender is paid twice; there is no
    state of Bitcoin in which that is backed. -/
theorem one_output_twice : ∃ w',
    Lib.run (commitStep walletNode) lendingWorld repaysTwice = some w' ∧
      walletNode.outside.paid w'.effects =
        [.sendPayment regtestAddress 400, .sendPayment regtestAddress 500] ∧
      ∀ chain invoice, ¬ RepaymentsBacked walletNode chain invoice lendingWorld w' repaysTwice := by
  have hpaid : (Lib.run (commitStep walletNode) lendingWorld repaysTwice).any (fun w' =>
      walletNode.outside.paid w'.effects =
        [.sendPayment regtestAddress 400, .sendPayment regtestAddress 500]) = true := by
    rw [commitStep_eval]
    decide +kernel
  obtain ⟨w', hrun, hthen⟩ := (Option.any_eq_true _ _).mp hpaid
  refine ⟨w', hrun, of_decide_eq_true hthen, fun chain invoice h => ?_⟩
  have hnames := paidFor_iff.mp h.paidFor
  rw [booked_eq repaysTwice lendingWorld hrun] at hnames
  exact absurd hnames.distinct (by decide)

end Proof
end Himsha
