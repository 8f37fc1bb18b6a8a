import Himsha.Proof.Settling

/-!
# Settlements of a transaction

Settlements are made while a transaction runs, so a transaction that fails afterwards has paid
already, and what a call answers is not kept. `Quiet` is exactly when a failed transaction has paid
nothing, and `settlement_kept_iff` says of each single directive when it is not lost.
-/

set_option autoImplicit false

namespace Himsha
namespace Proof

open Himsha.Lib Himsha.Runtime Himsha.Programs Himsha.Vm Himsha.Node

/-- The instruction gets through on a table, and its program leaves `transition`. -/
def Completes (ex : Executor) (tx : RuntimeTransaction) (t : Accounts) (instr : Instruction)
    (transition : StateTransition) : Prop :=
  rejectDuplicateWritable (accountsOf t instr) = .ok () ∧
    executeProgram ex.machine instr.programId
      ⟨accountsOf t instr, instr.data, tx.message.timestamp⟩ [] = .ok transition

/-- What a lending program left queues nothing that is paid, after these payments. -/
def QuietAfter (ex : Executor) (past : List Effect) (instr : Instruction)
    (transition : StateTransition) : Prop :=
  instr.programId = ProgramIds.lendingProgram →
    ∀ a ∈ transition.updatedAccounts, ∀ s ∈ queuedIn a.data, ¬ Pays ex.outside past s

/-- So it is after every instruction that gets through before the first that does not. -/
def Quiet (ex : Executor) (tx : RuntimeTransaction) (past : List Effect) (t : Accounts)
    (instrs : List Instruction) : Prop :=
  ∀ pre instr post t' transition, instrs = pre ++ instr :: post →
    Lib.run (tableStep ex .commit tx) t pre = some t' → Completes ex tx t' instr transition →
    QuietAfter ex past instr transition

/-- The calls of one instruction. -/
def callsOf (ex : Executor) (instr : Instruction) (transition : StateTransition) : List Effect :=
  if instr.programId = ProgramIds.lendingProgram then
    transition.updatedAccounts.flatMap (callsFor ex.outside)
  else []

section
variable {ex : Executor} {tx : RuntimeTransaction} {t t' : Accounts} {instr : Instruction}
  {transition : StateTransition} {past : List Effect}

theorem callsOf_quiet :
    ex.outside.paidAfter past (callsOf ex instr transition) = past ↔
      QuietAfter ex past instr transition := by
  unfold callsOf QuietAfter
  split
  · rename_i hlending
    simp only [paidAfter_eq_self_iff, List.mem_flatMap, forall_exists_index, and_imp]
    constructor
    · intro h _ a ha
      exact callsFor_quiet.mp fun call hcall => h call a ha hcall
    · intro h call a ha hcall
      exact callsFor_quiet.mpr (h hlending a ha) call hcall
  · rename_i hother
    exact iff_of_true rfl fun h => absurd h hother

theorem Completes.tableStep (h : Completes ex tx t instr transition) :
    tableStep ex .commit tx t instr =
      some (t.write (entries (kept .commit instr transition.updatedAccounts))) := by
  unfold Proof.tableStep output
  rw [if_pos h.1, h.2]
  rfl

theorem completes_of_tableStep (h : tableStep ex .commit tx t instr = some t') :
    ∃ transition, Completes ex tx t instr transition := by
  unfold tableStep output at h
  split at h
  · rename_i hguard
    cases hexec : executeProgram ex.machine instr.programId
        ⟨accountsOf t instr, instr.data, tx.message.timestamp⟩ [] with
    | ok transition => exact ⟨transition, hguard, hexec⟩
    | error e => simp [hexec] at h
  · simp at h

/-- The condition, read from the front. -/
theorem quiet_cons {rest : List Instruction} : Quiet ex tx past t (instr :: rest) ↔
    (∀ transition, Completes ex tx t instr transition → QuietAfter ex past instr transition) ∧
      ∀ t', tableStep ex .commit tx t instr = some t' → Quiet ex tx past t' rest := by
  constructor
  · intro h
    refine ⟨fun transition hcompletes => h [] instr rest t transition rfl rfl hcompletes, ?_⟩
    intro t' hstep pre instr' post t'' transition hsplit hrun hcompletes
    refine h (instr :: pre) instr' post t'' transition (by rw [hsplit]; rfl) ?_ hcompletes
    rw [Lib.run, hstep]
    exact hrun
  · rintro ⟨hhead, htail⟩ pre instr' post t' transition hsplit hrun hcompletes
    cases pre with
    | nil =>
      obtain ⟨rfl, rfl⟩ := List.cons.inj hsplit
      obtain rfl : t = t' := Option.some.inj hrun
      exact hhead transition hcompletes
    | cons first pre =>
      obtain ⟨rfl, rfl⟩ := List.cons.inj hsplit
      obtain ⟨t₁, hstep, hrest⟩ := run_cons hrun
      exact htail t₁ hstep pre instr' post t' transition rfl hrest hcompletes

/-! ## A round that fails, and one that does not -/

theorem runProgram_exec (r : Running) (accounts : List AccountInfo) :
    Comp.exec (Executor.runProgram ex tx instr accounts) r =
      if r.poisoned then (.error .panic, r)
      else match executeProgram ex.machine instr.programId
          ⟨accounts, instr.data, tx.message.timestamp⟩ [] with
        | .ok transition => (.ok transition, { r with handed := r.handed ++ [(instr, accounts)] })
        | .error (.node e) => (.error (.error ⟨-32002, e.message⟩),
            { r with handed := r.handed ++ [(instr, accounts)] })
        | .error .panic => (.error .panic,
            { r with handed := r.handed ++ [(instr, accounts)], poisoned := true }) := by
  unfold Executor.runProgram
  rw [Comp.exec_bind]
  change Comp.exec (Comp.ensure (!r.poisoned) ExecFault.panic >>= _) r = _
  cases r.poisoned with
  | true => rfl
  | false =>
    rw [Comp.exec_bind]
    change Comp.exec (modify _ >>= _) r = _
    rw [Comp.exec_bind]
    change Comp.exec (match executeProgram ex.machine instr.programId _ [] with
      | .ok _ => _ | .error (.node _) => _ | .error .panic => _) _ = _
    rw [if_neg (by simp)]
    cases executeProgram ex.machine instr.programId
        ⟨accounts, instr.data, tx.message.timestamp⟩ [] with
    | ok transition => rfl
    | error e => cases e <;> rfl

/-- Where it returns an error, it has not touched the world. -/
def FailsUntouched {α : Type} (x : Apply α) : Prop :=
  ∀ r e, (Comp.exec x r).1 = .error (.error e) → (Comp.exec x r).2.toWorld = r.toWorld

theorem FailsUntouched.bind {α β : Type} {x : Apply α} {f : α → Apply β}
    (hx : ∀ r, (Comp.exec x r).1 ≠ .error .panic → (Comp.exec x r).2.toWorld = r.toWorld)
    (hf : ∀ a, FailsUntouched (f a)) : FailsUntouched (x >>= f) := by
  intro r e h
  have hr := hx r
  rw [Comp.exec_bind] at h ⊢
  cases hexec : Comp.exec x r with
  | mk res r₁ =>
    rw [hexec] at h hr
    cases res with
    | ok a => exact (hf a r₁ e h).trans (hr (by simp))
    | error fault =>
      simp only [Except.error.injEq] at h
      subst h
      exact hr (by simp)

theorem runProgram_untouched (accounts : List AccountInfo) (r : Running)
    (h : (Comp.exec (Executor.runProgram ex tx instr accounts) r).1 ≠ .error .panic) :
    (Comp.exec (Executor.runProgram ex tx instr accounts) r).2.toWorld = r.toWorld := by
  rw [runProgram_exec] at h ⊢
  cases hlock : r.poisoned with
  | true => simp [hlock] at h
  | false =>
    rw [if_neg (by simp)]
    cases hexec : executeProgram ex.machine instr.programId
        ⟨accounts, instr.data, tx.message.timestamp⟩ [] with
    | ok transition => rfl
    | error e =>
      cases e with
      | node e => rfl
      | panic => simp [hlock, hexec] at h

theorem applyInstruction_failsUntouched :
    FailsUntouched (Executor.applyInstruction ex .commit tx instr) := by
  unfold Executor.applyInstruction
  refine .bind (fun _ _ => rfl) fun _ => .bind (fun _ _ => rfl) fun _ =>
    .bind (runProgram_untouched _) fun _ => .bind (fun _ _ => rfl) fun _ =>
      .bind (fun _ _ => rfl) fun _ => ?_
  intro r e h
  exact absurd (show Except.ok PUnit.unit = _ from h) (by simp)

/-- With the lock poisoned, what passes the guard panics. -/
theorem applyInstruction_panics {r : Running} (hlock : r.poisoned = true)
    (hguard : rejectDuplicateWritable (accountsOf (current r) instr) = .ok ()) :
    (Comp.exec (Executor.applyInstruction ex .commit tx instr) r).1 = .error .panic := by
  have haccounts := materialise_accountsOf r instr
  unfold Executor.applyInstruction
  rw [Comp.exec_bind]
  change (Comp.exec (Comp.ofExcept ((rejectDuplicateWritable
    (instr.accounts.map (Executor.materialise r instr.programId))).mapError
      Executor.programFault) >>= _) r).1 = _
  rw [haccounts, hguard, Comp.exec_bind]
  change (Comp.exec (Executor.runProgram ex tx instr _ >>= _) r).1 = _
  rw [Comp.exec_bind, runProgram_exec, hlock]
  rfl

/-- A round that returns an error is one whose instruction does not get through. -/
theorem applyInstruction_failed {r : Running} {e : ExecError}
    (h : (Comp.exec (Executor.applyInstruction ex .commit tx instr) r).1 = .error (.error e)) :
    ∀ transition, ¬ Completes ex tx (current r) instr transition := by
  intro transition hcompletes
  cases hlock : r.poisoned with
  | true =>
    rw [applyInstruction_panics hlock hcompletes.1] at h
    simp at h
  | false =>
    obtain ⟨r', hreturns, -⟩ := applyInstruction_of_tableStep hlock hcompletes.tableStep
    rw [show _ = _ from hreturns] at h
    simp at h

/-- A round that returns made the calls of its instruction. -/
theorem applyInstruction_calls {r r' : Running}
    (h : Comp.Returns (Executor.applyInstruction ex .commit tx instr) r () r') :
    ∃ transition, Completes ex tx (current r) instr transition ∧
      r'.effects = r.effects ++ callsOf ex instr transition ∧
      (QuietAfter ex (ex.outside.paid r.effects) instr transition → r'.state = r.state) ∧
      tableStep ex .commit tx (current r) instr = some (current r') := by
  have hloop : Comp.Returns (Executor.applyInstructions ex .commit tx [instr]) r () r' :=
    Comp.returns_bind.mpr ⟨(), r', h, Comp.returns_pure.mpr ⟨rfl, rfl⟩⟩
  obtain ⟨t₁, hstep, hnil⟩ := run_cons (applyInstructions_run hloop)
  obtain rfl : t₁ = current r' := Option.some.inj hnil
  obtain ⟨transition, w, updated, hguard, hexec, hsettled, rfl⟩ :=
    Executor.applyInstruction_returns h
  have haccounts := materialise_accountsOf r instr
  rw [haccounts] at hguard hexec
  refine ⟨transition, ⟨hguard, hexec⟩, ?_, ?_, hstep⟩
  · unfold Executor.settled at hsettled
    unfold callsOf
    by_cases hlending : instr.programId = ProgramIds.lendingProgram
    · rw [if_pos ⟨rfl, hlending⟩] at hsettled
      rw [if_pos hlending, ← settleLending_effects tx.messageHash, hsettled]
    · rw [if_neg fun hboth => hlending hboth.2] at hsettled
      rw [if_neg hlending, List.append_nil]
      exact congrArg (fun p => p.1.effects) hsettled.symm
  · intro hquiet
    unfold Executor.settled at hsettled
    by_cases hlending : instr.programId = ProgramIds.lendingProgram
    · rw [if_pos ⟨rfl, hlending⟩] at hsettled
      have hstate := settleLending_unpaid (o := ex.outside) tx.messageHash
        transition.updatedAccounts (w := r.toWorld) (hquiet hlending)
      rw [hsettled] at hstate
      exact hstate
    · rw [if_neg fun hboth => hlending hboth.2] at hsettled
      exact congrArg (fun p => p.1.state) hsettled.symm

/-- **The loop over the instructions has paid nothing exactly where it was quiet**, and has then
    left the database alone. -/
theorem applyInstructions_quiet (instrs : List Instruction) : ∀ r : Running,
    (Comp.exec (Executor.applyInstructions ex .commit tx instrs) r).1 ≠ .error .panic →
      ∃ calls, (Comp.exec (Executor.applyInstructions ex .commit tx instrs) r).2.effects =
          r.effects ++ calls ∧
        (ex.outside.paidAfter (ex.outside.paid r.effects) calls = ex.outside.paid r.effects ↔
          Quiet ex tx (ex.outside.paid r.effects) (current r) instrs) ∧
        (ex.outside.paidAfter (ex.outside.paid r.effects) calls = ex.outside.paid r.effects →
          (Comp.exec (Executor.applyInstructions ex .commit tx instrs) r).2.state = r.state) := by
  induction instrs with
  | nil =>
    intro r _
    refine ⟨[], (List.append_nil _).symm, iff_of_true rfl ?_, fun _ => rfl⟩
    intro pre instr post t' transition hsplit
    simp at hsplit
  | cons instr rest ih =>
    intro r hne
    rw [Executor.applyInstructions, Comp.exec_bind] at hne ⊢
    cases hexec : Comp.exec (Executor.applyInstruction ex .commit tx instr) r with
    | mk res m =>
      rw [hexec] at hne
      cases res with
      | error fault =>
        cases fault with
        | panic => simp at hne
        | error e =>
          -- The instruction was refused, and so nothing comes after it.
          have herr : (Comp.exec (Executor.applyInstruction ex .commit tx instr) r).1 =
              .error (.error e) := by rw [hexec]
          have hworld := applyInstruction_failsUntouched r e herr
          have hrefused := applyInstruction_failed herr
          rw [hexec] at hworld
          refine ⟨[], ?_, iff_of_true rfl (quiet_cons.mpr ⟨?_, ?_⟩), fun _ => ?_⟩
          · rw [List.append_nil]
            exact congrArg (·.effects) hworld
          · exact fun transition hcompletes => absurd hcompletes (hrefused transition)
          · intro t' hstep
            obtain ⟨transition, hcompletes⟩ := completes_of_tableStep hstep
            exact absurd hcompletes (hrefused transition)
          · exact congrArg (·.state) hworld
      | ok u =>
        obtain ⟨transition, hcompletes, heffects, hstate, hstep⟩ := applyInstruction_calls hexec
        obtain ⟨calls, hcalls, hquiet, hsame⟩ := ih m hne
        -- As long as nothing is paid, what was paid before is what was paid at the start.
        have hsplit : ex.outside.paidAfter (ex.outside.paid r.effects)
              (callsOf ex instr transition ++ calls) = ex.outside.paid r.effects ↔
            QuietAfter ex (ex.outside.paid r.effects) instr transition ∧
              ex.outside.paidAfter (ex.outside.paid r.effects) calls =
                ex.outside.paid r.effects := by
          rw [paidAfter_append_eq_self, callsOf_quiet]
        have hpaid : QuietAfter ex (ex.outside.paid r.effects) instr transition →
            ex.outside.paid m.effects = ex.outside.paid r.effects := by
          intro h
          rw [heffects, paid_append, callsOf_quiet.mpr h]
        refine ⟨callsOf ex instr transition ++ calls, ?_, ?_, fun hnone => ?_⟩
        · rw [← List.append_assoc, ← heffects]
          exact hcalls
        · rw [hsplit, quiet_cons]
          constructor
          · rintro ⟨hfirst, hrest⟩
            refine ⟨fun transition' hcompletes' => ?_, fun t' hstep' => ?_⟩
            · obtain rfl : transition' = transition :=
                Except.ok.inj (hcompletes'.2.symm.trans hcompletes.2)
              exact hfirst
            · obtain rfl : current m = t' := Option.some.inj (hstep.symm.trans hstep')
              rw [hpaid hfirst] at hquiet
              exact hquiet.mp hrest
          · rintro ⟨hfirst, hrest⟩
            have hhere := hfirst _ hcompletes
            rw [hpaid hhere] at hquiet
            exact ⟨hhere, hquiet.mpr (hrest _ hstep)⟩
        · obtain ⟨hfirst, hrest⟩ := hsplit.mp hnone
          rw [hpaid hfirst] at hsame
          exact (hsame hrest).trans (hstate hfirst)

end

/-- **When a failed transaction has settled nothing.** For every transaction that fails, in any
    state: nothing was paid for it and no table of the database has changed, if and only if no
    lending instruction that got through before the failure left a directive queued that is paid:
    one that the node has a client for, with an address of the network, and for a transfer with an
    output that is found, is worth the fee and gets signed for. -/
theorem failed_settles_nothing_iff (ex : Executor) (w : World) (tx : RuntimeTransaction)
    (e : ExecError) (herr : (ex.apply w tx .commit).1 = .error (.error e)) :
    (ex.outside.paid (ex.apply w tx .commit).2.effects = ex.outside.paid w.effects ∧
        (ex.apply w tx .commit).2.state = w.state) ↔
      Quiet ex tx (ex.outside.paid w.effects) w.state.accounts tx.message.instructions := by
  obtain ⟨hne, hworld⟩ : (Comp.exec (ex.applyInstructions .commit tx tx.message.instructions)
        { toWorld := w }).1 ≠ .error .panic ∧
      (ex.apply w tx .commit).2.toWorld =
        (Comp.exec (ex.applyInstructions .commit tx tx.message.instructions)
          { toWorld := w }).2.toWorld := by
    unfold Executor.apply Executor.run at herr ⊢
    rw [Comp.exec_bind] at herr ⊢
    cases hexec : Comp.exec (ex.applyInstructions .commit tx tx.message.instructions)
        { toWorld := w } with
    | mk res m =>
      rw [hexec] at herr
      cases res with
      | error fault =>
        simp only [Except.error.injEq] at herr
        subst herr
        exact ⟨by simp, rfl⟩
      | ok u =>
        -- The loop got through, so it was the save that failed.
        dsimp only at herr ⊢
        rw [if_pos rfl] at herr ⊢
        refine ⟨by simp, ?_⟩
        rw [persist_failed (by rw [herr]; simp)]
  obtain ⟨calls, hcalls, hquiet, hsame⟩ :=
    applyInstructions_quiet tx.message.instructions { toWorld := w } hne
  have hcurrent : current { toWorld := w } = w.state.accounts := Table.layered_empty
  rw [hcurrent] at hquiet
  rw [← hquiet, show (ex.apply w tx .commit).2.effects = _ from congrArg (·.effects) hworld,
    show (ex.apply w tx .commit).2.state = _ from congrArg (·.state) hworld, hcalls, paid_append]
  constructor
  · rintro ⟨hnone, -⟩
    exact hnone
  · intro hnone
    exact ⟨hnone, hsame hnone⟩

/-- A loan of 1000 sats on an inscription. -/
def openLoan : Lending.Loan where
  inscriptionId := "i0"
  inscriptionUtxo := ⟨.zero 32, 0⟩
  loanValue := 1000
  loanPeriod := 100
  interestRateBps := 0
  lenderOrdinalsAddress := "bc1lender"
  lenderPaymentsAddress := regtestAddress
  borrowerOrdinalsAddress := "bc1borrower"
  borrowerPaymentsAddress := "bc1owes"
  startedAt := 0
  repaid := 0

/-- A node with a collection in which that loan is open. -/
def lendingWorld : World where
  state :=
    { accounts := (∅ : Accounts).insert (.repeated 3) (collectionRecord ProgramIds.lendingProgram
        { name := "c", activeLoans := (∅ : StringMap Lending.Loan).insert "i0" openLoan }) }

/-- An instruction of the borrower on that collection. -/
def borrows (ix : Lending.LendingInstruction) : Instruction :=
  .withArgs ProgramIds.lendingProgram
    [.writable (.repeated 3) false, .readonly (.repeated 2) true] ix

/-- A repayment of 400 sats. -/
def repays : Instruction := borrows (.repayLoan "i0" ⟨.zero 32, 7⟩ 400)

/-- The claim of a default, which is too early. -/
def claims : Instruction := borrows (.claimDefault "i0")

theorem failed_settles_nothing_claim : ∃ e,
    (walletNode.apply lendingWorld (signedBy [.repeated 2] [claims]) .commit).1 =
        .error (.error e) ∧
      walletNode.outside.paid
        (walletNode.apply lendingWorld (signedBy [.repeated 2] [claims]) .commit).2.effects = [] ∧
      (walletNode.apply lendingWorld (signedBy [.repeated 2] [claims]) .commit).2.state =
        lendingWorld.state := by
  have herr : (walletNode.apply lendingWorld (signedBy [.repeated 2] [claims]) .commit).1 =
      .error (.error ⟨-32002, "VM error: program error: loan not expired"⟩) := by
    rw [Executor.apply_eval]
    decide +kernel
  have hrefused : (tableStep walletNode .commit (signedBy [.repeated 2] [claims])
      lendingWorld.state.accounts claims).isNone = true := by
    decide +kernel
  have hnone := Option.isNone_iff_eq_none.mp hrefused
  refine ⟨_, herr, (failed_settles_nothing_iff walletNode lendingWorld _ _ herr).mpr
    (quiet_cons.mpr ⟨fun transition hcompletes => ?_, fun t' hstep => ?_⟩)⟩
  · rw [hcompletes.tableStep] at hnone
    simp at hnone
  · rw [hnone] at hstep
    simp at hstep

/-- **A failed transaction that has paid.** The repayment is sent to the lender, and then the
    transaction fails: the loan stays as it was. -/
theorem failed_transaction_paid : ∃ e,
    (walletNode.apply lendingWorld (signedBy [.repeated 2] [repays, claims]) .commit).1 =
        .error (.error e) ∧
      walletNode.outside.paid
          (walletNode.apply lendingWorld (signedBy [.repeated 2] [repays, claims])
            .commit).2.effects =
        [.sendPayment regtestAddress 400] ∧
      (walletNode.apply lendingWorld (signedBy [.repeated 2] [repays, claims])
          .commit).2.state.loadAccount (.repeated 3) =
        lendingWorld.state.loadAccount (.repeated 3) := by
  rw [Executor.apply_eval]
  exact ⟨⟨-32002, "VM error: program error: loan not expired"⟩, by decide +kernel⟩

/-! ## Directives that are lost -/

/-- While `accounts` are drained from `w`, the directive `s` of the account `a` comes up in
    `w'`. -/
def ComesUp (o : Outside) (txid : Blob 32) (w : World) (accounts : List AccountInfo)
    (a : AccountInfo) (s : Lending.Settlement) (w' : World) : Prop :=
  ∃ pre post ss ss', accounts = pre ++ a :: post ∧ queuedIn a.data = ss ++ s :: ss' ∧
    w' = ss.foldl (settleOne o txid) (settleLending o txid w pre).1

/-- A call is made for the directive, and succeeds. -/
def Acknowledged (o : Outside) (w : World) (s : Lending.Settlement) : Prop :=
  ∃ call answer, callFor o s = some call ∧ o.answer w.effects call = some answer

/-- The directive is queued in what is stored at `k`. -/
def HeldIn (t : Accounts) (k : Pubkey) (s : Lending.Settlement) : Prop :=
  ∃ stored, t.lookup k = some stored ∧ s ∈ queuedIn stored.data

/-- Of the slots of the transaction that name `k`, the last one holds the directive when its
    program returns; and if that is a lending program, the queue cannot be cleared there. -/
def Survives (ex : Executor) (tx : RuntimeTransaction) (t : Accounts) (instrs : List Instruction)
    (k : Pubkey) (s : Lending.Settlement) : Prop :=
  ∃ pre instr post t' transition before a after, instrs = pre ++ instr :: post ∧
    Lib.run (tableStep ex .commit tx) t pre = some t' ∧ Completes ex tx t' instr transition ∧
    (∀ later ∈ post, k ∉ later.accounts.map (·.pubkey)) ∧
    transition.updatedAccounts = before ++ a :: after ∧ a.key = k ∧ k ∉ after.map (·.key) ∧
    s ∈ queuedIn a.data ∧ (instr.programId = ProgramIds.lendingProgram → Unclearable a)

section
variable {ex : Executor} {tx : RuntimeTransaction} {t t' : Accounts} {instr : Instruction}
  {transition : StateTransition} {k : Pubkey}

theorem Completes.keys (h : Completes ex tx t instr transition) :
    transition.updatedAccounts.map (·.key) = instr.accounts.map (·.pubkey) := by
  have hkeys : transition.updatedAccounts.map (·.key) = (accountsOf t instr).map (·.key) :=
    executeProgram_keys h.2
  rw [hkeys, accountsOf_keys]

/-- An instruction that does not name a key leaves what is stored there. -/
theorem tableStep_lookup (h : tableStep ex .commit tx t instr = some t')
    (hk : k ∉ instr.accounts.map (·.pubkey)) : t'.lookup k = t.lookup k := by
  unfold tableStep at h
  split at h
  · obtain ⟨updated, hout, rfl⟩ := Option.map_eq_some_iff.mp h
    apply Table.lookup_write_of_notMem
    rwa [entries_keys, output_keys hout, accountsOf_keys]
  · simp at h

theorem run_lookup {instrs : List Instruction} : ∀ {t : Accounts},
    Lib.run (tableStep ex .commit tx) t instrs = some t' →
      (∀ later ∈ instrs, k ∉ later.accounts.map (·.pubkey)) → t'.lookup k = t.lookup k := by
  induction instrs with
  | nil =>
    intro t h _
    rw [show t = t' from Option.some.inj h]
  | cons instr rest ih =>
    intro t h hnot
    obtain ⟨t₁, hstep, hrest⟩ := run_cons h
    rw [ih hrest fun later hlater => hnot later (List.mem_cons_of_mem _ hlater),
      tableStep_lookup hstep (hnot instr List.mem_cons_self)]

/-- What is stored under a key in the end is what the last slot that names it left. -/
theorem heldIn_last {pre post : List Instruction} {t₀ : Accounts} {before after : List AccountInfo}
    {a : AccountInfo} {s : Lending.Settlement}
    (hpre : Lib.run (tableStep ex .commit tx) t₀ pre = some t)
    (hcompletes : Completes ex tx t instr transition)
    (hpost : ∀ later ∈ post, k ∉ later.accounts.map (·.pubkey))
    (hupdated : transition.updatedAccounts = before ++ a :: after) (hkey : a.key = k)
    (hafter : k ∉ after.map (·.key))
    (hrun : Lib.run (tableStep ex .commit tx) t₀ (pre ++ instr :: post) = some t') :
    HeldIn t' k s ↔ s ∈ queuedIn a.data ∧
      (instr.programId = ProgramIds.lendingProgram → Unclearable a) := by
  obtain ⟨m, hm, hrest⟩ := run_append hrun
  obtain rfl : t = m := Option.some.inj (hpre.symm.trans hm)
  obtain ⟨t₁, hstep, htail⟩ := run_cons hrest
  rw [hcompletes.tableStep, Option.some.injEq] at hstep
  have hlookup := run_lookup htail hpost
  unfold HeldIn
  rw [hlookup, ← hstep, hupdated, kept]
  split
  · rename_i hlending
    rw [List.map_append, List.map_cons, entries, List.map_append, List.map_cons, drained_key, hkey,
      Table.lookup_write_append]
    · constructor
      · rintro ⟨stored, hstored, hs⟩
        rw [← Option.some.inj hstored] at hs
        obtain ⟨hqueued, hstuck⟩ := mem_queued_drained.mp hs
        exact ⟨hqueued, fun _ => hstuck⟩
      · rintro ⟨hs, hstuck⟩
        exact ⟨_, rfl, mem_queued_drained.mpr ⟨hs, hstuck hlending.2⟩⟩
    · have hkeys : (entries (after.map drained)).map Prod.fst = after.map (·.key) := by
        rw [entries_keys, List.map_map]
        exact List.map_congr_left fun b _ => drained_key b
      exact hkeys ▸ hafter
  · rename_i hother
    rw [entries, List.map_append, List.map_cons, hkey, Table.lookup_write_append]
    · constructor
      · rintro ⟨stored, hstored, hs⟩
        rw [← Option.some.inj hstored] at hs
        exact ⟨hs, fun hlending => absurd ⟨rfl, hlending⟩ hother⟩
      · rintro ⟨hs, -⟩
        exact ⟨_, rfl, hs⟩
    · exact entries_keys after ▸ hafter

/-- A list in which something occurs has a last place where it does. -/
theorem exists_last_split {α : Type} {p : α → Prop} {l : List α} (h : ∃ x ∈ l, p x) :
    ∃ before x after, l = before ++ x :: after ∧ p x ∧ ∀ y ∈ after, ¬ p y := by
  induction l with
  | nil => simp at h
  | cons x rest ih =>
    by_cases hlater : ∃ y ∈ rest, p y
    · obtain ⟨before, y, after, hsplit, hy, hafter⟩ := ih hlater
      exact ⟨x :: before, y, after, by rw [hsplit]; rfl, hy, hafter⟩
    · obtain ⟨y, hy, hpy⟩ := h
      rcases List.mem_cons.mp hy with rfl | hy
      · exact ⟨[], y, rest, rfl, hpy, fun z hz hpz => hlater ⟨z, hz, hpz⟩⟩
      · exact absurd ⟨y, hy, hpy⟩ hlater

theorem heldIn_iff_survives {instrs : List Instruction} {t₀ : Accounts} {s : Lending.Settlement}
    (hrun : Lib.run (tableStep ex .commit tx) t₀ instrs = some t')
    (hnamed : ∃ instr ∈ instrs, k ∈ instr.accounts.map (·.pubkey)) :
    HeldIn t' k s ↔ Survives ex tx t₀ instrs k s := by
  constructor
  · intro hheld
    obtain ⟨pre, instr, post, rfl, hnames, hpost⟩ := exists_last_split hnamed
    obtain ⟨t, hpre, hrest⟩ := run_append hrun
    obtain ⟨t₁, hstep, -⟩ := run_cons hrest
    obtain ⟨transition, hcompletes⟩ := completes_of_tableStep hstep
    rw [← hcompletes.keys, List.mem_map] at hnames
    obtain ⟨before, a, after, hupdated, hkey, hafter⟩ := exists_last_split hnames
    have hnot : k ∉ after.map (·.key) := by
      intro hmem
      obtain ⟨b, hb, hbk⟩ := List.mem_map.mp hmem
      exact hafter b hb hbk
    obtain ⟨hs, hstuck⟩ := (heldIn_last hpre hcompletes hpost hupdated hkey hnot hrun).mp hheld
    exact ⟨pre, instr, post, t, transition, before, a, after, rfl, hpre, hcompletes, hpost, hupdated,
      hkey, hnot, hs, hstuck⟩
  · rintro ⟨pre, instr, post, t, transition, before, a, after, rfl, hpre, hcompletes, hpost,
      hupdated, hkey, hnot, hs, hstuck⟩
    exact (heldIn_last hpre hcompletes hpost hupdated hkey hnot hrun).mpr ⟨hs, hstuck⟩

theorem applyInstructions_append {mode : Mode} {pre post : List Instruction} :
    ∀ {r r' : Running}, Comp.Returns (Executor.applyInstructions ex mode tx (pre ++ post)) r () r' →
      ∃ m, Comp.Returns (Executor.applyInstructions ex mode tx pre) r () m ∧
        Comp.Returns (Executor.applyInstructions ex mode tx post) m () r' := by
  induction pre with
  | nil => exact fun h => ⟨_, Comp.returns_pure.mpr ⟨rfl, rfl⟩, h⟩
  | cons instr rest ih =>
    intro r r' h
    obtain ⟨_, m, hhead, htail⟩ := Comp.returns_bind.mp h
    obtain ⟨n, hrest, hpost⟩ := ih htail
    exact ⟨n, Comp.returns_bind.mpr ⟨(), m, hhead, hrest⟩, hpost⟩

end

/-- **When a settlement is not lost.** For every lending instruction of a transaction that commits,
    whatever is configured and answered, and every directive that is queued in its accounts when
    they are drained: it is acknowledged or still queued in what is stored in the end, if and only
    if it is acknowledged or survives in the last slot that names its collection. -/
theorem settlement_kept_iff (ex : Executor) (w : World) (tx : RuntimeTransaction)
    (pre post : List Instruction) (instr : Instruction)
    (hok : (ex.apply w tx .commit).1 = .ok ())
    (hsplit : tx.message.instructions = pre ++ instr :: post)
    (hlending : instr.programId = ProgramIds.lendingProgram) :
    ∃ r transition,
      Comp.Returns (ex.applyInstructions .commit tx pre) { toWorld := w } () r ∧
      Completes ex tx (current r) instr transition ∧
      Executor.settled ex .commit tx instr r.toWorld transition.updatedAccounts =
        settleLending ex.outside tx.messageHash r.toWorld transition.updatedAccounts ∧
      ∀ a s w', ComesUp ex.outside tx.messageHash r.toWorld transition.updatedAccounts a s w' →
        (Acknowledged ex.outside w' s ∨
            HeldIn (ex.apply w tx .commit).2.state.accounts a.key s ↔
          Acknowledged ex.outside w' s ∨
            Survives ex tx w.state.accounts tx.message.instructions a.key s) := by
  obtain ⟨m, state, hloop, -, -⟩ := Executor.apply_commit_ok hok
  have hrun := apply_commit_run hok
  rw [hsplit] at hloop
  obtain ⟨r, hpre, hrest⟩ := applyInstructions_append hloop
  obtain ⟨_, r', hinstr, -⟩ := Comp.returns_bind.mp hrest
  obtain ⟨transition, hcompletes, -⟩ := applyInstruction_calls hinstr
  refine ⟨r, transition, hpre, hcompletes, if_pos ⟨rfl, hlending⟩, ?_⟩
  rintro a s w' ⟨before, after, ss, ss', haccounts, -, -⟩
  rw [heldIn_iff_survives hrun]
  refine ⟨instr, by rw [hsplit]; simp, ?_⟩
  rw [← hcompletes.keys, haccounts]
  simp

/-- A node with both clients, whose calls all succeed. -/
def answeringNode : Executor where
  machine := (Executor.bare .dev).machine
  outside :=
    { lightning := true
      bitcoin := true
      custody := false
      address := fun _ => true
      txOut := fun _ _ _ => some 1000
      signs := fun _ _ => true
      reply := fun _ _ => some "" }

theorem answeringNode_acknowledges (w : World) (s : Lending.Settlement) :
    Acknowledged answeringNode.outside w s := by
  have hreply : ∀ call, answeringNode.outside.sends (answeringNode.outside.paid w.effects) call =
      true → answeringNode.outside.answer w.effects call = some "" := fun _ h => if_pos h
  by_cases hinvoice : s.kind = .repayment ∧ isInvoice s.recipient = true
  · exact ⟨.payInvoice s.recipient, "", if_pos hinvoice, hreply _ rfl⟩
  · refine ⟨settlementCall false s, "", if_neg hinvoice, hreply _ ?_⟩
    exact sends_settlementCall.mpr ⟨rfl, fun _ => ⟨rfl, rfl⟩⟩

theorem settlement_kept_repayment :
    (answeringNode.apply lendingWorld (signedBy [.repeated 2] [repays]) .commit).1 = .ok () ∧
    ∃ transition, Completes answeringNode (signedBy [.repeated 2] [repays])
        lendingWorld.state.accounts repays transition ∧
      ∀ a s w', ComesUp answeringNode.outside (signedBy [.repeated 2] [repays]).messageHash
          lendingWorld transition.updatedAccounts a s w' →
        Acknowledged answeringNode.outside w' s ∨
          HeldIn (answeringNode.apply lendingWorld (signedBy [.repeated 2] [repays])
            .commit).2.state.accounts a.key s := by
  have hok : (answeringNode.apply lendingWorld (signedBy [.repeated 2] [repays]) .commit).1 =
      .ok () := by
    rw [Executor.apply_eval]
    decide +kernel
  obtain ⟨r, transition, hpre, hcompletes, -, hkept⟩ := settlement_kept_iff answeringNode
    lendingWorld (signedBy [.repeated 2] [repays]) [] [] repays hok rfl rfl
  obtain ⟨-, rfl⟩ := Comp.returns_pure.mp hpre
  rw [show current { toWorld := lendingWorld } = _ from Table.layered_empty] at hcompletes
  refine ⟨hok, transition, hcompletes, fun a s w' hup => (hkept a s w' hup).mpr (.inl ?_)⟩
  exact answeringNode_acknowledges w' s

/-- The directive that a repayment of 400 sats queues. -/
def repaid : Lending.Settlement where
  kind := .repayment
  inscriptionId := "i0"
  utxo := ⟨.zero 32, 7⟩
  recipient := regtestAddress
  amount := 400

/-- **A repayment that is lost.** On a node without clients the borrower's repayment is booked; the
    payment to the lender is neither made nor kept. -/
theorem repayment_lost :
    (Executor.apply (.bare .dev) lendingWorld (signedBy [.repeated 2] [repays]) .commit).1 =
        .ok () ∧
    ∃ transition a, Completes (.bare .dev) (signedBy [.repeated 2] [repays])
        lendingWorld.state.accounts repays transition ∧
      ComesUp (Executor.bare .dev).outside (signedBy [.repeated 2] [repays]).messageHash
        lendingWorld transition.updatedAccounts a repaid lendingWorld ∧
      ¬ Acknowledged (Executor.bare .dev).outside lendingWorld repaid ∧
      ¬ HeldIn (Executor.apply (.bare .dev) lendingWorld (signedBy [.repeated 2] [repays])
        .commit).2.state.accounts a.key repaid := by
  have hqueue : (executeProgram (Executor.bare .dev).machine repays.programId
      ⟨accountsOf lendingWorld.state.accounts repays, repays.data, 0⟩ []).toOption.any
        (fun transition => transition.updatedAccounts.map
          (fun a => (a.key, queuedIn a.data)) = [(.repeated 3, [repaid]), (.repeated 2, [])]) =
            true := by
    decide +kernel
  have hguard : rejectDuplicateWritable (accountsOf lendingWorld.state.accounts repays) =
      .ok () := by
    decide
  obtain ⟨hok, hempty⟩ : (Executor.apply (.bare .dev) lendingWorld
      (signedBy [.repeated 2] [repays]) .commit).1 = .ok () ∧
      ((Executor.apply (.bare .dev) lendingWorld (signedBy [.repeated 2] [repays])
        .commit).2.state.accounts.lookup (.repeated 3)).all
          (fun stored => queuedIn stored.data = []) = true := by
    rw [Executor.apply_eval]
    decide +kernel
  obtain ⟨transition, hsome, hthen⟩ := (Option.any_eq_true _ _).mp hqueue
  have hslots := of_decide_eq_true hthen
  obtain ⟨a, rest, haccounts, hhead, -⟩ := List.map_eq_cons_iff.mp hslots
  obtain ⟨hkey, hqueued⟩ := Prod.mk.inj hhead
  refine ⟨hok, transition, a, ⟨hguard, eq_ok_of_toOption hsome⟩,
    ⟨[], rest, [], [], haccounts, hqueued, rfl⟩, ?_, ?_⟩
  · rintro ⟨call, answer, hcall, -⟩
    have hnone : callFor (Executor.bare .dev).outside repaid = none := by decide
    rw [hnone] at hcall
    simp at hcall
  · rintro ⟨stored, hstored, hs⟩
    rw [hkey] at hstored
    rw [hstored, Option.all_some, decide_eq_true_eq] at hempty
    rw [hempty] at hs
    simp at hs

end Proof
end Himsha
