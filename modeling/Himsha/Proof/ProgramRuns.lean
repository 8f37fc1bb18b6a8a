import Himsha.Proof.Records

/-!
# Runs of one program

The transactions of a run contain instructions of one built-in program only. What such an
instruction does to the account table is what the program makes of the slots, what the gate lets
through of that, and one bulk write. A property of runs is then a property of that step:
`programRun_invariant` is the rule for the state a run ends in, `programRun_each` the one for what
holds of every instruction on the way.
-/

set_option autoImplicit false

namespace Himsha
namespace Proof

open Himsha.Lib Himsha.Runtime Himsha.Programs Himsha.Vm Himsha.Node

/-! ## One instruction -/

section
variable {ex : Executor} {mode : Mode} {tx : RuntimeTransaction} {t t' : Accounts}
  {instr : Instruction} {π : Profile} {hasher : Lending.Hasher} {programId : Pubkey}
  {accounts out : List AccountInfo} {data : List UInt8} {timestamp : UInt64} {th th' : Thread}

theorem tableStep_output (h : tableStep ex mode tx t instr = some t') :
    rejectDuplicateWritable (accountsOf t instr) = .ok () ∧
      ∃ out, output ex mode tx instr (accountsOf t instr) = some out ∧
        t' = t.write (entries out) := by
  unfold tableStep at h
  split at h
  · rename_i hdup
    obtain ⟨out, hout, rfl⟩ := Option.map_eq_some_iff.mp h
    exact ⟨hdup, out, hout, rfl⟩
  · simp at h

/-- A built-in is run natively, and what it leaves is kept as it is unless it is the lending
    program. -/
theorem output_dispatch (hbuiltin : isBuiltin instr.programId = true)
    (hlending : instr.programId ≠ ProgramIds.lendingProgram)
    (h : output ex mode tx instr accounts = some out) :
    ∃ th', Comp.Returns (dispatch ex.machine.profile ex.machine.hasher instr.programId accounts
      instr.data tx.message.timestamp) {} out th' := by
  unfold output executeProgram at h
  rw [if_pos hbuiltin] at h
  split at h
  · rename_i transition hexec
    obtain ⟨th', hret, -⟩ := executeNative_eq_ok hexec
    unfold kept at h
    rw [if_neg fun hboth => hlending hboth.2, Option.some.injEq] at h
    subst h
    exact ⟨th', hret⟩
  · simp at h

/-- The program runs with nothing approved, and the gate sees what it leaves. -/
theorem dispatch_returns (h : Comp.Returns (dispatch π hasher programId accounts data timestamp)
    th out th') : ∃ mid th₀ th₁, th₀.approved = ∅ ∧
      Comp.Returns (runBuiltin π hasher programId accounts data timestamp) th₀ mid th₁ ∧
      Comp.Returns (validateWrites programId accounts mid) th₁ out th' := by
  obtain ⟨_, th₀, hbegin, h₁⟩ := Comp.returns_bind.mp h
  obtain ⟨mid, th₁, hrun, hgate⟩ := Comp.returns_bind.mp h₁
  refine ⟨mid, th₀, th₁, ?_, hrun, hgate⟩
  rw [Comp.returns_modify.mp hbegin]
  rfl

/-- A program that invokes no other leaves the trail empty. -/
theorem dispatch_ofExcept {r : Outcome (List AccountInfo)}
    (hrun : runBuiltin π hasher programId accounts data timestamp = Comp.ofExcept r)
    (h : Comp.Returns (dispatch π hasher programId accounts data timestamp) th out th') :
    ∃ mid th₁, r = .ok mid ∧ th₁.approved = ∅ ∧
      Comp.Returns (validateWrites programId accounts mid) th₁ out th' := by
  obtain ⟨mid, th₀, th₁, happ, hmid, hgate⟩ := dispatch_returns h
  rw [hrun] at hmid
  obtain ⟨hok, rfl⟩ := Comp.returns_ofExcept.mp hmid
  exact ⟨mid, th₁, hok, happ, hgate⟩

/-- A program that decodes its instruction and runs it: the gate leaves the data of every slot as the
    instruction left it. -/
theorem dispatch_runs {α : Type} [Borsh α] {run : α → Prog (List AccountInfo)}
    (hprocess : runBuiltin π hasher programId accounts data timestamp = do
      let ix ← okOr .invalidInstruction (tryFromSlice data)
      run ix)
    (h : Comp.Returns (dispatch π hasher programId accounts data timestamp) th out th') :
    ∃ ix mid th₀ th₁, tryFromSlice data = some ix ∧ Comp.Returns (run ix) th₀ mid th₁ ∧
      out.map (·.data) = mid.map (·.data) := by
  obtain ⟨mid, th₀, th₁, -, hrun, hgate⟩ := dispatch_returns h
  rw [hprocess] at hrun
  obtain ⟨ix, th₂, hdecoded, hrun'⟩ := Comp.returns_bind.mp hrun
  obtain ⟨hix, rfl⟩ := Comp.returns_ofExcept.mp hdecoded
  obtain ⟨hlen, hgate'⟩ := validateWrites_returns.mp hgate
  exact ⟨ix, mid, _, th₁, okOr_eq_ok.mp hix, hrun', gate_data hlen hgate'⟩

end

/-! ## Whole runs -/

/-- One transaction of instructions of `programId`, whether it succeeds or not. -/
def programStep (programId : Pubkey) (ex : Executor) (w : World) (tx : RuntimeTransaction) :
    Option World :=
  if tx.message.instructions.all (·.programId == programId) then
    some (ex.apply w tx .commit).2.toWorld
  else none

/-- If the transaction commits, each of its instructions meets `ok` in the table it finds. -/
def CommitsMeet (ok : RuntimeTransaction → Accounts → Instruction → Prop) (ex : Executor)
    (w : World) (tx : RuntimeTransaction) : Prop :=
  (ex.apply w tx .commit).1 = .ok () →
    Meets (tableStep ex .commit tx) (ok tx) w.state.accounts tx.message.instructions

section
variable {programId : Pubkey} {ex : Executor}
  {ok good : RuntimeTransaction → Accounts → Instruction → Prop} {I : Accounts → Prop}

theorem programStep_eq_some {w w' : World} {tx : RuntimeTransaction}
    (h : programStep programId ex w tx = some w') :
    (∀ instr ∈ tx.message.instructions, instr.programId = programId) ∧
      w' = (ex.apply w tx .commit).2.toWorld := by
  unfold programStep at h
  split at h
  · rename_i hall
    exact ⟨by simpa using hall, (Option.some.inj h).symm⟩
  · simp at h

/-- A transaction whose table steps all succeed. -/
theorem programRun_single (programId : Pubkey) {w : World} {tx : RuntimeTransaction} {t' : Accounts}
    (hprog : tx.message.instructions.all (·.programId == programId) = true)
    (hlock : w.poisoned = false)
    (hrun : Lib.run (tableStep ex .commit tx) w.state.accounts tx.message.instructions = some t')
    (henc : ∀ e ∈ t'.entries, e.2.data.length < 2 ^ 32) :
    ∃ w', Lib.run (programStep programId ex) w [tx] = some w' ∧ w'.state.accounts = t' := by
  refine ⟨_, ?_, (apply_of_run hlock hrun henc).2.1⟩
  unfold Lib.run programStep
  rw [if_pos hprog]
  rfl

/-- What a transaction leaves of a table, if its table steps succeed and it can be encoded. -/
def tableAfter (ex : Executor) (t : Accounts) (tx : RuntimeTransaction) : Option Accounts :=
  (Lib.run (tableStep ex .commit tx) t tx.message.instructions).filter fun t =>
    decide (∀ e ∈ t.entries, e.2.data.length < 2 ^ 32)

/-- **A run of tables is a run of worlds**, and what its instructions meet there they meet here. -/
theorem programRun_tables (programId : Pubkey)
    (ok : RuntimeTransaction → Accounts → Instruction → Prop) {txs : List RuntimeTransaction} :
    ∀ {w : World} {t' : Accounts},
      (∀ tx ∈ txs, tx.message.instructions.all (·.programId == programId) = true) →
      w.poisoned = false → Lib.run (tableAfter ex) w.state.accounts txs = some t' →
      Meets (tableAfter ex) (fun t tx => Meets (tableStep ex .commit tx) (ok tx) t
        tx.message.instructions) w.state.accounts txs →
      ∃ w', Lib.run (programStep programId ex) w txs = some w' ∧ w'.state.accounts = t' ∧
        Meets (programStep programId ex) (CommitsMeet ok ex) w txs := by
  induction txs with
  | nil =>
    intro w t' _ _ hrun _
    exact ⟨w, rfl, Option.some.inj hrun, trivial⟩
  | cons tx rest ih =>
    intro w t' hprog hlock hrun hmeets
    obtain ⟨t, hafter, hrest⟩ := run_cons hrun
    obtain ⟨htx, henc⟩ := Option.filter_eq_some_iff.mp hafter
    obtain ⟨-, haccounts, hfree⟩ := apply_of_run hlock htx (of_decide_eq_true henc)
    have hstep : programStep programId ex w tx = some (ex.apply w tx .commit).2.toWorld := by
      unfold programStep
      rw [if_pos (hprog tx List.mem_cons_self)]
    obtain ⟨w', hw', hend, hmeets'⟩ := ih (w := (ex.apply w tx .commit).2.toWorld)
      (fun tx' htx' => hprog tx' (List.mem_cons_of_mem _ htx')) hfree
      (by rw [haccounts]; exact hrest) (by rw [haccounts]; exact hmeets.2 t hafter)
    refine ⟨w', ?_, hend, fun _ => hmeets.1, fun w₁ hw₁ => ?_⟩
    · rw [Lib.run, hstep]
      exact hw'
    · rw [hstep, Option.some.injEq] at hw₁
      subst hw₁
      exact hmeets'

/-- What every instruction keeps, every transaction keeps. -/
theorem programStep_invariant {w w' : World} {tx : RuntimeTransaction}
    (hstep : ∀ t instr t', instr.programId = programId → ok tx t instr → I t →
      tableStep ex .commit tx t instr = some t' → I t')
    (hok : CommitsMeet ok ex w tx) (hI : I w.state.accounts)
    (h : programStep programId ex w tx = some w') : I w'.state.accounts := by
  obtain ⟨hprog, rfl⟩ := programStep_eq_some h
  by_cases hcommit : (ex.apply w tx .commit).1 = .ok ()
  · have hmeets := (hok hcommit).and (Meets.of_forall hprog)
    exact run_invariant (fun t instr t' hboth hI hstep' =>
      hstep t instr t' hboth.2 hboth.1 hI hstep') hmeets hI (apply_commit_run hcommit)
  · have hsame := (apply_failed_stored hcommit).accounts
    change I (ex.apply w tx .commit).2.state.accounts
    rw [hsame]
    exact hI

/-- **The invariant rule for the runs of a program.** -/
theorem programRun_invariant {w w' : World} {txs : List RuntimeTransaction}
    (hstep : ∀ tx t instr t', instr.programId = programId → ok tx t instr → I t →
      tableStep ex .commit tx t instr = some t' → I t')
    (hmeets : Meets (programStep programId ex) (CommitsMeet ok ex) w txs)
    (hI : I w.state.accounts) (h : Lib.run (programStep programId ex) w txs = some w') :
    I w'.state.accounts :=
  run_invariant (I := fun w => I w.state.accounts) (fun _ tx _ hok hI hw =>
    programStep_invariant (hstep tx) hok hI hw) hmeets hI h

/-- A run that goes through is of instructions of the program. -/
theorem programRun_instrs {w w' : World} {txs : List RuntimeTransaction}
    (h : Lib.run (programStep programId ex) w txs = some w') :
    ∀ tx ∈ txs, ∀ instr ∈ tx.message.instructions, instr.programId = programId := by
  induction txs generalizing w with
  | nil =>
    intro tx htx
    cases htx
  | cons tx rest ih =>
    obtain ⟨m, hm, hrest⟩ := run_cons h
    intro tx' htx'
    rcases List.mem_cons.mp htx' with rfl | hmem
    · exact (programStep_eq_some hm).1
    · exact ih hrest tx' hmem

/-- **And for what holds of every instruction on the way.** -/
theorem programRun_each {w w' : World} {txs : List RuntimeTransaction}
    (hstep : ∀ tx t instr t', instr.programId = programId → ok tx t instr → I t →
      tableStep ex .commit tx t instr = some t' → I t')
    (hgood : ∀ tx t instr, instr.programId = programId → ok tx t instr → I t → good tx t instr)
    (hmeets : Meets (programStep programId ex) (CommitsMeet ok ex) w txs)
    (hI : I w.state.accounts) (h : Lib.run (programStep programId ex) w txs = some w') :
    Meets (programStep programId ex) (CommitsMeet good ex) w txs := by
  have hboth := hmeets.and (Meets.of_forall (programRun_instrs h))
  refine Meets.of_invariant (I := fun w => I w.state.accounts) ?_ ?_ hboth hI
  · intro w tx w' hok hI hw
    exact programStep_invariant (hstep tx) hok.1 hI hw
  · intro w tx hok hI hcommit
    -- Inside the transaction it is the same rule, one instruction at a time.
    have hinner := (hok.1 hcommit).and (Meets.of_forall hok.2)
    refine Meets.of_invariant (I := I) ?_ ?_ hinner hI
    · intro t instr t' hone hI' hstep'
      exact hstep tx t instr t' hone.2 hone.1 hI' hstep'
    · intro t instr hone hI'
      exact hgood tx t instr hone.2 hone.1 hI'

end

end Proof
end Himsha
