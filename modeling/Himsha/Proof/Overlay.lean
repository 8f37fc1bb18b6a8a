import Himsha.Lib.Run
import Himsha.Node.Execution
import Himsha.Proof.Frames

/-!
# A transaction as a run of bulk writes

Seen from outside, an instruction is one bulk write of the account table: every slot of the
program's result is stored under its key, in slot order. `tableStep` says that and nothing else,
and `apply_commit_run` is the refinement: a commit that succeeds leaves the table that a run of
`tableStep` over its instructions leaves. Where a key is named more than once it is the last slot
that counts, and `writable_carried` is about the slots that lose.
-/

set_option autoImplicit false

namespace Himsha
namespace Proof

open Himsha.Lib Himsha.Runtime Himsha.Programs Himsha.Vm Himsha.Node

/-- The account a slot is given, out of a table. -/
def accountAt (t : Accounts) (programId : Pubkey) (am : AccountMeta) : AccountInfo :=
  let account := match t.lookup am.pubkey with
    | some stored => stored.intoAccount am.pubkey
    | none => AccountInfo.new am.pubkey programId 0 0
  { account with isSigner := am.isSigner, isWritable := am.isWritable }

/-- All slots of an instruction. -/
def accountsOf (t : Accounts) (instr : Instruction) : List AccountInfo :=
  instr.accounts.map (accountAt t instr.programId)

/-- The records a result is stored as. -/
def entries (updated : List AccountInfo) : List (Pubkey × StoredAccount) :=
  updated.map fun a => (a.key, a.toStored)

theorem entries_keys (updated : List AccountInfo) :
    (entries updated).map Prod.fst = updated.map (·.key) := by
  rw [entries, List.map_map]
  rfl

/-- A collection account once its settlements have been taken. -/
def drained (a : AccountInfo) : AccountInfo :=
  match tryFromSlice (α := Lending.CollectionAccount) a.data with
  | none => a
  | some coll =>
      if coll.pendingSettlements.isEmpty then a
      else match a.writeData (Lending.takeSettlements coll).2 with
        | .ok a => a
        | .error _ => a

/-- What of a result is kept: on a commit, a lending result without its settlements. -/
def kept (mode : Mode) (instr : Instruction) (updated : List AccountInfo) : List AccountInfo :=
  if mode = .commit ∧ instr.programId = ProgramIds.lendingProgram then updated.map drained
  else updated

/-- What a program leaves in its slots, `none` where it does not return. -/
def output (ex : Executor) (mode : Mode) (tx : RuntimeTransaction) (instr : Instruction)
    (accounts : List AccountInfo) : Option (List AccountInfo) :=
  match executeProgram ex.machine instr.programId
      ⟨accounts, instr.data, tx.message.timestamp⟩ [] with
  | .ok transition => some (kept mode instr transition.updatedAccounts)
  | .error _ => none

/-- One instruction, as a step of the account table. -/
def tableStep (ex : Executor) (mode : Mode) (tx : RuntimeTransaction) (t : Accounts)
    (instr : Instruction) : Option Accounts :=
  if rejectDuplicateWritable (accountsOf t instr) = .ok () then
    (output ex mode tx instr (accountsOf t instr)).map fun updated => t.write (entries updated)
  else none

/-- The table a running transaction sees. -/
def current (r : Running) : Accounts := Table.layered r.overlay r.state.accounts

/-! ## Settlements stay out of the table -/

/-- Nothing of the database but the index of settlements is different. -/
def SameStored (s s' : NodeState) : Prop := s' = { s with btcTxIdx := s'.btcTxIdx }

theorem SameStored.accounts {s s' : NodeState} (h : SameStored s s') :
    s'.accounts = s.accounts := by
  unfold SameStored at h
  rw [h]

theorem SameStored.sameChain {s s' : NodeState} (h : SameStored s s') :
    NodeState.SameChain s s' := by
  unfold SameStored at h
  unfold NodeState.SameChain
  rw [h]

theorem SameStored.trans {s s' s'' : NodeState} (h : SameStored s s') (h' : SameStored s' s'') :
    SameStored s s'' := by
  unfold SameStored at h h' ⊢
  rw [h', h]

/-- And the registry lock is as it was. -/
def OnlySettled (w w' : World) : Prop := SameStored w.state w'.state ∧ w'.poisoned = w.poisoned

theorem OnlySettled.trans {w w' w'' : World} (h : OnlySettled w w') (h' : OnlySettled w' w'') :
    OnlySettled w w'' :=
  ⟨h.1.trans h'.1, h'.2.trans h.2⟩

theorem settleOne_stored (o : Outside) (txid : Blob 32) (w : World) (s : Lending.Settlement) :
    OnlySettled w (settleOne o txid w s) := by
  unfold settleOne
  split
  · split <;> exact ⟨rfl, rfl⟩
  · split
    · dsimp only
      split <;> exact ⟨rfl, rfl⟩
    · exact ⟨rfl, rfl⟩

theorem settleOnes_stored (o : Outside) (txid : Blob 32) (ss : List Lending.Settlement) :
    ∀ w : World, OnlySettled w (ss.foldl (settleOne o txid) w) := by
  induction ss with
  | nil => exact fun _ => ⟨rfl, rfl⟩
  | cons s rest ih =>
    intro w
    exact (settleOne_stored o txid w s).trans (ih _)

theorem settleAccount_eq (o : Outside) (txid : Blob 32) (w : World) (a : AccountInfo) :
    OnlySettled w (settleAccount o txid w a).1 ∧ (settleAccount o txid w a).2 = drained a := by
  unfold settleAccount drained
  cases tryFromSlice (α := Lending.CollectionAccount) a.data with
  | none => exact ⟨⟨rfl, rfl⟩, rfl⟩
  | some coll =>
    dsimp only
    split
    · exact ⟨⟨rfl, rfl⟩, rfl⟩
    · cases hwrite : a.writeData (Lending.takeSettlements coll).2 with
      | ok a' => exact ⟨settleOnes_stored o txid _ w, rfl⟩
      | error e => exact ⟨settleOnes_stored o txid _ w, rfl⟩

theorem settleLending_eq (o : Outside) (txid : Blob 32) (accounts : List AccountInfo) :
    ∀ w : World, OnlySettled w (settleLending o txid w accounts).1 ∧
      (settleLending o txid w accounts).2 = accounts.map drained := by
  induction accounts with
  | nil => exact fun _ => ⟨⟨rfl, rfl⟩, rfl⟩
  | cons a rest ih =>
    intro w
    obtain ⟨hstored, haccount⟩ := settleAccount_eq o txid w a
    obtain ⟨hstored', haccounts⟩ := ih (settleAccount o txid w a).1
    refine ⟨hstored.trans hstored', ?_⟩
    rw [List.map_cons, ← haccount, ← haccounts]
    rfl

theorem settled_eq (ex : Executor) (mode : Mode) (tx : RuntimeTransaction) (instr : Instruction)
    (w : World) (updated : List AccountInfo) :
    OnlySettled w (Executor.settled ex mode tx instr w updated).1 ∧
      (Executor.settled ex mode tx instr w updated).2 = kept mode instr updated := by
  unfold Executor.settled kept
  split
  · exact settleLending_eq ex.outside tx.messageHash updated w
  · exact ⟨⟨rfl, rfl⟩, rfl⟩

/-- Draining changes data at most. -/
theorem drained_eq (a : AccountInfo) : ∃ data, drained a = { a with data } := by
  unfold drained
  split
  · exact ⟨a.data, rfl⟩
  · split
    · exact ⟨a.data, rfl⟩
    · split
      · rename_i hwrite
        obtain ⟨-, data, -, rfl⟩ := writeData_eq_ok hwrite
        exact ⟨data, rfl⟩
      · exact ⟨a.data, rfl⟩

theorem drained_key (a : AccountInfo) : (drained a).key = a.key := by
  obtain ⟨data, hdata⟩ := drained_eq a
  rw [hdata]

/-! ## The refinement -/

theorem materialise_eq (r : Running) (programId : Pubkey) (am : AccountMeta) :
    Executor.materialise r programId am = accountAt (current r) programId am := by
  unfold Executor.materialise accountAt current
  rw [Table.lookup_layered]
  cases r.overlay.lookup am.pubkey with
  | some stored => rfl
  | none => rfl

/-- The accounts a program is handed are those of the table. -/
theorem materialise_accountsOf (r : Running) (instr : Instruction) :
    instr.accounts.map (Executor.materialise r instr.programId) = accountsOf (current r) instr :=
  List.map_congr_left fun am _ => materialise_eq r instr.programId am

theorem layered_carry (overlay : AList fun _ : Pubkey => StoredAccount) (m : Accounts)
    (updated : List AccountInfo) :
    Table.layered (Executor.carry overlay updated) m =
      (Table.layered overlay m).write (entries updated) := by
  unfold Executor.carry entries
  induction updated generalizing overlay with
  | nil => rfl
  | cons a rest ih =>
    rw [List.foldl_cons, ih, List.map_cons, Table.write_cons, Table.layered_insert]

section
variable {ex : Executor} {mode : Mode} {tx : RuntimeTransaction} {instr : Instruction}

/-- Every slot of a result is about the account it was given. -/
theorem output_keys {accounts updated : List AccountInfo}
    (h : output ex mode tx instr accounts = some updated) :
    updated.map (·.key) = accounts.map (·.key) := by
  unfold output at h
  split at h
  · rename_i t hexec
    have hkeys : t.updatedAccounts.map (·.key) = accounts.map (·.key) := executeProgram_keys hexec
    simp only [Option.some.injEq] at h
    subst h
    unfold kept
    split
    · rw [List.map_map, ← hkeys]
      exact List.map_congr_left fun a _ => drained_key a
    · exact hkeys
  · simp at h

/-- A round that succeeds is a step of the table. -/
theorem applyInstruction_tableStep {r r' : Running}
    (h : Comp.Returns (Executor.applyInstruction ex mode tx instr) r () r') :
    ∃ updated, rejectDuplicateWritable (accountsOf (current r) instr) = .ok () ∧
      output ex mode tx instr (accountsOf (current r) instr) = some updated ∧
      r'.overlay = Executor.carry r.overlay updated ∧
      r'.executed = r.executed ++
        [⟨instr, accountsOf (current r) instr, updated, Executor.carry r.overlay updated⟩] ∧
      r'.state.accounts = r.state.accounts := by
  obtain ⟨t, w, updated, hdup, hexec, hsettled, rfl⟩ := Executor.applyInstruction_returns h
  have haccounts := materialise_accountsOf r instr
  rw [haccounts] at hdup hexec
  obtain ⟨hstored, hkept⟩ := settled_eq ex mode tx instr r.toWorld t.updatedAccounts
  rw [hsettled] at hstored hkept
  subst hkept
  refine ⟨_, hdup, ?_, rfl, ?_, hstored.1.accounts⟩
  · unfold output
    rw [hexec]
  · rw [haccounts]

theorem applyInstructions_executed {instrs : List Instruction} : ∀ {r r' : Running},
    Comp.Returns (Executor.applyInstructions ex mode tx instrs) r () r' →
      r'.executed.map (·.instr) = r.executed.map (·.instr) ++ instrs := by
  induction instrs with
  | nil =>
    intro r r' h
    obtain ⟨-, rfl⟩ := Comp.returns_pure.mp h
    simp
  | cons instr rest ih =>
    intro r r' h
    obtain ⟨_, m, hhead, htail⟩ := Comp.returns_bind.mp h
    obtain ⟨updated, -, -, -, hexecuted, -⟩ := applyInstruction_tableStep hhead
    rw [ih htail, hexecuted]
    simp

theorem applyInstructions_run {instrs : List Instruction} : ∀ {r r' : Running},
    Comp.Returns (Executor.applyInstructions ex mode tx instrs) r () r' →
      Lib.run (tableStep ex mode tx) (current r) instrs = some (current r') := by
  induction instrs with
  | nil =>
    intro r r' h
    obtain ⟨-, rfl⟩ := Comp.returns_pure.mp h
    rfl
  | cons instr rest ih =>
    intro r r' h
    obtain ⟨_, m, hhead, htail⟩ := Comp.returns_bind.mp h
    obtain ⟨updated, hdup, hout, hoverlay, -, hstate⟩ := applyInstruction_tableStep hhead
    have hstep : tableStep ex mode tx (current r) instr = some (current m) := by
      unfold tableStep
      rw [if_pos hdup, hout, Option.map_some, current, ← layered_carry, ← hoverlay, ← hstate]
      rfl
    rw [Lib.run, hstep]
    exact ih htail

end

/-- **A commit refines a run of bulk writes.** -/
theorem apply_commit_run {ex : Executor} {w : World} {tx : RuntimeTransaction}
    (h : (ex.apply w tx .commit).1 = .ok ()) :
    Lib.run (tableStep ex .commit tx) w.state.accounts tx.message.instructions =
      some (ex.apply w tx .commit).2.state.accounts := by
  obtain ⟨m, state, hloop, hsave, heq⟩ := Executor.apply_commit_ok h
  have hrun := applyInstructions_run hloop
  rw [heq]
  change Lib.run _ (Table.layered ∅ w.state.accounts) _ = _ at hrun
  rw [Table.layered_empty] at hrun
  rw [hrun, NodeState.saveAccountsAtomic_accounts hsave, Table.write_overlay]
  rfl

/-! ## And back

A run of table steps is a transaction that commits: nothing else can stop one but a poisoned
registry and a record that is too long to encode. -/

section
variable {ex : Executor} {mode : Mode} {tx : RuntimeTransaction} {instr : Instruction}

theorem runProgram_returns_of_ok {r : Running} {accounts : List AccountInfo} {t : StateTransition}
    (hlock : r.poisoned = false) (h : executeProgram ex.machine instr.programId
      ⟨accounts, instr.data, tx.message.timestamp⟩ [] = .ok t) :
    Comp.Returns (Executor.runProgram ex tx instr accounts) r t
      { r with handed := r.handed ++ [(instr, accounts)] } := by
  unfold Executor.runProgram
  refine Comp.returns_bind.mpr ⟨r, r, Comp.returns_get.mpr ⟨rfl, rfl⟩, ?_⟩
  refine Comp.returns_bind.mpr ⟨(), r, Comp.returns_ensure.mpr ⟨by simp [hlock], rfl⟩, ?_⟩
  refine Comp.returns_bind.mpr ⟨(), _, Comp.returns_modify.mpr rfl, ?_⟩
  simp only [h]
  exact Comp.returns_pure.mpr ⟨rfl, rfl⟩

theorem applyInstruction_of_tableStep {r : Running} {t' : Accounts} (hlock : r.poisoned = false)
    (h : tableStep ex mode tx (current r) instr = some t') :
    ∃ r', Comp.Returns (Executor.applyInstruction ex mode tx instr) r () r' ∧
      current r' = t' ∧ r'.poisoned = false := by
  unfold tableStep at h
  split at h
  · rename_i hdup
    obtain ⟨updated, hout, rfl⟩ := Option.map_eq_some_iff.mp h
    have haccounts := materialise_accountsOf r instr
    unfold output at hout
    split at hout
    · rename_i t hexec
      simp only [Option.some.injEq] at hout
      subst hout
      obtain ⟨hstored, hkept⟩ := settled_eq ex mode tx instr r.toWorld t.updatedAccounts
      unfold Executor.applyInstruction
      refine ⟨_, Comp.returns_bind.mpr ⟨r, r, Comp.returns_get.mpr ⟨rfl, rfl⟩,
        Comp.returns_bind.mpr ⟨(), r, Comp.returns_ofExcept.mpr ⟨?_, rfl⟩,
        Comp.returns_bind.mpr ⟨t, _, runProgram_returns_of_ok hlock (haccounts ▸ hexec),
        Comp.returns_bind.mpr ⟨(), _, Comp.returns_ofExcept.mpr ⟨?_, rfl⟩,
        Comp.returns_bind.mpr ⟨_, _, Comp.returns_get.mpr ⟨rfl, rfl⟩,
          Comp.returns_set.mpr rfl⟩⟩⟩⟩⟩, ?_, ?_⟩
      · rw [haccounts, hdup]
        rfl
      · rw [executeProgram_verify hexec]
        rfl
      · change Table.layered (Executor.carry r.overlay
          (Executor.settled ex mode tx instr r.toWorld t.updatedAccounts).2)
          (Executor.settled ex mode tx instr r.toWorld t.updatedAccounts).1.state.accounts = _
        rw [hkept, layered_carry, hstored.1.accounts]
        rfl
      · exact hstored.2.trans hlock
    · simp at hout
  · simp at h

theorem applyInstructions_of_run {t' : Accounts} {instrs : List Instruction} :
    ∀ {r : Running}, r.poisoned = false →
      Lib.run (tableStep ex mode tx) (current r) instrs = some t' →
      ∃ r', Comp.Returns (Executor.applyInstructions ex mode tx instrs) r () r' ∧
        current r' = t' ∧ r'.poisoned = false := by
  induction instrs with
  | nil =>
    intro r hlock h
    exact ⟨r, Comp.returns_pure.mpr ⟨rfl, rfl⟩, Option.some.inj h, hlock⟩
  | cons instr rest ih =>
    intro r hlock h
    obtain ⟨t, hstep, hrest⟩ := run_cons h
    obtain ⟨m, hm, rfl, hlock'⟩ := applyInstruction_of_tableStep hlock hstep
    obtain ⟨r', hr', hcurrent⟩ := ih hlock' hrest
    exact ⟨r', Comp.returns_bind.mpr ⟨(), m, hm, hr'⟩, hcurrent⟩

/-- What a table holds can be encoded, so what an overlay over it holds can. -/
theorem overlay_encodes {r : Running}
    (h : ∀ e ∈ (current r).entries, e.2.data.length < 2 ^ 32) :
    (r.overlay.entries.map fun e => (e.1, e.2)).all (fun e => (toVec e.2).isSome) = true := by
  rw [List.all_eq_true]
  intro e he
  obtain ⟨e, hmem, rfl⟩ := List.mem_map.mp he
  have hlookup : r.overlay.lookup e.1 = some e.2 := AList.mem_lookup_iff.mpr hmem
  apply stored_encodes
  apply h ⟨e.1, e.2⟩
  rw [← Finmap.mem_lookup_iff, current, Table.lookup_layered, hlookup]
  rfl

/-- **A run of table steps commits**, if what it leaves can be encoded. -/
theorem apply_of_run {w : World} {t' : Accounts} (hlock : w.poisoned = false)
    (hrun : Lib.run (tableStep ex .commit tx) w.state.accounts tx.message.instructions = some t')
    (henc : ∀ e ∈ t'.entries, e.2.data.length < 2 ^ 32) :
    (ex.apply w tx .commit).1 = .ok () ∧ (ex.apply w tx .commit).2.state.accounts = t' ∧
      (ex.apply w tx .commit).2.poisoned = false := by
  have hstart : Lib.run (tableStep ex .commit tx) (current { toWorld := w })
      tx.message.instructions = some t' := by
    rw [← hrun]
    exact congrArg (fun t => Lib.run _ t _) Table.layered_empty
  obtain ⟨m, hloop, rfl, hfree⟩ := applyInstructions_of_run hlock hstart
  obtain ⟨state, hsave⟩ : ∃ state,
      m.state.saveAccountsAtomic (m.overlay.entries.map fun e => (e.1, e.2)) = some state :=
    ⟨_, if_pos (overlay_encodes henc)⟩
  have hpersist : Comp.Returns Executor.persist m () { m with state } := by
    refine Comp.returns_bind.mpr ⟨m, m, Comp.returns_get.mpr ⟨rfl, rfl⟩, ?_⟩
    rw [hsave]
    exact Comp.returns_set.mpr rfl
  have happly : ex.apply w tx .commit = (.ok (), { m with state }) :=
    Comp.returns_bind.mpr ⟨(), m, hloop, hpersist⟩
  rw [happly]
  refine ⟨rfl, ?_, hfree⟩
  rw [NodeState.saveAccountsAtomic_accounts hsave, Table.write_overlay]
  rfl

end

/-! ## What is left alone -/

section
variable {ex : Executor} {mode : Mode} {tx : RuntimeTransaction}

/-- What settling keeps, and the poisoning of the lock, the loop over the instructions keeps. -/
theorem applyInstruction_keepsWorld {I : World → Prop}
    (hsettled : ∀ w w', OnlySettled w w' → I w → I w')
    (hpoisoned : ∀ w, I w → I { w with poisoned := true }) (instr : Instruction) :
    Comp.Keeps (fun r : Running => I r.toWorld) (Executor.applyInstruction ex mode tx instr) := by
  unfold Executor.applyInstruction Executor.runProgram
  refine .bind .get fun _ => .bind .ofExcept fun _ => .bind ?_ fun t => .bind .ofExcept fun _ =>
    .bind_get fun r hr => ?_
  · refine .bind .get fun _ => .bind .ensure fun _ => .bind (.modify fun _ h => h) fun _ => ?_
    dsimp only
    split
    · exact .pure
    · exact .throw
    · exact .bind (.modify fun r h => hpoisoned r.toWorld h) fun _ => .throw
  · exact hsettled _ _ (settled_eq ex mode tx instr r.toWorld t.updatedAccounts).1 hr

theorem applyInstructions_keepsWorld {I : World → Prop}
    (hsettled : ∀ w w', OnlySettled w w' → I w → I w')
    (hpoisoned : ∀ w, I w → I { w with poisoned := true }) : ∀ instrs : List Instruction,
    Comp.Keeps (fun r : Running => I r.toWorld) (Executor.applyInstructions ex mode tx instrs)
  | [] => .pure
  | instr :: rest =>
      .bind (applyInstruction_keepsWorld hsettled hpoisoned instr)
        fun _ => applyInstructions_keepsWorld hsettled hpoisoned rest

theorem applyInstructions_keepsStored {stored : NodeState} (instrs : List Instruction) :
    Comp.Keeps (fun r : Running => SameStored stored r.state)
      (Executor.applyInstructions ex mode tx instrs) :=
  applyInstructions_keepsWorld (I := fun w => SameStored stored w.state)
    (fun _ _ hsettled h => h.trans hsettled.1) (fun _ h => h) instrs

theorem persist_failed {r : Running} (h : (Comp.exec Executor.persist r).1 ≠ .ok ()) :
    (Comp.exec Executor.persist r).2 = r := by
  unfold Executor.persist at h ⊢
  rw [Comp.exec_bind, show Comp.exec (get : Apply Running) r = (.ok r, r) from rfl] at h ⊢
  dsimp only at h ⊢
  cases hsave : r.state.saveAccountsAtomic (r.overlay.entries.map fun e => (e.1, e.2)) with
  | none => rfl
  | some state =>
    rw [hsave] at h
    exact absurd rfl h

/-- **A transaction that does not succeed leaves nothing in the database but settlements.** -/
theorem apply_failed_stored {w : World} (h : (ex.apply w tx mode).1 ≠ .ok ()) :
    SameStored w.state (ex.apply w tx mode).2.state := by
  have hloop : SameStored w.state (Comp.exec (Executor.applyInstructions ex mode tx
      tx.message.instructions) { toWorld := w }).2.state :=
    applyInstructions_keepsStored tx.message.instructions { toWorld := w } rfl
  unfold Executor.apply Executor.run at h ⊢
  rw [Comp.exec_bind] at h ⊢
  cases hexec : Comp.exec (Executor.applyInstructions ex mode tx tx.message.instructions)
      { toWorld := w } with
  | mk res r =>
    rw [hexec] at h hloop
    cases res with
    | error e => exact hloop
    | ok u =>
      simp only at h hloop ⊢
      split at h
      · rename_i hcommit
        rw [if_pos hcommit, persist_failed h]
        exact hloop
      · exact absurd rfl h

theorem persist_keeps {I : Running → Prop}
    (hsave : ∀ r state, r.state.saveAccountsAtomic (r.overlay.entries.map fun e => (e.1, e.2)) =
      some state → I r → I { r with state }) : Comp.Keeps I Executor.persist := by
  refine .bind_get fun r hr => ?_
  split
  · rename_i state hstate
    exact hsave r state hstate hr
  · exact hr

/-- **A dry run leaves nothing in the database but settlements.** -/
theorem apply_preflight_stored (w : World) :
    SameStored w.state (ex.apply w tx .preflight).2.state := by
  have hkeeps : Comp.Keeps (fun r : Running => SameStored w.state r.state)
      (Executor.run ex tx .preflight) := by
    refine .bind (applyInstructions_keepsStored tx.message.instructions) fun _ => ?_
    rw [if_neg (by simp)]
    exact .pure
  exact hkeeps { toWorld := w } rfl

/-- **However a transaction ends, the chain is as it was.** -/
theorem apply_sameChain (w : World) :
    NodeState.SameChain w.state (ex.apply w tx mode).2.state := by
  have hkeeps : Comp.Keeps (fun r : Running => NodeState.SameChain w.state r.state)
      (Executor.run ex tx mode) := by
    refine .bind (fun r hr => ?_) fun _ => ?_
    · exact hr.trans (applyInstructions_keepsStored tx.message.instructions r rfl).sameChain
    · split
      · exact persist_keeps fun r state hsave hr =>
          hr.trans (NodeState.saveAccountsAtomic_sameChain hsave)
      · exact .pure
  exact hkeeps { toWorld := w } rfl

theorem apply_txStatus (w : World) :
    (ex.apply w tx mode).2.state.txStatus = w.state.txStatus := by
  rw [show _ = _ from apply_sameChain w]

/-- A poisoned lock stays poisoned. -/
theorem apply_poisoned {w : World} (h : w.poisoned = true) :
    (ex.apply w tx mode).2.poisoned = true := by
  have hkeeps : Comp.Keeps (fun r : Running => r.poisoned = true) (Executor.run ex tx mode) := by
    refine .bind ?_ fun _ => ?_
    · exact applyInstructions_keepsWorld (I := fun w => w.poisoned = true)
        (fun _ _ hsettled h => hsettled.2.trans h) (fun _ _ => rfl) _
    · split
      · exact persist_keeps fun _ _ _ hr => hr
      · exact .pure
  exact hkeeps { toWorld := w } h

/-- And where it is poisoned, no program runs. -/
theorem applyInstruction_unpoisoned {instr : Instruction} {r r' : Running}
    (h : Comp.Returns (Executor.applyInstruction ex mode tx instr) r () r') :
    r.poisoned = false := by
  unfold Executor.applyInstruction at h
  obtain ⟨_, _, hget, h₁⟩ := Comp.returns_bind.mp h
  obtain ⟨rfl, rfl⟩ := Comp.returns_get.mp hget
  obtain ⟨_, _, hguard, h₂⟩ := Comp.returns_bind.mp h₁
  obtain ⟨-, rfl⟩ := Comp.returns_ofExcept.mp hguard
  obtain ⟨t, _, hrun, -⟩ := Comp.returns_bind.mp h₂
  exact (Executor.runProgram_returns hrun).1

end

/-! ## Slots that name one key -/

/-- Slot `i` is about the key `k`. -/
def Names (instr : Instruction) (i : Nat) (k : Pubkey) : Prop :=
  (instr.accounts[i]?).map (·.pubkey) = some k

/-- And no slot after it is. -/
def NamesLast (instr : Instruction) (i : Nat) (k : Pubkey) : Prop :=
  Names instr i k ∧ ∀ j, i < j → ¬ Names instr j k

/-- Every record that came out of a writable slot is the one carried forward. -/
def CarriesWritable (e : Executed) : Prop :=
  ∀ (i : Nat) (am : AccountMeta), e.instr.accounts[i]? = some am → am.isWritable = true →
    e.overlay.lookup am.pubkey = (e.updated[i]?).map (·.toStored)

/-- And is stored in the end, unless a later instruction names its key. -/
def StoresWritable (s : NodeState) (e : Executed) (post : List Executed) : Prop :=
  ∀ (i : Nat) (am : AccountMeta), e.instr.accounts[i]? = some am → am.isWritable = true →
    (∀ e' ∈ post, am.pubkey ∉ e'.instr.accounts.map (·.pubkey)) →
    s.loadAccount am.pubkey = (e.updated[i]?).map (·.toStored)

/-- Where the key of a writable slot is named again, the program leaves the same record in the
    last slot that names it. -/
def LaterAgree (instr : Instruction) (updated : List AccountInfo) : Prop :=
  ∀ (i j : Nat) (am : AccountMeta), instr.accounts[i]? = some am → am.isWritable = true → i < j →
    NamesLast instr j am.pubkey →
    (updated[j]?).map (·.toStored) = (updated[i]?).map (·.toStored)

theorem laterAgree_of_nodup {instr : Instruction} (updated : List AccountInfo)
    (h : (instr.accounts.map (·.pubkey)).Nodup) : LaterAgree instr updated := by
  intro i j am hi _ hlt hlast
  have hsame : (instr.accounts.map (·.pubkey))[i]? = (instr.accounts.map (·.pubkey))[j]? := by
    rw [List.getElem?_map, List.getElem?_map, hi, hlast.1]
    rfl
  obtain ⟨hbound, -⟩ := List.getElem?_eq_some_iff.mp hi
  have hij := (List.getElem?_inj (by simpa using hbound) h).mp hsame
  omega

/-- A key that is named has a slot that names it last. -/
theorem exists_namesLast {instr : Instruction} {k : Pubkey} :
    ∀ {i : Nat}, Names instr i k → ∃ j, i ≤ j ∧ NamesLast instr j k := by
  intro i
  induction hn : instr.accounts.length - i using Nat.strong_induction_on generalizing i with
  | _ n ih =>
    intro hi
    by_cases hlater : ∃ j, i < j ∧ Names instr j k
    · obtain ⟨j, hlt, hj⟩ := hlater
      have hbound : i < instr.accounts.length := by
        obtain ⟨am, ham, -⟩ := Option.map_eq_some_iff.mp hi
        exact (List.getElem?_eq_some_iff.mp ham).1
      obtain ⟨l, hle, hl⟩ := ih (instr.accounts.length - j) (by omega) rfl hj
      exact ⟨l, by omega, hl⟩
    · refine ⟨i, Nat.le_refl i, hi, fun j hlt hj => hlater ⟨j, hlt, hj⟩⟩

/-- What is recorded of an instruction that ran. -/
structure Ran (ex : Executor) (tx : RuntimeTransaction) (e : Executed) : Prop where
  output : output ex .commit tx e.instr e.accounts = some e.updated
  keys : e.updated.map (·.key) = e.instr.accounts.map (·.pubkey)
  overlay : ∃ before, e.overlay = Executor.carry before e.updated

/-- Every instruction that ran is on record, and what it carried is still there for the keys no
    later one named. -/
def History (ex : Executor) (tx : RuntimeTransaction) (r : Running) : Prop :=
  ∀ pre e post, r.executed = pre ++ e :: post → Ran ex tx e ∧
    ∀ k, (∀ e' ∈ post, k ∉ e'.instr.accounts.map (·.pubkey)) →
      r.overlay.lookup k = e.overlay.lookup k

section
variable {ex : Executor} {tx : RuntimeTransaction}

theorem lookup_carry (before : AList fun _ : Pubkey => StoredAccount) (updated : List AccountInfo)
    (k : Pubkey) : (Executor.carry before updated).lookup k =
      ((Table.layered before ∅).write (entries updated)).lookup k := by
  rw [← layered_carry, Table.lookup_layered]
  simp

@[simp] theorem accountAt_key (t : Accounts) (programId : Pubkey) (am : AccountMeta) :
    (accountAt t programId am).key = am.pubkey := by
  unfold accountAt
  cases t.lookup am.pubkey <;> rfl

theorem accountsOf_keys (t : Accounts) (instr : Instruction) :
    (accountsOf t instr).map (·.key) = instr.accounts.map (·.pubkey) := by
  unfold accountsOf
  rw [List.map_map]
  exact List.map_congr_left fun am _ => accountAt_key t instr.programId am

theorem history_step (instr : Instruction) (r r' : Running) (hr : History ex tx r)
    (h : Comp.Returns (Executor.applyInstruction ex .commit tx instr) r () r') :
    History ex tx r' := by
  obtain ⟨updated, -, hout, hoverlay, hexecuted, -⟩ := applyInstruction_tableStep h
  intro pre e post hsplit
  rw [hexecuted] at hsplit
  rcases List.eq_nil_or_concat post with rfl | ⟨post', e', rfl⟩
  · -- The instruction that just ran.
    obtain ⟨-, he⟩ := List.append_inj' hsplit rfl
    simp only [List.cons.injEq, and_true] at he
    subst he
    refine ⟨⟨hout, ?_, r.overlay, rfl⟩, fun k _ => by rw [hoverlay]⟩
    rw [output_keys hout, accountsOf_keys]
  · -- An earlier one, with the one that just ran after it.
    rw [List.concat_eq_append, ← List.cons_append, ← List.append_assoc] at hsplit
    obtain ⟨hbefore, he⟩ := List.append_inj' hsplit rfl
    simp only [List.cons.injEq, and_true] at he
    obtain ⟨hran, hlook⟩ := hr pre e post' hbefore
    refine ⟨hran, fun k hk => ?_⟩
    have hnot : k ∉ (entries updated).map Prod.fst := by
      have hkeys : (entries updated).map Prod.fst = instr.accounts.map (·.pubkey) := by
        rw [entries_keys, output_keys hout, accountsOf_keys]
      have hlast := hk e' (by simp)
      rwa [← he, ← hkeys] at hlast
    rw [hoverlay, lookup_carry, Table.lookup_write_of_notMem hnot, Table.lookup_layered,
      ← hlook k fun e' he' => hk e' (by simp [he'])]
    simp

/-- The slot that names a key last is the one whose record is carried. -/
theorem Ran.lookup_last {e : Executed} (h : Ran ex tx e) {j : Nat} {k : Pubkey}
    (hlast : NamesLast e.instr j k) :
    e.overlay.lookup k = (e.updated[j]?).map (·.toStored) := by
  obtain ⟨before, hoverlay⟩ := h.overlay
  have hnames : ∀ l, ((entries e.updated)[l]?).map Prod.fst = some k ↔ Names e.instr l k := by
    intro l
    have hkey : ((e.updated.map (·.key))[l]?) = ((e.instr.accounts.map (·.pubkey))[l]?) := by
      rw [h.keys]
    rw [List.getElem?_map, List.getElem?_map] at hkey
    unfold Names entries
    rw [← hkey, List.getElem?_map, Option.map_map]
    rfl
  obtain ⟨e', he', hk⟩ := Option.map_eq_some_iff.mp ((hnames j).mpr hlast.1)
  obtain ⟨a, ha, rfl⟩ := Option.map_eq_some_iff.mp (by simpa [entries] using he')
  rw [hoverlay, lookup_carry, ha, Option.map_some]
  refine Table.lookup_write_of_last (i := j) ?_ fun l hl hl' => hlast.2 l hl ((hnames l).mp hl')
  rw [he', ← hk]

theorem Ran.slot {e : Executed} (h : Ran ex tx e) {i : Nat} {am : AccountMeta}
    (hi : e.instr.accounts[i]? = some am) : ∃ a, e.updated[i]? = some a := by
  have hlen := congrArg List.length h.keys
  rw [List.length_map, List.length_map] at hlen
  obtain ⟨hlt, -⟩ := List.getElem?_eq_some_iff.mp hi
  exact ⟨_, List.getElem?_eq_getElem (hlen ▸ hlt)⟩

/-- **What is carried, and when.** For every transaction that commits, in any state: each of its
    instructions carried forward, and stored, what its program left in its writable slots if and
    only if the program left the same record in the last slot that names the key again. Where no
    key is named again there is nothing to agree on (`laterAgree_of_nodup`). -/
theorem writable_carried (ex : Executor) (w : World) (tx : RuntimeTransaction)
    (hok : (ex.apply w tx .commit).1 = .ok ()) :
    (ex.apply w tx .commit).2.executed.map (·.instr) = tx.message.instructions ∧
    ∀ pre e post, (ex.apply w tx .commit).2.executed = pre ++ e :: post →
      output ex .commit tx e.instr e.accounts = some e.updated ∧
      (CarriesWritable e ∧ StoresWritable (ex.apply w tx .commit).2.state e post ↔
        LaterAgree e.instr e.updated) := by
  obtain ⟨m, state, hloop, hsave, heq⟩ := Executor.apply_commit_ok hok
  rw [heq]
  refine ⟨by simpa using applyInstructions_executed hloop, fun pre e post hsplit => ?_⟩
  have hhist : History ex tx m := Executor.applyInstructions_invariant history_step
    (fun pre e post hnil => absurd hnil (by simp)) hloop
  obtain ⟨hran, hlook⟩ := hhist pre e post hsplit
  refine ⟨hran.output, ?_, ?_⟩
  · rintro ⟨hcarries, -⟩ i j am hi hw hlt hlast
    rw [← hran.lookup_last hlast, hcarries i am hi hw]
  · intro hagree
    have hcarries : CarriesWritable e := by
      intro i am hi hw
      obtain ⟨j, hle, hlast⟩ := exists_namesLast (show Names e.instr i am.pubkey by
        simp [Names, hi])
      rw [hran.lookup_last hlast]
      rcases Nat.lt_or_eq_of_le hle with hlt | rfl
      · exact hagree i j am hi hw hlt hlast
      · rfl
    refine ⟨hcarries, fun i am hi hw hpost => ?_⟩
    have hlook' := hcarries i am hi hw
    rw [← hlook am.pubkey hpost] at hlook'
    obtain ⟨a, ha⟩ := hran.slot hi
    rw [ha] at hlook' ⊢
    rw [NodeState.loadAccount, NodeState.saveAccountsAtomic_accounts hsave, Table.write_overlay,
      Table.lookup_layered, hlook']
    rfl

end

/-- A transfer of 250 that lists some accounts after the two it is about. -/
def transferListing (extra : List AccountMeta) : RuntimeTransaction :=
  signedBy [.repeated 1] [.withArgs ProgramIds.systemProgram
    (.writable (.repeated 1) true :: .writable (.repeated 2) false :: extra)
    (System.SystemInstruction.transfer 250)]

/-- Its commit on a node where the sender holds 1000. -/
def commitListing (extra : List AccountMeta) : Except ExecFault Unit × Running :=
  Executor.apply (.bare .dev) (.funded [(.repeated 1, 1000)]) (transferListing extra) .commit

theorem writable_carried_transfer : (commitListing []).1 = .ok () ∧
    ∀ pre e post, (commitListing []).2.executed = pre ++ e :: post →
      CarriesWritable e ∧ StoresWritable (commitListing []).2.state e post := by
  have hok : (commitListing []).1 = .ok () := by decide +kernel
  unfold commitListing at hok ⊢
  obtain ⟨hall, hrest⟩ := writable_carried (.bare .dev) (.funded [(.repeated 1, 1000)])
    (transferListing []) hok
  refine ⟨hok, fun pre e post hsplit => (hrest pre e post hsplit).2.mpr ?_⟩
  have hmem : e.instr ∈ (transferListing []).message.instructions := by
    rw [← hall]
    exact List.mem_map.mpr ⟨e, hsplit ▸ by simp, rfl⟩
  refine laterAgree_of_nodup _ ?_
  rw [List.mem_singleton.mp hmem]
  decide

/-- With the sender once more at the end, read-only, it commits as well, and the stale copy
    undoes the debit. -/
theorem stale_copy_restores :
    (commitListing [.readonly (.repeated 1) false]).1 = .ok () ∧
      (commitListing [.readonly (.repeated 1) false]).2.state.loadAccount (.repeated 1) =
        some (wallet 1000) ∧
      (commitListing [.readonly (.repeated 1) false]).2.state.loadAccount (.repeated 2) =
        some (wallet 250) ∧
      ∃ e ∈ (commitListing [.readonly (.repeated 1) false]).2.executed, ¬ CarriesWritable e := by
  have hrun : (commitListing [.readonly (.repeated 1) false]).1 = .ok () ∧
      (commitListing [.readonly (.repeated 1) false]).2.state.loadAccount (.repeated 1) =
        some (wallet 1000) ∧
      (commitListing [.readonly (.repeated 1) false]).2.state.loadAccount (.repeated 2) =
        some (wallet 250) ∧
      ∃ e ∈ (commitListing [.readonly (.repeated 1) false]).2.executed,
        e.instr.accounts[0]? = some (.writable (.repeated 1) true) ∧
          e.overlay.lookup (.repeated 1) ≠ (e.updated[0]?).map (·.toStored) := by
    decide +kernel
  obtain ⟨hok, hsender, hreceiver, e, he, hfirst, hstale⟩ := hrun
  exact ⟨hok, hsender, hreceiver, e, he, fun h => hstale (h 0 _ hfirst rfl)⟩

end Proof
end Himsha
