import Himsha.Proof.Replay

/-!
# What a replica holds

Three statements about a follower, all read off its plan: it gets the primary's table, it accepts
nothing it did not recompute, and where it fails half way what it saved stays. The last is why a
block can take effect more than once, and `Orderly` is when it cannot.
-/

set_option autoImplicit false

namespace Himsha
namespace Proof

open Himsha.Lib Himsha.Runtime Himsha.Programs Himsha.Vm Himsha.Node

/-! ## The primary's instructions as steps of a replica -/

section
variable {m : Machine} {t t' : Accounts}

theorem tableStep_eq (ex : Executor) (tx : RuntimeTransaction) (t : Accounts)
    (instr : Instruction) :
    tableStep ex .commit tx t instr = replayStep ex.machine t (tx, instr) := by
  unfold tableStep replayStep demand output
  cases rejectDuplicateWritable (accountsOf t instr) with
  | error e => rw [if_neg (by simp)]
  | ok u =>
    rw [if_pos rfl]
    dsimp only
    cases executeProgram ex.machine instr.programId
        ⟨accountsOf t instr, instr.data, tx.message.timestamp⟩ [] with
    | ok transition => rfl
    | error e => cases e <;> rfl

/-- A replay that gets through is a plan that ends well. -/
theorem replay_iff (ps : List (RuntimeTransaction × Instruction)) : ∀ t : Accounts,
    Lib.run (replayStep m) t ps = some t' ↔
      (plan m t ps).2 = .ok () ∧ t.write (plan m t ps).1 = t' := by
  induction ps with
  | nil =>
    intro t
    simp [plan]
  | cons p rest ih =>
    intro t
    rw [Lib.run, replayStep, plan]
    cases demand m t p with
    | error e => simp
    | ok es =>
      dsimp only
      rw [Option.bind_some, ih, Table.write_append]

theorem run_map {ex : Executor} {tx : RuntimeTransaction} {instrs : List Instruction} :
    ∀ t : Accounts, Lib.run (tableStep ex .commit tx) t instrs =
      Lib.run (replayStep ex.machine) t (instrs.map fun instr => (tx, instr)) := by
  induction instrs with
  | nil => exact fun _ => rfl
  | cons instr rest ih =>
    intro t
    rw [List.map_cons, Lib.run, Lib.run, tableStep_eq]
    congr 1
    funext t'
    exact ih t'

/-- A transaction that commits can be replayed. -/
theorem apply_replays {ex : Executor} {w : World} {tx : RuntimeTransaction}
    (h : (ex.apply w tx .commit).1 = .ok ()) :
    Lib.run (replayStep ex.machine) w.state.accounts
        (tx.message.instructions.map fun instr => (tx, instr)) =
      some (ex.apply w tx .commit).2.state.accounts := by
  rw [← run_map]
  exact apply_commit_run h

end

/-! ## A batch on the primary -/

/-- The instructions of a list of transactions, in the order they run. -/
def instructionsIn (txs : List RuntimeTransaction) : List (RuntimeTransaction × Instruction) :=
  txs.flatMap fun tx => tx.message.instructions.map fun instr => (tx, instr)

section
variable {ex : Executor} {slot : Nat}

theorem markFailed_accounts (s : NodeState) (txid : Blob 32) (slot : Nat) (error : String) :
    (s.markFailedUnlessSucceeded txid slot error).accounts = s.accounts := by
  unfold NodeState.markFailedUnlessSucceeded
  split <;> rfl

/-- **A batch leaves what its included transactions replay to.** -/
theorem applyBatch_replays {batch included : List RuntimeTransaction} : ∀ {w w' : World},
    applyBatch ex slot w batch = some (w', included) →
      Lib.run (replayStep ex.machine) w.state.accounts (instructionsIn included) =
        some w'.state.accounts := by
  induction batch generalizing included with
  | nil =>
    intro w w' h
    simp only [applyBatch, Option.some.injEq, Prod.mk.injEq] at h
    obtain ⟨rfl, rfl⟩ := h
    rfl
  | cons tx rest ih =>
    intro w w' h
    unfold applyBatch at h
    cases happly : ex.apply w tx .commit with
    | mk res r =>
      rw [happly] at h
      cases res with
      | ok u =>
        dsimp only at h
        obtain ⟨⟨w₁, included₁⟩, hrest, heq⟩ := Option.map_eq_some_iff.mp h
        simp only [Prod.mk.injEq] at heq
        obtain ⟨rfl, rfl⟩ := heq
        have hok : (ex.apply w tx .commit).1 = .ok () := by rw [happly]
        have hfirst := apply_replays hok
        rw [happly] at hfirst
        exact run_trans hfirst (ih hrest)
      | error e =>
        cases e with
        | panic => simp at h
        | error e =>
          -- What failed left the table alone.
          have hfailed : (ex.apply w tx .commit).1 ≠ .ok () := by
            rw [happly]
            simp
          have hsame := (apply_failed_stored hfailed).accounts
          rw [happly] at hsame
          have hrest := ih h
          dsimp only at hrest hsame
          rwa [markFailed_accounts, hsame] at hrest

/-- Where the lock is poisoned, only what has no instructions commits. -/
theorem applyBatch_locked {batch included : List RuntimeTransaction} : ∀ {w w' : World},
    w.poisoned = true → applyBatch ex slot w batch = some (w', included) →
      instructionsIn included = [] := by
  induction batch generalizing included with
  | nil =>
    intro w w' _ h
    simp only [applyBatch, Option.some.injEq, Prod.mk.injEq] at h
    rw [← h.2]
    rfl
  | cons tx rest ih =>
    intro w w' hlock h
    unfold applyBatch at h
    have hlock' : (ex.apply w tx .commit).2.poisoned = true := apply_poisoned hlock
    cases happly : ex.apply w tx .commit with
    | mk res r =>
      rw [happly] at h hlock'
      cases res with
      | ok u =>
        dsimp only at h
        obtain ⟨⟨w₁, included₁⟩, hrest, heq⟩ := Option.map_eq_some_iff.mp h
        simp only [Prod.mk.injEq] at heq
        obtain ⟨rfl, rfl⟩ := heq
        have hnone : tx.message.instructions = [] := by
          have hok : (ex.apply w tx .commit).1 = .ok () := by rw [happly]
          obtain ⟨m, state, hloop, -⟩ := Executor.apply_commit_ok hok
          cases hinstrs : tx.message.instructions with
          | nil => rfl
          | cons instr rest =>
            rw [hinstrs] at hloop
            obtain ⟨_, _, hfirst, -⟩ := Comp.returns_bind.mp hloop
            have hopen := applyInstruction_unpoisoned hfirst
            rw [show _ = _ from hlock] at hopen
            simp at hopen
        have htail := ih hlock' hrest
        unfold instructionsIn at htail ⊢
        rw [List.flatMap_cons, hnone, List.map_nil, List.nil_append, htail]
      | error e =>
        cases e with
        | panic => simp at h
        | error e => exact ih (by exact hlock') h

end

/-! ## A block on a follower -/

section
variable {f : Follower}

/-- Whatever is written after the accounts, they stay. -/
theorem write_keepsAccounts {t : Accounts} (label : String) (x : Write)
    {effect : NodeState → NodeState} (h : ∀ s, (effect s).accounts = s.accounts) :
    Comp.Keeps (fun r : Replica => r.state.accounts = t) (f.write label x effect) := by
  intro r hr
  rw [write_exec]
  cases f.disk r.writes x with
  | some e => exact hr
  | none => exact (h r.state).trans hr

theorem indexTransactions_keepsAccounts {t : Accounts} (slot : Nat) :
    ∀ txs : List RuntimeTransaction,
      Comp.Keeps (fun r : Replica => r.state.accounts = t) (f.indexTransactions slot txs)
  | [] => .pure
  | tx :: rest => by
      refine .bind (fun r hr => ?_) fun _ => indexTransactions_keepsAccounts slot rest
      rw [tryWrite_exec]
      cases f.disk r.writes (.index tx.messageHash slot) with
      | some e => exact hr
      | none => exact hr

theorem advance_keepsAccounts {t : Accounts} :
    ∀ n : Nat, Comp.Keeps (fun r : Replica => r.state.accounts = t) (f.advance n)
  | 0 => .pure
  | n + 1 =>
      .bind (write_keepsAccounts "advance_slot" .advance fun _ => rfl)
        fun _ => advance_keepsAccounts n

/-- What `apply_block` does once the instructions ran. -/
def sealBlock (f : Follower) (block : Block) : Replay Unit := do
  f.write "save_block" (.block block.slot block) (·.saveBlock block.slot block)
  f.indexTransactions block.slot block.transactions
  f.advance (block.slot - (← get).state.slot)

theorem applyBlock_eq (block : Block) :
    f.applyBlock block = f.applyInstructions (Follower.instructionsOf block) >>= fun _ =>
      sealBlock f block := rfl

theorem sealBlock_keepsAccounts {t : Accounts} (block : Block) :
    Comp.Keeps (fun r : Replica => r.state.accounts = t) (sealBlock f block) :=
  .bind (write_keepsAccounts "save_block" (.block block.slot block) fun _ => rfl) fun _ =>
    .bind (indexTransactions_keepsAccounts block.slot block.transactions) fun _ =>
      .bind .get fun _ => advance_keepsAccounts _

/-- The table that a block leaves is the one its instructions leave, however it ends. -/
theorem applyBlock_accounts (block : Block) (r : Replica) :
    (Comp.exec (f.applyBlock block) r).2.state.accounts =
      (Comp.exec (f.applyInstructions (Follower.instructionsOf block)) r).2.state.accounts := by
  rw [applyBlock_eq, Comp.exec_bind]
  cases Comp.exec (f.applyInstructions (Follower.instructionsOf block)) r with
  | mk res r₁ =>
    cases res with
    | error e => rfl
    | ok u => exact sealBlock_keepsAccounts block r₁ rfl

/-- Indexing is never what stops a block, and the chain grows by nothing. -/
theorem indexTransactions_exec (slot : Nat) : ∀ (txs : List RuntimeTransaction) (r : Replica),
    (Comp.exec (f.indexTransactions slot txs) r).1 = .ok () ∧
      (Comp.exec (f.indexTransactions slot txs) r).2.state.slot = r.state.slot ∧
      (Comp.exec (f.indexTransactions slot txs) r).2.state.blocks = r.state.blocks := by
  intro txs
  induction txs with
  | nil => exact fun _ => ⟨rfl, rfl, rfl⟩
  | cons tx rest ih =>
    intro r
    rw [Follower.indexTransactions, Comp.exec_bind, tryWrite_exec]
    dsimp only
    cases f.disk r.writes (.index tx.messageHash slot) with
    | some e => exact ih _
    | none => exact ih _

/-- The slot moves on by as many rounds as succeed. -/
theorem advance_exec : ∀ (n : Nat) (r : Replica),
    (Comp.exec (f.advance n) r).2.state.blocks = r.state.blocks ∧
    ((Comp.exec (f.advance n) r).1 = .ok () ∧
        (Comp.exec (f.advance n) r).2.state.slot = r.state.slot + n ∨
      (∃ text, (Comp.exec (f.advance n) r).1 = .error (.error text)) ∧
        r.state.slot ≤ (Comp.exec (f.advance n) r).2.state.slot ∧
        (Comp.exec (f.advance n) r).2.state.slot < r.state.slot + n) := by
  intro n
  induction n with
  | zero => exact fun _ => ⟨rfl, .inl ⟨rfl, rfl⟩⟩
  | succ n ih =>
    intro r
    rw [Follower.advance, Comp.exec_bind, write_exec]
    cases f.disk r.writes .advance with
    | some e => exact ⟨rfl, .inr ⟨⟨_, rfl⟩, Nat.le_refl _, Nat.lt_add_of_pos_right (by omega)⟩⟩
    | none =>
      obtain ⟨hblocks, hend⟩ := ih { r with state := r.state.advanceSlot.2, writes := r.writes + 1 }
      have hslot : r.state.advanceSlot.2.slot = r.state.slot + 1 := rfl
      refine ⟨hblocks, ?_⟩
      dsimp only at hend ⊢
      rw [hslot] at hend
      obtain ⟨hok, hend⟩ | ⟨herr, hle, hlt⟩ := hend
      · exact .inl ⟨hok, by rw [hend]; omega⟩
      · exact .inr ⟨herr, by omega, by omega⟩

/-- **The end of a block**: it is stored under its slot and the local slot is at least that, or
    an error is returned. -/
theorem sealBlock_exec (block : Block) (r : Replica) :
    ((Comp.exec (sealBlock f block) r).1 = .ok () ∧
        (Comp.exec (sealBlock f block) r).2.state.blocks =
          r.state.blocks.insert block.slot block ∧
        (Comp.exec (sealBlock f block) r).2.state.slot = max r.state.slot block.slot) ∨
      (∃ text, (Comp.exec (sealBlock f block) r).1 = .error (.error text)) ∧
        r.state.slot ≤ (Comp.exec (sealBlock f block) r).2.state.slot ∧
        (Comp.exec (sealBlock f block) r).2.state.slot ≤ max r.state.slot (block.slot - 1) := by
  unfold sealBlock
  rw [Comp.exec_bind, write_exec]
  cases f.disk r.writes (.block block.slot block) with
  | some e => exact .inr ⟨⟨_, rfl⟩, Nat.le_refl _, Nat.le_max_left _ _⟩
  | none =>
    dsimp only
    generalize hr₁ : ({ r with
      state := r.state.saveBlock block.slot block, writes := r.writes + 1 } : Replica) = r₁
    have hslot₁ : r₁.state.slot = r.state.slot := by rw [← hr₁]; rfl
    have hblocks₁ : r₁.state.blocks = r.state.blocks.insert block.slot block := by
      rw [← hr₁]
      rfl
    rw [Comp.exec_bind]
    obtain ⟨hok₂, hslot₂, hblocks₂⟩ :=
      indexTransactions_exec (f := f) block.slot block.transactions r₁
    cases hx : Comp.exec (f.indexTransactions block.slot block.transactions) r₁ with
    | mk res r₂ =>
      rw [hx] at hok₂ hslot₂ hblocks₂
      dsimp only at hok₂ hslot₂ hblocks₂
      subst hok₂
      have htail : Comp.exec (do f.advance (block.slot - (← get).state.slot)) r₂ =
          Comp.exec (f.advance (block.slot - r₂.state.slot)) r₂ := rfl
      dsimp only
      rw [htail]
      obtain ⟨hblocks₃, hend⟩ := advance_exec (f := f) (block.slot - r₂.state.slot) r₂
      obtain ⟨hok, hslot₃⟩ | ⟨herr, hle, hlt⟩ := hend
      · refine .inl ⟨hok, hblocks₃.trans (hblocks₂.trans hblocks₁), hslot₃.trans ?_⟩
        omega
      · exact .inr ⟨herr, by omega, by omega⟩

/-- **What a follower accepts.** Where `apply_block` returns, every instruction got through the
    guard and through re-execution on the replica's own accounts, the table is what that leaves,
    and the slot is at least the block's. -/
theorem applyBlock_returns {block : Block} {r r' : Replica}
    (h : Comp.Returns (f.applyBlock block) r () r') :
    Lib.run (replayStep f.machine) r.state.accounts (Follower.instructionsOf block) =
        some r'.state.accounts ∧
      r'.state.blocks.lookup block.slot = some block ∧
      r'.state.slot = max r.state.slot block.slot := by
  rw [applyBlock_eq] at h
  obtain ⟨u, r₁, hloop, hseal⟩ := Comp.returns_bind.mp h
  have hfollows := applyInstructions_follows_of_ne_panic (f := f) (r := r)
    (Follower.instructionsOf block) (by rw [show _ = _ from hloop]; simp)
  rw [show _ = _ from hloop] at hfollows
  have hland : landed f.disk r.writes
      (plan f.machine r.state.accounts (Follower.instructionsOf block)).1 =
        (plan f.machine r.state.accounts (Follower.instructionsOf block)).1 := by
    by_contra hne
    obtain ⟨text, htext⟩ := hfollows.short hne
    simp at htext
  obtain ⟨hend, -⟩ := hfollows.complete hland
  have haccounts : r'.state.accounts = r₁.state.accounts := by
    have hkeeps := sealBlock_keepsAccounts (f := f) block r₁ rfl
    rwa [show _ = _ from hseal] at hkeeps
  have hslot := hfollows.slot
  have hexec := sealBlock_exec (f := f) block r₁
  rw [show _ = _ from hseal] at hexec
  obtain ⟨-, hblocks, hslot'⟩ | ⟨⟨text, htext⟩, -⟩ := hexec
  · refine ⟨(replay_iff _ _).mpr ⟨hend.symm, ?_⟩, ?_, ?_⟩
    · rw [haccounts, hfollows.accounts, hland]
    · rw [hblocks, Finmap.lookup_insert]
    · rw [hslot', hslot]
  · simp at htext

/-! ## Primary and follower -/

section Sound
variable (hdisk : f.disk = .sound)
include hdisk

theorem advance_sound : ∀ (n : Nat) (r : Replica), (Comp.exec (f.advance n) r).1 = .ok () := by
  intro n
  induction n with
  | zero => exact fun _ => rfl
  | succ n ih =>
    intro r
    rw [Follower.advance, Comp.exec_bind, write_exec, hdisk]
    exact ih _

theorem sealBlock_sound (block : Block) (r : Replica) :
    (Comp.exec (sealBlock f block) r).1 = .ok () := by
  unfold sealBlock
  rw [Comp.exec_bind, write_exec, hdisk]
  dsimp only [Disk.sound]
  rw [Comp.exec_bind]
  obtain ⟨hok, -⟩ := indexTransactions_exec (f := f) block.slot block.transactions
    { r with state := r.state.saveBlock block.slot block, writes := r.writes + 1 }
  cases hx : Comp.exec (f.indexTransactions block.slot block.transactions)
      { r with state := r.state.saveBlock block.slot block, writes := r.writes + 1 } with
  | mk res r₂ =>
    rw [hx] at hok
    dsimp only at hok
    subst hok
    exact advance_sound hdisk _ r₂

/-- A replay that gets through is one a follower gets through. -/
theorem applyInstructions_of_replay {ps : List (RuntimeTransaction × Instruction)} {r : Replica}
    {t' : Accounts} (hlock : r.poisoned = false)
    (h : Lib.run (replayStep f.machine) r.state.accounts ps = some t') :
    ∃ r', Comp.Returns (f.applyInstructions ps) r () r' ∧ r'.state.accounts = t' := by
  obtain ⟨hend, htable⟩ := (replay_iff ps _).mp h
  have hfollows := applyInstructions_follows (f := f) ps r hlock
  have hland : landed f.disk r.writes (plan f.machine r.state.accounts ps).1 = _ :=
    hdisk ▸ landed_sound _ _
  obtain ⟨hok, -⟩ := hfollows.complete hland
  cases hx : Comp.exec (f.applyInstructions ps) r with
  | mk res r' =>
    rw [hx] at hfollows hok
    refine ⟨r', ?_, hfollows.accounts.trans (by rw [hland, htable])⟩
    rw [Comp.Returns, hx, show res = _ from hok, hend]

end Sound

end

/-- **A follower gets the primary's table.** Of any batch of transactions, on a follower with the
    primary's programs, accounts and lock, whose writes succeed: the block of those that committed
    is accepted and leaves what the primary holds. That is so instruction by instruction, for what
    the primary has in its overlay and the follower in its database, and for the two ways to
    clear settlements. -/
theorem replication_agrees (ex : Executor) (f : Follower) (hmachine : f.machine = ex.machine)
    (hdisk : f.disk = .sound) :
    (∀ (w w' : World) (r : Replica) (slot : Nat) (batch : List RuntimeTransaction)
        (block : Block), r.state.accounts = w.state.accounts → r.poisoned = w.poisoned →
      applyBatch ex slot w batch = some (w', block.transactions) →
      (Comp.exec (f.applyBlock block) r).1 = .ok () ∧
        (Comp.exec (f.applyBlock block) r).2.state.accounts = w'.state.accounts) ∧
    (∀ (w : World) (r : Replica) (tx : RuntimeTransaction) (instrs : List Instruction)
        (m : Running), r.state.accounts = w.state.accounts → r.poisoned = w.poisoned →
      Comp.Returns (ex.applyInstructions .commit tx instrs) { toWorld := w } () m →
      ∃ r', Comp.Returns (f.applyInstructions (instrs.map fun instr => (tx, instr))) r () r' ∧
        r'.state.accounts = current m) ∧
    ∀ (o : Outside) (txid : Blob 32) (w : World) (accounts : List AccountInfo),
      (settleLending o txid w accounts).2 = drainLending accounts := by
  refine ⟨?_, ?_, fun o txid w accounts => (settleLending_eq o txid accounts w).2⟩
  · intro w w' r slot batch block htable hlock hbatch
    have hreplay := applyBatch_replays hbatch
    rw [← hmachine, ← htable] at hreplay
    obtain ⟨r', hr', haccounts⟩ : ∃ r', Comp.Returns
        (f.applyInstructions (Follower.instructionsOf block)) r () r' ∧
          r'.state.accounts = w'.state.accounts := by
      cases hpoisoned : r.poisoned with
      | false => exact applyInstructions_of_replay hdisk hpoisoned hreplay
      | true =>
        have hnone : Follower.instructionsOf block = [] :=
          applyBatch_locked (hlock.symm.trans hpoisoned) hbatch
        rw [show instructionsIn block.transactions = [] from hnone, run_nil,
          Option.some.injEq] at hreplay
        exact ⟨r, by rw [hnone]; rfl, hreplay⟩
    refine ⟨?_, ?_⟩
    · rw [applyBlock_eq, Comp.exec_bind, show _ = _ from hr']
      exact sealBlock_sound hdisk block r'
    · rw [applyBlock_accounts, show _ = _ from hr']
      exact haccounts
  · intro w r tx instrs m htable hlock hloop
    have hrun := applyInstructions_run hloop
    change Lib.run _ (Table.layered ∅ w.state.accounts) _ = _ at hrun
    rw [Table.layered_empty, run_map, ← hmachine, ← htable] at hrun
    cases hpoisoned : r.poisoned with
    | false => exact applyInstructions_of_replay hdisk hpoisoned hrun
    | true =>
      -- With the lock poisoned there can be no instruction.
      cases instrs with
      | nil =>
        rw [List.map_nil, run_nil, Option.some.injEq] at hrun
        exact ⟨r, rfl, hrun⟩
      | cons instr rest =>
        obtain ⟨_, _, hfirst, -⟩ := Comp.returns_bind.mp hloop
        have hopen := applyInstruction_unpoisoned hfirst
        rw [show w.poisoned = true from hlock.symm.trans hpoisoned] at hopen
        simp at hopen

/-- A payment of more than there is. -/
def overdraft : RuntimeTransaction :=
  signedBy [.repeated 1] [.withArgs ProgramIds.systemProgram
    [.writable (.repeated 1) true, .writable (.repeated 2) false]
    (System.SystemInstruction.transfer 5000)]

/-- A replica of a fresh node with some wallets. -/
def replicaOf (balances : List (Pubkey × UInt64)) : Replica where
  state := (World.funded balances).state

/-- A follower with the built-ins only, on a sound disk. -/
def bareFollower : Follower := ⟨(Executor.bare .dev).machine, .sound⟩

theorem replication_agrees_transfer : ∃ w' : World,
    applyBatch (.bare .dev) 1 (.funded [(.repeated 1, 1000)]) [overdraft, transferListing []] =
        some (w', [transferListing []]) ∧
      (Comp.exec (bareFollower.applyBlock (.newWithRoot 1 0 [transferListing []] 0 (.zero 32)))
        (replicaOf [(.repeated 1, 1000)])).2.state.accounts = w'.state.accounts := by
  have hbatch : (applyBatch (.bare .dev) 1 (.funded [(.repeated 1, 1000)])
      [overdraft, transferListing []]).map Prod.snd = some [transferListing []] := by
    decide +kernel
  obtain ⟨⟨w', included⟩, hsome, rfl⟩ := Option.map_eq_some_iff.mp hbatch
  refine ⟨w', hsome, ?_⟩
  exact ((replication_agrees (.bare .dev) bareFollower rfl rfl).1 _ w' _ 1 _
    (.newWithRoot 1 0 [transferListing []] 0 (.zero 32)) rfl rfl hsome).2

/-! ## What acceptance says -/

/-- The table `t'` comes out of `t` by re-execution: every instruction passes the duplicate
    guard, its program returns on the accounts of the table so far, and its receipt verifies. -/
inductive Reexecuted (m : Machine) :
    Accounts → List (RuntimeTransaction × Instruction) → Accounts → Prop where
  | done (t : Accounts) : Reexecuted m t [] t
  | step {t t' : Accounts} {tx : RuntimeTransaction} {instr : Instruction}
      {rest : List (RuntimeTransaction × Instruction)} {transition : StateTransition}
      (guard : rejectDuplicateWritable (accountsOf t instr) = .ok ())
      (returned : executeProgram m instr.programId
        ⟨accountsOf t instr, instr.data, tx.message.timestamp⟩ [] = .ok transition)
      (receipt : transition.verify = .ok ())
      (tail : Reexecuted m
        (t.write (entries (kept .commit instr transition.updatedAccounts))) rest t') :
      Reexecuted m t ((tx, instr) :: rest) t'

theorem reexecuted_of_replay {m : Machine} {t' : Accounts}
    (ps : List (RuntimeTransaction × Instruction)) : ∀ t : Accounts,
    Lib.run (replayStep m) t ps = some t' → Reexecuted m t ps t' := by
  induction ps with
  | nil =>
    intro t h
    simp only [run_nil, Option.some.injEq] at h
    subst h
    exact .done t
  | cons p rest ih =>
    intro t h
    obtain ⟨tx, instr⟩ := p
    obtain ⟨t₁, hstep, hrest⟩ := run_cons h
    unfold replayStep demand at hstep
    cases hguard : rejectDuplicateWritable (accountsOf t instr) with
    | error e => simp [hguard] at hstep
    | ok u =>
      cases hexec : executeProgram m instr.programId
          ⟨accountsOf t instr, instr.data, tx.message.timestamp⟩ [] with
      | error e => cases e <;> simp [hguard, hexec] at hstep
      | ok transition =>
        simp only [hguard, hexec, Option.some.injEq] at hstep
        subst hstep
        exact .step hguard hexec (executeProgram_verify hexec) (ih _ hrest)

/-- **A follower accepts only what it recomputed.** Where `apply_block` returns, from any local
    state and for any block, the account table is what re-executing the block on the replica's own
    accounts gives, the block is stored and the local slot has reached it. A state root that
    differs is reported and nothing else: on a disk that works the block is accepted with any. -/
theorem acceptance_recomputes (f : Follower) (r : Replica) (block : Block)
    (hok : (Comp.exec (f.applyBlock block) r).1 = .ok ()) :
    let r' := (Comp.exec (f.applyBlock block) r).2
    Reexecuted f.machine r.state.accounts (Follower.instructionsOf block) r'.state.accounts ∧
      r'.state.blocks.lookup block.slot = some block ∧
      r'.state.slot = max r.state.slot block.slot ∧
      ∀ root, f.disk = .sound →
        let x := Comp.exec (f.applyBlock { block with stateRoot := root }) r
        x.1 = .ok () ∧ x.2.state.accounts = r'.state.accounts := by
  intro r'
  have hreturns : Comp.Returns (f.applyBlock block) r () r' := by
    rw [Comp.Returns, ← hok]
  obtain ⟨hreplay, hblocks, hslot⟩ := applyBlock_returns hreturns
  refine ⟨reexecuted_of_replay _ _ hreplay, hblocks, hslot, fun root hdisk => ?_⟩
  obtain ⟨u, r₁, hloop, -⟩ := Comp.returns_bind.mp hreturns
  have hloop' : Comp.Returns (f.applyInstructions
      (Follower.instructionsOf { block with stateRoot := root })) r u r₁ := hloop
  refine ⟨?_, ?_⟩
  · rw [applyBlock_eq, Comp.exec_bind, show _ = _ from hloop']
    exact sealBlock_sound hdisk _ r₁
  · change (Comp.exec (f.applyBlock { block with stateRoot := root }) r).2.state.accounts =
      (Comp.exec (f.applyBlock block) r).2.state.accounts
    rw [applyBlock_accounts, applyBlock_accounts]
    rfl

theorem acceptance_recomputes_transfer :
    (Comp.exec (bareFollower.applyBlock (.newWithRoot 1 0 [transferListing []] 0 (.zero 32)))
      (replicaOf [(.repeated 1, 1000)])).1 = .ok () ∧
    (Comp.exec (bareFollower.applyBlock (.newWithRoot 1 0 [transferListing []] 0 (.zero 32)))
      (replicaOf [(.repeated 1, 1000)])).2.state.slot = 1 := by
  have hok : (Comp.exec (bareFollower.applyBlock
      (.newWithRoot 1 0 [transferListing []] 0 (.zero 32)))
      (replicaOf [(.repeated 1, 1000)])).1 = .ok () := by
    decide +kernel
  exact ⟨hok, (acceptance_recomputes _ _ _ hok).2.2.1⟩

theorem computeStateRoot_congr {s s' : NodeState} (h : s.accounts = s'.accounts) :
    s.computeStateRoot = s'.computeStateRoot := by
  unfold NodeState.computeStateRoot NodeState.sortedKeys
  rw [h]

/-- A block that skips ahead, with a hash of nothing and a transfer that nobody signed. -/
def forgedBlock (root : Blob 32) : Block where
  slot := 7
  parentSlot := 0
  transactions := [{ transferListing [] with signatures := [] }]
  blockhash := .zero 32
  timestamp := 0
  stateRoot := root

theorem forgedBlock_accepted : ∃ t : Accounts, ∀ root,
    (Comp.exec (bareFollower.applyBlock (forgedBlock root))
        (replicaOf [(.repeated 1, 1000)])).1 = .ok () ∧
      (Comp.exec (bareFollower.applyBlock (forgedBlock root))
        (replicaOf [(.repeated 1, 1000)])).2.state.accounts = t := by
  have hreplay : (Lib.run (replayStep bareFollower.machine)
      (replicaOf [(.repeated 1, 1000)]).state.accounts
      (instructionsIn (forgedBlock (.zero 32)).transactions)).isSome = true := by
    decide
  obtain ⟨t, ht⟩ := Option.isSome_iff_exists.mp hreplay
  refine ⟨t, fun root => ?_⟩
  obtain ⟨r', hr', haccounts⟩ := applyInstructions_of_replay (f := bareFollower) rfl rfl ht
  have hloop : Comp.Returns (bareFollower.applyInstructions
      (Follower.instructionsOf (forgedBlock root))) (replicaOf [(.repeated 1, 1000)]) () r' := hr'
  refine ⟨?_, ?_⟩
  · rw [applyBlock_eq, Comp.exec_bind, show _ = _ from hloop]
    exact sealBlock_sound rfl _ r'
  · rw [applyBlock_accounts, show _ = _ from hloop]
    exact haccounts

/-- **A forged block is accepted**: its slot is not the next one, its hash and its state root are
    not the ones that go with it, and no signature scheme accepts its transaction. -/
theorem forged_block_accepted : ∃ block : Block,
    (Comp.exec (bareFollower.applyBlock block) (replicaOf [(.repeated 1, 1000)])).1 = .ok () ∧
      (Comp.exec (bareFollower.applyBlock block)
        (replicaOf [(.repeated 1, 1000)])).2.state.slot = block.slot ∧
      block.slot ≠ (replicaOf [(.repeated 1, 1000)]).state.slot + 1 ∧
      block.blockhash ≠ (Block.newWithRoot block.slot block.parentSlot block.transactions
        block.timestamp block.stateRoot).blockhash ∧
      (∀ verify : Verifier, ∃ tx ∈ block.transactions, tx.verifySignatures verify = false) ∧
      block.stateRoot ≠ .zero 32 ∧
      (Comp.exec (bareFollower.applyBlock block)
        (replicaOf [(.repeated 1, 1000)])).2.state.computeStateRoot ≠ block.stateRoot := by
  obtain ⟨t, ht⟩ := forgedBlock_accepted
  -- Of two roots at most one is right.
  obtain ⟨root, hnonzero, hhash, hwrong⟩ : ∃ root : Blob 32, root ≠ .zero 32 ∧
      (forgedBlock root).blockhash ≠ (Block.newWithRoot 7 0 (forgedBlock root).transactions 0
        root).blockhash ∧ ({ accounts := t } : NodeState).computeStateRoot ≠ root := by
    by_cases hroot : ({ accounts := t } : NodeState).computeStateRoot = (Pubkey.repeated 1).bytes
    · refine ⟨(Pubkey.repeated 2).bytes, by decide, by decide +kernel, ?_⟩
      rw [hroot]
      decide
    · exact ⟨(Pubkey.repeated 1).bytes, by decide, by decide +kernel, hroot⟩
  obtain ⟨hok, haccounts⟩ := ht root
  refine ⟨forgedBlock root, hok, ?_, show 7 ≠ 0 + 1 by decide, hhash, ?_, hnonzero, ?_⟩
  · have hreturns : Comp.Returns (bareFollower.applyBlock (forgedBlock root))
        (replicaOf [(.repeated 1, 1000)]) () (Comp.exec (bareFollower.applyBlock
          (forgedBlock root)) (replicaOf [(.repeated 1, 1000)])).2 := by
      rw [Comp.Returns, ← hok]
    rw [(applyBlock_returns hreturns).2.2]
    exact Nat.max_eq_right (Nat.zero_le _)
  · intro verify
    exact ⟨_, List.mem_singleton_self _, rfl⟩
  · have hcongr : ∀ s : NodeState, s.accounts = t → s.computeStateRoot =
        NodeState.computeStateRoot { accounts := t } := fun _ h => computeStateRoot_congr h
    rw [hcongr _ haccounts]
    exact hwrong

end Proof
end Himsha
