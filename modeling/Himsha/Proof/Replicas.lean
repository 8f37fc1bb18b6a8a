import Himsha.Node.Network
import Himsha.Proof.ChainRoots
import Himsha.Proof.Resync

/-!
# Followers agree with the primary

A follower applies the block after the one it is at, and the blocks below that do not change any
more. So wherever the network has got to, the table of a follower is what the primary's blocks
replay to at the follower's slot. `Replicates` is that; a statement of the primary only adds blocks
above it, and a round of the follower goes up the chain block by block.

A follower holds a whole chain at any time, so it can go on as the primary. The blocks that it has
not got are gone then, and a follower that has one of them is not on the chain any more: it is
fine just if no follower was ahead of the one that took over.
-/

set_option autoImplicit false

namespace Himsha
namespace Proof

open Himsha.Lib Himsha.Runtime Himsha.Programs Himsha.Vm Himsha.Node

/-- A replica that is where the blocks of `st` lead to. -/
structure Replicates (m : Machine) (genesis : Accounts) (st : NodeState) (r : Replica) : Prop where
  table : replayTo m genesis st.blocks r.state.slot = some r.state.accounts
  blocks : ∀ k, 0 < k → k ≤ r.state.slot → r.state.blocks.lookup k = st.blocks.lookup k
  first : (r.state.blocks.lookup 0).isSome
  ledger : LedgerSound r.state
  unpoisoned : r.poisoned = false

section
variable {m : Machine} {genesis : Accounts} {blocks blocks' : Table Nat Block}

/-- **A statement of the primary** leaves a replica where the blocks lead to. -/
theorem Replicates.mono {st st' : NodeState} {r : Replica} (h : Replicates m genesis st r)
    (hext : Extends st st') : Replicates m genesis st' r where
  table := replayTo_mono hext.blocks h.table
  blocks k hpos hle := by
    obtain ⟨block, hblock⟩ := replayTo_stored h.table k hpos hle
    rw [h.blocks k hpos hle, hblock, hext.blocks k block hblock]
  first := h.first
  ledger := h.ledger
  unpoisoned := h.unpoisoned

end

/-! ## One block on a follower -/

/-- `index_transaction`, for the transactions of a block. -/
def indexAll (slot : Nat) (txs : List RuntimeTransaction) (st : NodeState) : NodeState :=
  txs.foldl (fun st tx => st.indexTransaction tx.messageHash slot) st

/-- The database when the next block has been stored and indexed, and the slot moved to it. -/
def sealedBy (block : Block) (st : NodeState) : NodeState :=
  indexAll block.slot block.transactions (st.advanceSlot.2.saveBlock block.slot block)

section
variable {slot : Nat}

theorem indexAll_advance (txs : List RuntimeTransaction) (st : NodeState) :
    (indexAll slot txs st).advanceSlot.2 = indexAll slot txs st.advanceSlot.2 := by
  induction txs generalizing st with
  | nil => rfl
  | cons tx rest ih => exact ih (st.indexTransaction tx.messageHash slot)

/-- What indexing leaves alone. -/
theorem indexAll_keeps (slot : Nat) (txs : List RuntimeTransaction) (st : NodeState) :
    (indexAll slot txs st).accounts = st.accounts ∧ (indexAll slot txs st).blocks = st.blocks ∧
      (indexAll slot txs st).slot = st.slot := by
  induction txs generalizing st with
  | nil => exact ⟨rfl, rfl, rfl⟩
  | cons tx rest ih => exact ih (st.indexTransaction tx.messageHash slot)

theorem indexAll_ledgerOk {txs : List RuntimeTransaction} {st : NodeState} (h : LedgerSound st)
    (hstored : ∀ tx ∈ txs, Stored st slot tx.messageHash) : LedgerSound (indexAll slot txs st) := by
  induction txs generalizing st with
  | nil => exact h
  | cons tx rest ih =>
    have hnext := indexTransaction_ledgerOk h (hstored tx (by simp))
    have hext := indexTransaction_extends st tx.messageHash slot
    exact ih hnext fun tx' htx' => (hstored tx' (by simp [htx'])).mono hext

/-- **A block at its place** leaves the ledger in order. -/
theorem sealedBy_ledgerOk {block : Block} {st : NodeState} (h : LedgerSound st)
    (hslot : block.slot = st.slot + 1)
    (hsealed : block = .newWithRoot block.slot (block.slot - 1) block.transactions
      block.timestamp block.stateRoot) : LedgerSound (sealedBy block st) := by
  have hfree : st.advanceSlot.2.blocks.lookup (st.slot + 1) = none := h.fresh _ (Nat.lt_succ_self _)
  rw [hslot] at hsealed
  have hsaved := saveBlock_ledgerOk (advanceSlot_ledgerOk h) hfree hsealed
  unfold sealedBy
  rw [hslot]
  exact indexAll_ledgerOk hsaved fun tx htx => ⟨block, Finmap.lookup_insert _, tx, htx, rfl⟩

end

section
variable {f : Follower} {st : NodeState}

/-- The statements before the end of a block write accounts only. -/
theorem saveAccounts_keepsChain : ∀ accounts : List AccountInfo,
    Comp.Keeps (fun r : Replica => NodeState.SameChain st r.state) (f.saveAccounts accounts)
  | [] => .pure
  | account :: rest => by
      refine .bind (fun r hr => ?_) fun _ => saveAccounts_keepsChain rest
      unfold Follower.saveAccount
      rw [write_exec]
      cases f.disk r.writes (.account account.key account.toStored) with
      | some e => exact hr
      | none => exact hr.trans (NodeState.putAccount_sameChain _ _ _)

theorem reexecute_keepsChain (tx : RuntimeTransaction) (instr : Instruction)
    (accounts : List AccountInfo) :
    Comp.Keeps (fun r : Replica => NodeState.SameChain st r.state)
      (f.reexecute tx instr accounts) := by
  unfold Follower.reexecute
  refine .bind .get fun r => .bind .ensure fun _ => ?_
  dsimp only
  split
  · exact .pure
  · exact .throw
  · exact .bind (.modify fun _ h => h) fun _ => .throw

theorem applyInstruction_keepsChain (tx : RuntimeTransaction) (instr : Instruction) :
    Comp.Keeps (fun r : Replica => NodeState.SameChain st r.state)
      (f.applyInstruction tx instr) := by
  unfold Follower.applyInstruction
  exact .bind .get fun r => .bind .ofExcept fun _ =>
    .bind (reexecute_keepsChain tx instr _) fun _ => .bind .ofExcept fun _ =>
      saveAccounts_keepsChain _

theorem applyInstructions_keepsChain : ∀ ps : List (RuntimeTransaction × Instruction),
    Comp.Keeps (fun r : Replica => NodeState.SameChain st r.state) (f.applyInstructions ps)
  | [] => .pure
  | (tx, instr) :: rest =>
      .bind (applyInstruction_keepsChain tx instr) fun _ => applyInstructions_keepsChain rest

theorem indexTransactions_sound (hdisk : f.disk = .sound) (slot : Nat) :
    ∀ (txs : List RuntimeTransaction) (r : Replica), ∃ n,
      Comp.exec (f.indexTransactions slot txs) r =
        (.ok (), { r with state := indexAll slot txs r.state, writes := n }) := by
  intro txs
  induction txs with
  | nil => exact fun r => ⟨r.writes, rfl⟩
  | cons tx rest ih =>
    intro r
    rw [Follower.indexTransactions, Comp.exec_bind, tryWrite_exec, hdisk]
    exact ih { r with
      state := r.state.indexTransaction tx.messageHash slot
      writes := r.writes + 1 }

/-- The end of the next block, on a sound disk. -/
theorem sealBlock_next (hdisk : f.disk = .sound) {block : Block} {r : Replica}
    (hnext : block.slot = r.state.slot + 1) : ∃ n,
      Comp.exec (sealBlock f block) r =
        (.ok (), { r with state := sealedBy block r.state, writes := n }) := by
  unfold sealBlock
  rw [Comp.exec_bind, write_exec, hdisk]
  dsimp only [Disk.sound]
  obtain ⟨n, hindex⟩ := indexTransactions_sound (f := f) hdisk block.slot block.transactions
    { r with state := r.state.saveBlock block.slot block, writes := r.writes + 1 }
  rw [Comp.exec_bind, hindex]
  dsimp only
  obtain ⟨-, -, hslot⟩ := indexAll_keeps block.slot block.transactions
    (r.state.saveBlock block.slot block)
  -- One round of the loop is left, as the slot is one behind.
  have hrounds : block.slot - (indexAll block.slot block.transactions
      (r.state.saveBlock block.slot block)).slot = 1 := by
    rw [hslot, hnext]
    exact Nat.add_sub_cancel_left r.state.slot 1
  refine ⟨n + 1, ?_⟩
  rw [show Comp.exec (do f.advance (block.slot - (← get).state.slot)) _ =
    Comp.exec (f.advance 1) _ from congrArg (fun k => Comp.exec (f.advance k) _) hrounds]
  rw [Follower.advance, Comp.exec_bind, write_exec, hdisk]
  dsimp only [Disk.sound]
  rw [indexAll_advance]
  rfl

/-- **A block that can be replayed is applied**, where the writes succeed. -/
theorem applyBlock_of_replay (hdisk : f.disk = .sound) {block : Block} {r : Replica} {t : Accounts}
    (hlock : r.poisoned = false) (hnext : block.slot = r.state.slot + 1)
    (hreplay : Lib.run (replayStep f.machine) r.state.accounts (Follower.instructionsOf block) =
      some t) :
    ∃ r' st₁, Comp.Returns (f.applyBlock block) r () r' ∧ r'.poisoned = false ∧
      NodeState.SameChain r.state st₁ ∧ st₁.accounts = t ∧ r'.state = sealedBy block st₁ := by
  obtain ⟨r₁, hloop, haccounts⟩ := applyInstructions_of_replay hdisk hlock hreplay
  have hfollows := applyInstructions_follows (f := f) (Follower.instructionsOf block) r hlock
  have hsame : NodeState.SameChain r.state r₁.state := by
    have hkeeps := applyInstructions_keepsChain (f := f) (Follower.instructionsOf block) r
      (show NodeState.SameChain r.state r.state from rfl)
    rwa [show _ = _ from hloop] at hkeeps
  have hpoisoned : r₁.poisoned = false := by
    rw [show _ = _ from hloop] at hfollows
    exact (hfollows.poisoned (by simp)).trans hlock
  have hslot : r₁.state.slot = r.state.slot := (SameLedger.of_chain hsame).slot
  obtain ⟨n, hseal⟩ := sealBlock_next hdisk (show block.slot = r₁.state.slot + 1 by omega)
  let r' : Replica := { r₁ with state := sealedBy block r₁.state, writes := n }
  have hreturns : Comp.Returns (f.applyBlock block) r () r' := by
    rw [applyBlock_eq]
    exact Comp.returns_bind.mpr ⟨(), r₁, hloop, hseal⟩
  exact ⟨r', r₁.state, hreturns, hpoisoned, hsame, haccounts, rfl⟩

end

/-! ## A round of a follower -/

/-- What a primary has to have stored, for its followers. -/
structure Serving (m : Machine) (genesis : Accounts) (st : NodeState) : Prop where
  ledger : LedgerSound st
  chain : ∃ n t, Chained m genesis st n t
  rooted : Rooted m genesis st.blocks

theorem ChainInv.served {m : Machine} {genesis : Accounts} {s : Sequencer}
    (h : ChainInv m genesis s) (hledger : LedgerSound s.world.state) :
    Serving m genesis s.world.state :=
  ⟨hledger, h.durable.chain, h.rooted⟩

section
variable {f : Follower} {genesis : Accounts} {st : NodeState} {r r' : Replica}

/-- **The next block of the chain takes a replica one slot further.** -/
theorem applyBlock_mirrors (hdisk : f.disk = .sound) (hserving : Serving f.machine genesis st)
    (hr : Replicates f.machine genesis st r) {block : Block}
    (hblock : st.blocks.lookup (r.state.slot + 1) = some block) :
    ∃ r', Comp.Returns (f.applyBlock block) r () r' ∧ Replicates f.machine genesis st r' ∧
      r'.state.slot = r.state.slot + 1 := by
  obtain ⟨n, u, hchain⟩ := hserving.chain
  obtain ⟨t, ht, -⟩ := hchain.rooted hserving.rooted hblock
  have hsealed := hserving.ledger.sealed _ _ hblock
  have hslot : block.slot = r.state.slot + 1 := by
    rw [hsealed]
    rfl
  have hreplay : Lib.run (replayStep f.machine) r.state.accounts
      (Follower.instructionsOf block) = some t := by
    have hstep := ht
    rw [replayTo, hr.table, Option.bind_some, hblock, Option.bind_some] at hstep
    exact hstep
  obtain ⟨r', st₁, hreturns, hpoisoned, hsame, haccounts, hstate⟩ :=
    applyBlock_of_replay hdisk hr.unpoisoned hslot hreplay
  have hledger := SameLedger.of_chain hsame
  obtain ⟨haccounts', hblocks', hslot'⟩ := indexAll_keeps block.slot block.transactions
    (st₁.advanceSlot.2.saveBlock block.slot block)
  have hnext : r'.state.slot = r.state.slot + 1 := by
    rw [hstate, sealedBy, hslot']
    exact congrArg (· + 1) hledger.slot
  have hblocks : r'.state.blocks = r.state.blocks.insert (r.state.slot + 1) block := by
    rw [hstate, sealedBy, hblocks', ← hledger.blocks, ← hslot]
    rfl
  refine ⟨r', hreturns, ⟨?_, fun k hpos hle => ?_, ?_, ?_, hpoisoned⟩, hnext⟩
  · rw [hnext, hstate, sealedBy, haccounts', ht, ← haccounts]
    rfl
  · rw [hblocks]
    by_cases hk : k = r.state.slot + 1
    · subst hk
      rw [Finmap.lookup_insert, hblock]
    · rw [Finmap.lookup_insert_of_ne _ hk]
      exact hr.blocks k hpos (by omega)
  · rw [hblocks, Finmap.lookup_insert_of_ne _ (Nat.succ_ne_zero _).symm]
    exact hr.first
  · rw [hstate]
    refine sealedBy_ledgerOk (hledger.ledgerOk hr.ledger fun txid slot hs => ?_)
      (hslot.trans (by rw [hledger.slot])) (by rw [hslot]; exact hsealed)
    rwa [show _ = _ from hsame] at hs

theorem error_ne_panic (text : String) :
    (.error (.error text) : Except ReplayFault Unit) ≠ .error .panic := by
  simp

/-- The loop of a round, from where the replica is. -/
theorem syncFrom_mirrors (hdisk : f.disk = .sound) (hserving : Serving f.machine genesis st)
    {p : Follower.Poll} (hp : Truthful st p) : ∀ (n : Nat) (r : Replica),
      Replicates f.machine genesis st r →
      (Comp.exec (f.syncFrom p (r.state.slot + 1) n) r).1 ≠ .error .panic ∧
        Replicates f.machine genesis st (Comp.exec (f.syncFrom p (r.state.slot + 1) n) r).2 := by
  have hdone : (.ok () : Except ReplayFault Unit) ≠ .error .panic := by simp
  intro n
  induction n with
  | zero => exact fun r hr => ⟨hdone, hr⟩
  | succ n ih =>
    intro r hr
    unfold Follower.syncFrom
    cases hanswer : p.block (r.state.slot + 1) with
    | error text => exact ⟨error_ne_panic text, hr⟩
    | ok answer =>
      cases answer with
      | none => exact ⟨hdone, hr⟩
      | some block =>
        obtain ⟨r₁, hreturns, hr₁, hslot⟩ :=
          applyBlock_mirrors hdisk hserving hr (hp _ _ hanswer)
        have hrest := ih r₁ hr₁
        rw [hslot] at hrest
        dsimp only
        rw [Comp.exec_bind, show _ = _ from hreturns]
        exact hrest

/-- **A round never ends a follower, and leaves it on the chain.** -/
theorem poll_mirrors (hdisk : f.disk = .sound) (hserving : Serving f.machine genesis st)
    (hr : Replicates f.machine genesis st r) {p : Follower.Poll} (hp : Truthful st p) :
    ∃ r', f.poll r p = some r' ∧ Replicates f.machine genesis st r' := by
  have hsync : (Comp.exec (f.syncOnce p) r).1 ≠ .error .panic ∧
      Replicates f.machine genesis st (Comp.exec (f.syncOnce p) r).2 := by
    unfold Follower.syncOnce
    cases p.target with
    | error text => exact ⟨error_ne_panic text, hr⟩
    | ok target => exact syncFrom_mirrors hdisk hserving hp (target - r.state.slot) r hr
  unfold Follower.poll
  cases hx : Comp.exec (f.syncOnce p) r with
  | mk res r₁ =>
    rw [hx] at hsync
    cases res with
    | ok u => exact ⟨r₁, rfl, hsync.2⟩
    | error e =>
      cases e with
      | panic => exact absurd rfl hsync.1
      | error text => exact ⟨r₁, rfl, hsync.2⟩

/-- A replica is never ahead of the primary's slot. -/
theorem Replicates.slot_le (hr : Replicates f.machine genesis st r) (hledger : LedgerSound st) :
    r.state.slot ≤ st.slot := by
  by_contra hgt
  obtain ⟨block, hblock⟩ := replayTo_stored hr.table r.state.slot (by omega) (Nat.le_refl _)
  rw [hledger.fresh r.state.slot (by omega)] at hblock
  cases hblock

/-- A round in which everything is answered goes as far as there are blocks. -/
theorem syncFrom_complete (hdisk : f.disk = .sound) (hserving : Serving f.machine genesis st) :
    ∀ (n : Nat) (r : Replica), Replicates f.machine genesis st r →
      (∀ k, r.state.slot < k → k ≤ r.state.slot + n → (st.blocks.lookup k).isSome) →
      (Comp.exec (f.syncFrom (.of st) (r.state.slot + 1) n) r).2.state.slot =
        r.state.slot + n := by
  intro n
  induction n with
  | zero => exact fun r _ _ => rfl
  | succ n ih =>
    intro r hr hstored
    obtain ⟨block, hblock⟩ := Option.isSome_iff_exists.mp
      (hstored (r.state.slot + 1) (by omega) (by omega))
    have hanswer : (Follower.Poll.of st).block (r.state.slot + 1) = .ok (some block) := by
      rw [← hblock]
      rfl
    obtain ⟨r₁, hreturns, hr₁, hslot⟩ := applyBlock_mirrors hdisk hserving hr hblock
    have hrest := ih r₁ hr₁ fun k hlt hle => hstored k (by omega) (by omega)
    rw [hslot] at hrest
    unfold Follower.syncFrom
    rw [hanswer]
    dsimp only
    rw [Comp.exec_bind, show _ = _ from hreturns]
    exact hrest.trans (by omega)

end

/-! ## A follower in the place of the primary -/

section
variable {m : Machine} {genesis : Accounts} {st : NodeState} {r : Replica}

/-- What is replayed up to a slot depends on the blocks from the first to there. -/
theorem replayTo_agree {blocks blocks' : Table Nat Block} : ∀ {n : Nat},
    (∀ k, 0 < k → k ≤ n → blocks'.lookup k = blocks.lookup k) →
      replayTo m genesis blocks' n = replayTo m genesis blocks n := by
  intro n
  induction n with
  | zero => exact fun _ => rfl
  | succ n ih =>
    intro h
    rw [replayTo, replayTo, ih fun k hpos hk => h k hpos (by omega),
      h (n + 1) (Nat.succ_pos n) (Nat.le_refl _)]

theorem Replicates.replays (hr : Replicates m genesis st r) {k : Nat} (hk : k ≤ r.state.slot) :
    replayTo m genesis r.state.blocks k = replayTo m genesis st.blocks k :=
  replayTo_agree fun j hpos hj => hr.blocks j hpos (by omega)

/-- A replica holds a chain of its own. -/
theorem Replicates.chained (hr : Replicates m genesis st r) :
    Chained m genesis r.state r.state.slot r.state.accounts where
  replays := (hr.replays (Nat.le_refl _)).trans hr.table
  stored k hk := by
    rcases Nat.eq_zero_or_pos k with rfl | hpos
    · exact hr.first
    · obtain ⟨block, hblock⟩ := replayTo_stored hr.table k hpos hk
      rw [hr.blocks k hpos hk, hblock]
      rfl
  fresh := hr.ledger.fresh

theorem Replicates.rooted (hr : Replicates m genesis st r) (hrooted : Rooted m genesis st.blocks) :
    Rooted m genesis r.state.blocks := by
  intro n block t hblock ht
  have hle : n + 1 ≤ r.state.slot := by
    by_contra hgt
    rw [hr.ledger.fresh (n + 1) (by omega)] at hblock
    cases hblock
  rw [hr.blocks (n + 1) (Nat.succ_pos n) hle] at hblock
  rw [hr.replays hle] at ht
  exact hrooted n block t hblock ht

theorem Replicates.same {st' : NodeState} (h : Replicates m genesis st r)
    (hblocks : st'.blocks = st.blocks) : Replicates m genesis st' r := by
  obtain ⟨table, blocks, first, ledger, unpoisoned⟩ := h
  rw [← hblocks] at table blocks
  exact ⟨table, blocks, first, ledger, unpoisoned⟩

/-- Of two replicas of one primary, the one behind mirrors the other. -/
theorem Replicates.behind {r' : Replica} (hr : Replicates m genesis st r)
    (hr' : Replicates m genesis st r') (hle : r.state.slot ≤ r'.state.slot) :
    Replicates m genesis r'.state r where
  table := (hr'.replays hle).trans hr.table
  blocks k hpos hk := (hr.blocks k hpos hk).trans (hr'.blocks k hpos (by omega)).symm
  first := hr.first
  ledger := hr.ledger
  unpoisoned := hr.unpoisoned

theorem markPending_same (st : NodeState) (txids : List (Blob 32)) :
    SameLedger st (st.markPending txids) := by
  induction txids generalizing st with
  | nil => exact .refl st
  | cons txid rest ih =>
    obtain ⟨slot, blocks, txIdx, txCount⟩ := ih (st.setTxStatus txid .pending)
    exact ⟨slot, blocks, txIdx, txCount⟩

theorem markPending_accounts (st : NodeState) (txids : List (Blob 32)) :
    (st.markPending txids).accounts = st.accounts := by
  induction txids generalizing st with
  | nil => rfl
  | cons txid rest ih => exact ih (st.setTxStatus txid .pending)

theorem markPending_ledgerOk {txids : List (Blob 32)} (h : LedgerSound st) :
    LedgerSound (st.markPending txids) := by
  induction txids generalizing st with
  | nil => exact h
  | cons txid rest ih => exact ih (setTxStatus_ledgerOk h fun slot hslot => by cases hslot)

/-- **A follower is fit to be the primary**: what it holds is a whole chain. -/
theorem promoted_inv {effects : List Effect} {b : Standby} (hr : Replicates m genesis st r)
    (hrooted : Rooted m genesis st.blocks) :
    ChainInv m genesis (.promoted effects r b) ∧ LedgerInv (.promoted effects r b) := by
  obtain ⟨slot, blocks, -, -⟩ := markPending_same r.state b.pending
  have hchain : Chained m genesis (r.state.markPending b.pending)
      (r.state.markPending b.pending).slot (r.state.markPending b.pending).accounts := by
    rw [slot, markPending_accounts]
    exact hr.chained.congr blocks
  have hblocks : Rooted m genesis (r.state.markPending b.pending).blocks :=
    blocks ▸ hr.rooted hrooted
  exact ⟨⟨⟨hchain, by simp [Sequencer.promoted], by simp⟩, hblocks⟩,
    markPending_ledgerOk hr.ledger, trivial⟩

end

/-! ## Runs of the network -/

/-- No follower is ahead of this one. -/
def Foremost (net : Network) (n : Nat) : Prop :=
  ∀ i, (net.replicas i).state.slot ≤ (net.replicas n).state.slot

/-- The primary crashes between blocks only, and answers from what it has stored. A follower that
    takes its place is not behind another. -/
def Permitted (net : Network) : NetworkAction → Prop
  | .primary i => CrashesAtRest net.primary i
  | .poll _ p => Truthful net.primary.world.state p
  | .promote n _ => Foremost net n

/-- A replica that has the genesis table and block, and nothing else. -/
structure Unused (genesis : Accounts) (r : Replica) : Prop where
  accounts : r.state.accounts = genesis
  slot : r.state.slot = 0
  first : (r.state.blocks.lookup 0).isSome
  ledger : LedgerSound r.state
  unpoisoned : r.poisoned = false

/-- A primary about to produce, and followers that start with it. -/
structure Founded (m : Machine) (genesis : Accounts) (net : Network) : Prop where
  ready : Ready m genesis net.primary
  ledger : LedgerSound net.primary.world.state
  rooted : Rooted m genesis net.primary.world.state.blocks
  replicas : ∀ n, Unused genesis (net.replicas n)

/-- What holds of the network between its steps. -/
structure NetworkInv (m : Machine) (genesis : Accounts) (net : Network) : Prop where
  chain : ChainInv m genesis net.primary
  ledger : LedgerInv net.primary
  replicas : ∀ n, Replicates m genesis net.primary.world.state (net.replicas n)

section
variable {ex : Executor} {g : Gate} {boot : ElectionState} {f : Follower} {genesis : Accounts}
  {net net' : Network}

theorem Founded.inv {m : Machine} (h : Founded m genesis net) : NetworkInv m genesis net := by
  refine ⟨⟨h.ready.durable, h.rooted⟩, Booted.inv ⟨h.ledger, h.ready.producer⟩, fun n => ?_⟩
  obtain ⟨haccounts, hslot, hfirst, hledger, hpoisoned⟩ := h.replicas n
  refine ⟨?_, fun k hpos hle => absurd hle (by omega), hfirst, hledger, hpoisoned⟩
  rw [hslot, haccounts]
  rfl

/-- **Every step of the network keeps the followers on the chain.** -/
theorem network_step (hmachine : f.machine = ex.machine) (hdisk : f.disk = .sound)
    {a : NetworkAction} (hinv : NetworkInv ex.machine genesis net) (hok : Permitted net a)
    (h : net.step ex g boot f a = some net') : NetworkInv ex.machine genesis net' := by
  cases a with
  | primary i =>
    obtain ⟨primary, hincident, rfl⟩ := Option.map_eq_some_iff.mp h
    obtain ⟨hledger, hext⟩ := incident_ledger hinv.ledger hincident
    exact ⟨incident_chainInv hinv.chain hok hincident, hledger,
      fun n => (hinv.replicas n).mono hext⟩
  | poll n p =>
    obtain ⟨r, hpoll, rfl⟩ := Option.map_eq_some_iff.mp h
    have hserving := hinv.chain.served hinv.ledger.1
    have hbefore := hinv.replicas n
    rw [← hmachine] at hserving hbefore
    obtain ⟨r', hpoll', hr'⟩ := poll_mirrors hdisk hserving hbefore hok
    obtain rfl : r' = r := Option.some.inj (hpoll'.symm.trans hpoll)
    refine ⟨hinv.chain, hinv.ledger, fun i => ?_⟩
    by_cases hi : i = n
    · subst hi
      simpa [hmachine] using hr'
    · simpa [Function.update_of_ne hi] using hinv.replicas i
  | promote n b =>
    obtain rfl := Option.some.inj h
    obtain ⟨hchain, hledger⟩ := promoted_inv (hinv.replicas n) hinv.chain.rooted
    exact ⟨hchain, hledger, fun i => ((hinv.replicas i).behind (hinv.replicas n) (hok i)).same
      (markPending_same _ b.pending).blocks⟩

theorem run_network (hmachine : f.machine = ex.machine) (hdisk : f.disk = .sound)
    {actions : List NetworkAction} (hfounded : Founded ex.machine genesis net)
    (hmeets : Meets (Network.step ex g boot f) Permitted net actions)
    (hrun : Lib.run (Network.step ex g boot f) net actions = some net') :
    NetworkInv ex.machine genesis net' :=
  run_invariant (fun _ _ _ hok hI h => network_step hmachine hdisk hI hok h) hmeets hfounded.inv
    hrun

/-- What the primary does on its own is a run of the network. -/
theorem run_primary {s' : Sequencer} {replicas : Nat → Replica} : ∀ {s : Sequencer}
    {incidents : List Incident},
    Lib.run (Sequencer.incident ex g boot) s incidents = some s' →
      Lib.run (Network.step ex g boot f) ⟨s, replicas⟩ (incidents.map .primary) =
        some ⟨s', replicas⟩ := by
  intro s incidents
  induction incidents generalizing s with
  | nil =>
    intro h
    obtain rfl := Option.some.inj h
    rfl
  | cons i rest ih =>
    intro h
    obtain ⟨m, hm, hrest⟩ := run_cons h
    have hstep : (Network.mk s replicas).step ex g boot f (.primary i) = some ⟨m, replicas⟩ := by
      simp [Network.step, hm]
    rw [List.map_cons, Lib.run, hstep]
    exact ih hrest

theorem meets_primary {replicas : Nat → Replica} : ∀ {s : Sequencer} {incidents : List Incident},
    Meets (Sequencer.incident ex g boot) CrashesAtRest s incidents →
      Meets (Network.step ex g boot f) Permitted ⟨s, replicas⟩ (incidents.map .primary) := by
  intro s incidents
  induction incidents generalizing s with
  | nil => exact fun _ => trivial
  | cons i rest ih =>
    intro h
    refine ⟨h.1, fun net' hstep => ?_⟩
    obtain ⟨m, hm, rfl⟩ := Option.map_eq_some_iff.mp hstep
    exact ih (h.2 m hm)

/-- What a replica that is not at the start has last applied. -/
theorem Replicates.root {m : Machine} {st : NodeState} {r : Replica} (hr : Replicates m genesis st r)
    (hrooted : Rooted m genesis st.blocks) {block : Block} (hpos : 0 < r.state.slot)
    (hblock : r.state.blocks.lookup r.state.slot = some block) :
    r.state.computeStateRoot = block.stateRoot := by
  obtain ⟨n, hn⟩ := Nat.exists_eq_succ_of_ne_zero (Nat.ne_of_gt hpos)
  have htable := hr.table
  rw [hr.blocks _ hpos (Nat.le_refl _)] at hblock
  rw [hn] at htable hblock
  rw [computeStateRoot_eq, hrooted n block _ hblock htable]

/-- At the primary's slot, between blocks, a replica has the primary's table. -/
theorem NetworkInv.agrees {m : Machine} (hinv : NetworkInv m genesis net)
    (hrest : AtRest net.primary) {r : Replica}
    (hr : Replicates m genesis net.primary.world.state r)
    (hslot : r.state.slot = net.primary.world.state.slot) :
    r.state.accounts = net.primary.world.state.accounts := by
  have htable := hr.table
  rw [hslot, (hinv.chain.durable.chained hrest).replays] at htable
  exact (Option.some.inj htable).symm

end

/-- A primary with one account, and followers that have it too. -/
def payingNetwork : Network := ⟨payingNode, fun _ => { state := payingNode.world.state }⟩

theorem payingNode_ledger : LedgerSound payingNode.world.state := by
  obtain ⟨fresh, sealed, -, -, -⟩ := emptyNode_booted.ledger
  exact ⟨fresh, sealed, fun _ _ h => by simp [payingNode, World.funded] at h,
    fun _ _ h => by simp [payingNode, World.funded, NodeState.getTxStatus] at h, rfl⟩

theorem payingNetwork_founded : Founded (Executor.bare .dev).machine
    payingNode.world.state.accounts payingNetwork := by
  have hunused : Unused payingNode.world.state.accounts { state := payingNode.world.state } :=
    ⟨rfl, rfl, payingNode_ready.consistent.stored 0 (Nat.zero_le _), payingNode_ledger, rfl⟩
  exact ⟨payingNode_ready, payingNode_ledger, payingNode_rooted _ _, fun _ => hunused⟩

/-- The block that the message gets into. -/
def sentBlock : Block :=
  .newWithRoot 1 0 [emptyTransaction] 0 (rootOf payingNode.world.state.accounts)

end Proof
end Himsha
