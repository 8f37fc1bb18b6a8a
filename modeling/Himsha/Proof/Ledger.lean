import Himsha.Node.Queries
import Himsha.Proof.Crash
import Himsha.Proof.Pipeline

/-!
# The ledger only grows

The slot counter is on disk and a block is written at a slot that was just drawn from it, so no
block is ever written over, wherever a crash comes. The index is written after the block, and the
status after the index, so what either of them says can be looked up. `LedgerSound` is what holds of
the database, `BlockDue` adds what the producer is about to write.
-/

set_option autoImplicit false

namespace Himsha
namespace Proof

open Himsha.Lib Himsha.Runtime Himsha.Programs Himsha.Node

/-- A block that has the transaction is stored at the slot. -/
def Stored (st : NodeState) (slot : Nat) (txid : Blob 32) : Prop :=
  ∃ block, st.blocks.lookup slot = some block ∧ ∃ tx ∈ block.transactions, tx.messageHash = txid

/-- What the index and the statuses say can be looked up in the blocks. -/
structure LedgerSound (st : NodeState) : Prop where
  fresh : ∀ k, st.slot < k → st.blocks.lookup k = none
  sealed : ∀ k block, st.blocks.lookup k = some block →
    block = .newWithRoot k (k - 1) block.transactions block.timestamp block.stateRoot
  indexed : ∀ txid slot, st.txIdx.lookup txid = some slot → Stored st slot txid
  succeeded : ∀ txid slot, st.getTxStatus txid = some (.succeeded slot) →
    Stored st slot txid ∧ (st.txIdx.lookup txid).isSome
  counted : st.txCount = st.txIdx.keys.card

/-- What the producer is about to write is right. -/
def BlockDue (s : Sequencer) : Prop :=
  match s.producer with
  | .sleeping | .draining _ | .stopped => True
  | .executing d _ | .failing d _ _ _ | .recording d _ _ _ =>
      d.slot = s.world.state.slot ∧ s.world.state.blocks.lookup d.slot = none
  | .indexing slot todo => ∀ tx ∈ todo, Stored s.world.state slot tx.messageHash
  | .marking slot tx todo =>
      (s.world.state.txIdx.lookup tx.messageHash).isSome ∧
        ∀ tx' ∈ tx :: todo, Stored s.world.state slot tx'.messageHash

/-- Nothing is taken out of the ledger. -/
structure Extends (st st' : NodeState) : Prop where
  slot : st.slot ≤ st'.slot
  blocks : ∀ k block, st.blocks.lookup k = some block → st'.blocks.lookup k = some block
  txIdx : ∀ txid, (st.txIdx.lookup txid).isSome → (st'.txIdx.lookup txid).isSome

theorem Extends.refl (st : NodeState) : Extends st st := ⟨Nat.le_refl _, fun _ _ h => h, fun _ h => h⟩

theorem Extends.trans {st st' st'' : NodeState} (h : Extends st st') (h' : Extends st' st'') :
    Extends st st'' where
  slot := h.slot.trans h'.slot
  blocks k block hk := h'.blocks k block (h.blocks k block hk)
  txIdx txid hid := h'.txIdx txid (h.txIdx txid hid)

theorem Stored.mono {st st' : NodeState} {slot : Nat} {txid : Blob 32} (h : Stored st slot txid)
    (hext : Extends st st') : Stored st' slot txid := by
  obtain ⟨block, hblock, htx⟩ := h
  exact ⟨block, hext.blocks slot block hblock, htx⟩

/-- The ledger is the same; accounts and statuses need not be. -/
structure SameLedger (st st' : NodeState) : Prop where
  slot : st'.slot = st.slot
  blocks : st'.blocks = st.blocks
  txIdx : st'.txIdx = st.txIdx
  txCount : st'.txCount = st.txCount

namespace SameLedger

variable {st st' : NodeState}

theorem refl (st : NodeState) : SameLedger st st := ⟨rfl, rfl, rfl, rfl⟩

theorem of_chain (h : NodeState.SameChain st st') : SameLedger st st' := by
  unfold NodeState.SameChain at h
  exact ⟨by rw [h], by rw [h], by rw [h], by rw [h]⟩

theorem toExtends (h : SameLedger st st') : Extends st st' :=
  ⟨h.slot.symm.le, fun _ _ hk => h.blocks ▸ hk, fun _ hid => h.txIdx ▸ hid⟩

/-- A ledger that is the same is as good, if no status is news of a success. -/
theorem ledgerOk (h : SameLedger st st') (hok : LedgerSound st)
    (hstatus : ∀ txid slot, st'.getTxStatus txid = some (.succeeded slot) →
      st.getTxStatus txid = some (.succeeded slot)) : LedgerSound st' where
  fresh k hk := by
    rw [h.blocks]
    exact hok.fresh k (h.slot ▸ hk)
  sealed k block hk := hok.sealed k block (h.blocks ▸ hk)
  indexed txid slot hid := (hok.indexed txid slot (h.txIdx ▸ hid)).mono h.toExtends
  succeeded txid slot hs := by
    obtain ⟨hstored, hindex⟩ := hok.succeeded txid slot (hstatus txid slot hs)
    exact ⟨hstored.mono h.toExtends, h.txIdx ▸ hindex⟩
  counted := by
    rw [h.txCount, h.txIdx]
    exact hok.counted

end SameLedger

/-- What the producer is about to write stays right while the ledger is the same. -/
theorem BlockDue.same {s s' : Sequencer} (h : BlockDue s)
    (hsame : SameLedger s.world.state s'.world.state) (hproducer : s'.producer = s.producer) :
    BlockDue s' := by
  have hext := hsame.toExtends
  unfold BlockDue at h ⊢
  rw [hproducer]
  cases hp : s.producer with
  | sleeping | draining batch | stopped => trivial
  | executing d todo | failing d tx error todo | recording d tx error todo =>
    rw [hp] at h
    exact ⟨h.1.trans hsame.slot.symm, by rw [hsame.blocks]; exact h.2⟩
  | indexing slot todo =>
    rw [hp] at h
    exact fun tx htx => (h tx htx).mono hext
  | marking slot tx todo =>
    rw [hp] at h
    exact ⟨hext.txIdx _ h.1, fun tx' htx' => (h.2 tx' htx').mono hext⟩

/-! ## Writes to the ledger -/

section
variable {st : NodeState}

theorem advanceSlot_extends : Extends st st.advanceSlot.2 :=
  ⟨Nat.le_succ _, fun _ _ h => h, fun _ h => h⟩

theorem advanceSlot_ledgerOk (h : LedgerSound st) : LedgerSound st.advanceSlot.2 where
  fresh k hk := h.fresh k (Nat.lt_of_succ_lt hk)
  sealed := h.sealed
  indexed := h.indexed
  succeeded := h.succeeded
  counted := h.counted

theorem saveBlock_extends {slot : Nat} (block : Block) (hfree : st.blocks.lookup slot = none) :
    Extends st (st.saveBlock slot block) where
  slot := Nat.le_refl _
  blocks k b hk := by
    have hne : k ≠ slot := by
      rintro rfl
      rw [hfree] at hk
      cases hk
    exact (Finmap.lookup_insert_of_ne _ hne).trans hk
  txIdx _ h := h

/-- A block that is sealed at the tip goes to a free place. -/
theorem saveBlock_ledgerOk {block : Block} (h : LedgerSound st)
    (hfree : st.blocks.lookup st.slot = none)
    (hsealed : block = .newWithRoot st.slot (st.slot - 1) block.transactions block.timestamp
      block.stateRoot) : LedgerSound (st.saveBlock st.slot block) := by
  have hext := saveBlock_extends block hfree
  refine ⟨fun k hk => ?_, fun k b hk => ?_, fun txid slot hid => ?_, fun txid slot hs => ?_,
    h.counted⟩
  · exact (Finmap.lookup_insert_of_ne _ (Nat.ne_of_gt hk)).trans (h.fresh k hk)
  · by_cases hkey : k = st.slot
    · subst hkey
      obtain rfl : block = b := Option.some.inj ((Finmap.lookup_insert _).symm.trans hk)
      exact hsealed
    · exact h.sealed k b ((Finmap.lookup_insert_of_ne _ hkey).symm.trans hk)
  · exact (h.indexed txid slot hid).mono hext
  · obtain ⟨hstored, hindex⟩ := h.succeeded txid slot hs
    exact ⟨hstored.mono hext, hindex⟩

theorem indexTransaction_extends (st : NodeState) (txid : Blob 32) (slot : Nat) :
    Extends st (st.indexTransaction txid slot) where
  slot := Nat.le_refl _
  blocks _ _ h := h
  txIdx id h := by
    by_cases hid : id = txid
    · subst hid
      simp [NodeState.indexTransaction, Finmap.lookup_insert]
    · simpa [NodeState.indexTransaction, Finmap.lookup_insert_of_ne _ hid] using h

theorem indexTransaction_ledgerOk {txid : Blob 32} {slot : Nat} (h : LedgerSound st)
    (hstored : Stored st slot txid) : LedgerSound (st.indexTransaction txid slot) := by
  have hext := indexTransaction_extends st txid slot
  refine ⟨h.fresh, h.sealed, fun id k hid => ?_, fun id k hs => ?_, ?_⟩
  · by_cases hsame : id = txid
    · subst hsame
      obtain rfl : slot = k := Option.some.inj ((Finmap.lookup_insert _).symm.trans hid)
      exact hstored.mono hext
    · exact (h.indexed id k ((Finmap.lookup_insert_of_ne _ hsame).symm.trans hid)).mono hext
  · obtain ⟨hstored', hindex⟩ := h.succeeded id k hs
    exact ⟨hstored'.mono hext, hext.txIdx id hindex⟩
  · simp only [NodeState.indexTransaction, Table.keys_insert, h.counted]
    cases hlookup : st.txIdx.lookup txid with
    | none =>
      have hnew : txid ∉ st.txIdx.keys := by
        rw [Finmap.mem_keys, ← Finmap.lookup_eq_none]
        exact hlookup
      simp [Finset.card_insert_of_notMem hnew]
    | some k =>
      have hold : txid ∈ st.txIdx.keys := Finmap.mem_keys.mpr (Finmap.mem_of_lookup_eq_some hlookup)
      simp [Finset.insert_eq_of_mem hold]

/-- A status that is no news of a success. -/
theorem setTxStatus_ledgerOk {txid : Blob 32} {status : TxStatus} (h : LedgerSound st)
    (hstatus : ∀ slot, status = .succeeded slot →
      Stored st slot txid ∧ (st.txIdx.lookup txid).isSome) :
    LedgerSound (st.setTxStatus txid status) := by
  refine ⟨h.fresh, h.sealed, h.indexed, fun id slot hs => ?_, h.counted⟩
  rw [getTxStatus_set] at hs
  split at hs
  · rename_i hid
    subst hid
    exact hstatus slot (Option.some.inj hs)
  · exact h.succeeded id slot hs

end

/-! ## Steps of the node -/

/-- The database is sound, and so is what the producer is about to write. -/
def LedgerInv (s : Sequencer) : Prop := LedgerSound s.world.state ∧ BlockDue s

section
variable {ex : Executor} {g : Gate} {s s' : Sequencer}

/-- A step that leaves the ledger, the statuses and the producer alone. -/
theorem LedgerInv.same (h : LedgerInv s) (hsame : SameLedger s.world.state s'.world.state)
    (hstatus : s'.world.state.txStatus = s.world.state.txStatus)
    (hproducer : s'.producer = s.producer) :
    LedgerInv s' ∧ Extends s.world.state s'.world.state := by
  refine ⟨⟨hsame.ledgerOk h.1 fun txid slot hs => ?_, h.2.same hsame hproducer⟩, hsame.toExtends⟩
  simpa [NodeState.getTxStatus, hstatus] using hs

theorem serve_ledger {c : SendCall} {phase : CallPhase} (hinv : LedgerInv s)
    (h : s.serve ex g c = some (s', phase)) :
    LedgerInv s' ∧ Extends s.world.state s'.world.state := by
  rcases serve_cases h with ⟨-, -, rfl | rfl⟩ | ⟨-, -, rfl⟩ | ⟨-, -, rfl | rfl⟩
  · exact ⟨hinv, .refl _⟩
  · exact hinv.same (.of_chain (apply_sameChain s.world)) (apply_txStatus s.world) rfl
  · have hsame : SameLedger s.world.state
        (s.world.state.setTxStatus c.tx.messageHash .pending) := ⟨rfl, rfl, rfl, rfl⟩
    have hok : LedgerSound (s.world.state.setTxStatus c.tx.messageHash .pending) :=
      setTxStatus_ledgerOk hinv.1 fun slot hslot => by cases hslot
    exact ⟨⟨hok, hinv.2.same hsame rfl⟩, hsame.toExtends⟩
  · exact ⟨hinv, .refl _⟩
  · exact ⟨⟨hinv.1, hinv.2.same (.refl _) rfl⟩, .refl _⟩

theorem execute_ledger {d : Draft} {tx : RuntimeTransaction} {todo : List RuntimeTransaction}
    (hinv : LedgerInv s) (hp : s.producer = .executing d (tx :: todo)) :
    LedgerInv (s.execute ex d tx todo) ∧
      Extends s.world.state (s.execute ex d tx todo).world.state := by
  have hsame : SameLedger s.world.state (ex.apply s.world tx .commit).2.state :=
    .of_chain (apply_sameChain s.world)
  have hstatus : (ex.apply s.world tx .commit).2.state.txStatus = s.world.state.txStatus :=
    apply_txStatus s.world
  obtain ⟨hok, hbooks⟩ := hinv
  have hok' : LedgerSound (ex.apply s.world tx .commit).2.state :=
    hsame.ledgerOk hok fun txid slot hs => by simpa [NodeState.getTxStatus, hstatus] using hs
  -- The block stays open, at the same free slot.
  have hopen : d.slot = (ex.apply s.world tx .commit).2.state.slot ∧
      (ex.apply s.world tx .commit).2.state.blocks.lookup d.slot = none := by
    unfold BlockDue at hbooks
    rw [hp] at hbooks
    exact ⟨hbooks.1.trans hsame.slot.symm, by rw [hsame.blocks]; exact hbooks.2⟩
  unfold Sequencer.execute
  cases happ : ex.apply s.world tx .commit with
  | mk result r =>
    rw [happ] at hsame hok' hopen
    cases result with
    | ok u => exact ⟨⟨hok', hopen⟩, hsame.toExtends⟩
    | error e =>
      cases e with
      | error e => exact ⟨⟨hok', hopen⟩, hsame.toExtends⟩
      | panic => exact ⟨⟨hok', trivial⟩, hsame.toExtends⟩

theorem produce_ledger {now : UInt64} (hinv : LedgerInv s) (h : s.produce ex now = some s') :
    LedgerInv s' ∧ Extends s.world.state s'.world.state := by
  obtain ⟨hok, hbooks⟩ := hinv
  unfold Sequencer.produce at h
  cases hp : s.producer with
  | sleeping =>
    simp only [hp, Option.some.injEq] at h
    subst h
    exact ⟨⟨hok, trivial⟩, .refl _⟩
  | draining batch =>
    simp only [hp] at h
    split at h
    · rw [← Option.some.inj h]
      exact ⟨⟨hok, trivial⟩, .refl _⟩
    · split at h
      · rw [← Option.some.inj h]
        exact ⟨⟨hok, trivial⟩, .refl _⟩
      · rw [← Option.some.inj h]
        -- The slot is drawn from the counter, and nothing is stored above the old one.
        have hfree := hok.fresh (s.world.state.slot + 1) (Nat.lt_succ_self _)
        exact ⟨⟨advanceSlot_ledgerOk hok, rfl, hfree⟩, advanceSlot_extends⟩
  | executing d todo =>
    cases todo with
    | cons tx todo =>
      simp only [hp, Option.some.injEq] at h
      subst h
      exact execute_ledger ⟨hok, hbooks⟩ hp
    | nil =>
      unfold BlockDue at hbooks
      simp only [hp, Option.some.injEq] at h hbooks
      subst h
      obtain ⟨hslot, hfree⟩ := hbooks
      refine ⟨⟨?_, fun tx htx => ?_⟩, saveBlock_extends _ hfree⟩
      · rw [hslot] at hfree ⊢
        exact saveBlock_ledgerOk hok hfree rfl
      · exact ⟨_, Finmap.lookup_insert _, tx, htx, rfl⟩
  | failing d tx error todo =>
    unfold BlockDue at hbooks
    simp only [hp] at h hbooks
    split at h
    · rw [← Option.some.inj h]
      exact ⟨⟨hok, hbooks⟩, .refl _⟩
    · rw [← Option.some.inj h]
      exact ⟨⟨hok, hbooks⟩, .refl _⟩
  | recording d tx error todo =>
    unfold BlockDue at hbooks
    simp only [hp, Option.some.injEq] at h hbooks
    subst h
    have hok' : LedgerSound (s.world.state.setTxStatus tx.messageHash (.failed d.slot error)) :=
      setTxStatus_ledgerOk hok fun slot hslot => by cases hslot
    exact ⟨⟨hok', hbooks⟩, ⟨Nat.le_refl _, fun _ _ hk => hk, fun _ hid => hid⟩⟩
  | indexing slot todo =>
    cases todo with
    | cons tx todo =>
      unfold BlockDue at hbooks
      simp only [hp, Option.some.injEq] at h hbooks
      subst h
      have hext := indexTransaction_extends s.world.state tx.messageHash slot
      have hstored := hbooks tx (List.mem_cons_self ..)
      refine ⟨⟨indexTransaction_ledgerOk hok hstored, ?_, fun tx' htx' => ?_⟩, hext⟩
      · simp [Sequencer.onState, NodeState.indexTransaction, Finmap.lookup_insert]
      · exact (hbooks tx' htx').mono hext
    | nil =>
      simp only [hp, Option.some.injEq] at h
      subst h
      exact ⟨⟨hok, trivial⟩, .refl _⟩
  | marking slot tx todo =>
    unfold BlockDue at hbooks
    simp only [hp, Option.some.injEq] at h hbooks
    subst h
    have hstored := hbooks.2 tx (List.mem_cons_self ..)
    have hok' : LedgerSound (s.world.state.setTxStatus tx.messageHash (.succeeded slot)) := by
      refine setTxStatus_ledgerOk hok fun slot' hslot' => ?_
      cases hslot'
      exact ⟨hstored, hbooks.1⟩
    exact ⟨⟨hok', fun tx' htx' => hbooks.2 tx' (List.mem_cons_of_mem _ htx')⟩,
      ⟨Nat.le_refl _, fun _ _ hk => hk, fun _ hid => hid⟩⟩
  | stopped => simp [hp] at h

/-- **Every statement of a node keeps the ledger**, and so does a crash between two of them. -/
theorem incident_ledger {boot : ElectionState} {i : Incident} (hinv : LedgerInv s)
    (h : s.incident ex g boot i = some s') :
    LedgerInv s' ∧ Extends s.world.state s'.world.state := by
  cases i with
  | crash =>
    simp only [Sequencer.incident, Option.some.injEq] at h
    subst h
    exact ⟨⟨hinv.1, trivial⟩, .refl _⟩
  | act a =>
    cases a with
    | submit tx =>
      simp only [Sequencer.incident, Sequencer.step, Option.some.injEq] at h
      subst h
      exact ⟨⟨hinv.1, hinv.2.same (.refl _) rfl⟩, .refl _⟩
    | serve i =>
      obtain ⟨c, s₁, phase, -, hserve, rfl⟩ := step_serve h
      obtain ⟨hinv', hext⟩ := serve_ledger hinv hserve
      exact ⟨⟨hinv'.1, hinv'.2.same (.refl _) rfl⟩, hext⟩
    | produce now => exact produce_ledger hinv h
    | election c =>
      obtain ⟨election, -, rfl⟩ := Option.map_eq_some_iff.mp h
      exact ⟨⟨hinv.1, hinv.2.same (.refl _) rfl⟩, .refl _⟩

end

/-! ## Runs -/

/-- A node that is about to produce, on a database whose ledger is sound. -/
structure Booted (s : Sequencer) : Prop where
  ledger : LedgerSound s.world.state
  producer : s.producer = .sleeping

theorem Booted.inv {s : Sequencer} (h : Booted s) : LedgerInv s := by
  refine ⟨h.ledger, ?_⟩
  unfold BlockDue
  rw [h.producer]
  trivial

theorem run_ledger {ex : Executor} {g : Gate} {boot : ElectionState} {s s' : Sequencer}
    {incidents : List Incident} (hinv : LedgerInv s)
    (hrun : Lib.run (Sequencer.incident ex g boot) s incidents = some s') :
    LedgerInv s' ∧ Extends s.world.state s'.world.state := by
  have hstep : ∀ t i t', LedgerInv t → t.incident ex g boot i = some t' →
      LedgerInv t' ∧ Extends t.world.state t'.world.state :=
    fun _ _ _ hI h => incident_ledger hI h
  refine run_extends (R := fun t t' => Extends t.world.state t'.world.state) (fun _ => .refl _)
    (fun t₁ t₂ t₃ h h' => ?_) hstep hinv hrun
  exact Extends.trans h h'

/-- **The ledger is append-only.** In every run of a node, crashed at whatever statements: between
    any two of its states the slot counter does not fall, no block that is stored changes, and no
    id leaves the index. A block that is stored is sealed for its slot, and none is stored above
    the counter. -/
theorem ledger_append_only (ex : Executor) (g : Gate) (boot : ElectionState)
    (s₀ m s : Sequencer) (before after : List Incident) (hbooted : Booted s₀)
    (hbefore : Lib.run (Sequencer.incident ex g boot) s₀ before = some m)
    (hafter : Lib.run (Sequencer.incident ex g boot) m after = some s) :
    m.world.state.slot ≤ s.world.state.slot ∧
      (∀ k block, m.world.state.blocks.lookup k = some block →
        s.world.state.blocks.lookup k = some block) ∧
      (∀ txid, (m.world.state.txSlot txid).isSome → (s.world.state.txSlot txid).isSome) ∧
      ∀ k block, s.world.state.blocks.lookup k = some block → k ≤ s.world.state.slot ∧
        block = .newWithRoot k (k - 1) block.transactions block.timestamp block.stateRoot := by
  obtain ⟨hinv, -⟩ := run_ledger hbooted.inv hbefore
  obtain ⟨⟨hok, -⟩, hext⟩ := run_ledger hinv hafter
  refine ⟨hext.slot, hext.blocks, hext.txIdx, fun k block hk => ⟨?_, hok.sealed k block hk⟩⟩
  by_contra hgt
  rw [hok.fresh k (Nat.lt_of_not_le hgt)] at hk
  cases hk

section
variable {st : NodeState}

/-- What is found has the id, and is in the block of its slot. -/
theorem processedTransaction_found {id : Blob 32} {tx : RuntimeTransaction}
    (h : st.processedTransaction id = some tx) :
    tx.messageHash = id ∧ ∃ slot, st.txSlot id = some slot ∧ tx ∈ st.transactionsAt slot := by
  obtain ⟨slot, hslot, hrest⟩ := Option.bind_eq_some_iff.mp h
  obtain ⟨block, hblock, hfind⟩ := Option.bind_eq_some_iff.mp hrest
  refine ⟨by simpa using List.find?_some hfind, slot, hslot, ?_⟩
  simp only [NodeState.transactionsAt, hblock]
  exact List.mem_of_find?_eq_some hfind

/-- What is in the index is found. -/
theorem LedgerSound.finds (h : LedgerSound st) {id : Blob 32} (hid : (st.txSlot id).isSome) :
    ∃ tx, st.processedTransaction id = some tx := by
  obtain ⟨slot, hslot⟩ := Option.isSome_iff_exists.mp hid
  obtain ⟨block, hblock, tx, htx, htxid⟩ := h.indexed id slot hslot
  have hsome : (block.transactions.find? fun tx => tx.messageHash = id).isSome :=
    List.find?_isSome.mpr ⟨tx, htx, by simpa using htxid⟩
  obtain ⟨tx', hfind⟩ := Option.isSome_iff_exists.mp hsome
  exact ⟨tx', by simp [NodeState.processedTransaction, hslot, hblock, hfind]⟩

end

/-- **What the node answers about transactions is so**, wherever a run with crashes has got to. The
    ids of the index are those that `get_processed_transaction` finds, by the text that the sender
    was answered, and what it finds is in a block and has that id. A success that is reported is in
    the block of the slot that is reported, and is found. The counter counts the ids of the index.
    And `recent_transactions` lists the first of what the last 1024 slots hold. -/
theorem queries_agree (ex : Executor) (g : Gate) (boot : ElectionState) (s₀ s : Sequencer)
    (incidents : List Incident) (hbooted : Booted s₀)
    (hrun : Lib.run (Sequencer.incident ex g boot) s₀ incidents = some s) :
    let st := s.world.state
    (∀ id, (st.txSlot id).isSome ↔
      (st.getProcessedTransaction (Lending.hexEncode id.bytes)).isSome) ∧
    (∀ txid tx, st.getProcessedTransaction txid = some tx →
      parseTxid txid = some tx.messageHash ∧
        ∃ slot, st.txSlot tx.messageHash = some slot ∧ tx ∈ st.transactionsAt slot) ∧
    (∀ id slot, st.getSignatureStatus id = some ⟨"succeeded", some slot, none⟩ →
      (∃ tx ∈ st.transactionsAt slot, tx.messageHash = id) ∧
        (st.getProcessedTransaction (Lending.hexEncode id.bytes)).isSome) ∧
    st.stats.2.1 = st.txIdx.keys.card ∧
    ∀ limit, st.recentTransactions limit =
      (st.newestFirst (st.slot - 1024) st.slot).take limit.toNat := by
  obtain ⟨⟨hok, -⟩, -⟩ := run_ledger hbooted.inv hrun
  refine ⟨fun id => ?_, fun txid tx h => ?_, fun id slot h => ?_, hok.counted,
    fun limit => NodeState.recentTransactions_eq _ _⟩
  · rw [NodeState.getProcessedTransaction_hexEncode]
    constructor
    · intro hid
      obtain ⟨tx, htx⟩ := hok.finds hid
      exact htx ▸ rfl
    · intro hfound
      obtain ⟨tx, htx⟩ := Option.isSome_iff_exists.mp hfound
      obtain ⟨-, slot, hslot, -⟩ := processedTransaction_found htx
      exact hslot ▸ rfl
  · obtain ⟨id, hid, hfound⟩ := Option.bind_eq_some_iff.mp h
    obtain ⟨rfl, slot, hslot, hmem⟩ := processedTransaction_found hfound
    exact ⟨hid, slot, hslot, hmem⟩
  · have hstatus : s.world.state.getTxStatus id = some (.succeeded slot) := by
      unfold NodeState.getSignatureStatus at h
      obtain ⟨status, hstatus, heq⟩ := Option.map_eq_some_iff.mp h
      cases status with
      | pending => simp at heq
      | failed slot' error => simp at heq
      | succeeded slot' =>
        simp only [SignatureStatus.mk.injEq, Option.some.injEq] at heq
        rw [hstatus, heq.2.1]
    obtain ⟨⟨block, hblock, tx, htx, hid⟩, hindex⟩ := hok.succeeded id slot hstatus
    refine ⟨⟨tx, ?_, hid⟩, ?_⟩
    · simpa only [NodeState.transactionsAt, hblock] using htx
    · obtain ⟨tx', htx'⟩ := hok.finds hindex
      rw [NodeState.getProcessedTransaction_hexEncode, htx']
      rfl

/-- A fresh node has the genesis block and nothing else. -/
theorem funded_booted (balances : List (Pubkey × UInt64)) :
    Booted { world := .funded balances } := by
  have hlookup : ∀ k, (World.funded balances).state.blocks.lookup k =
      if k = 0 then some .genesis else none := by
    intro k
    by_cases hk : k = 0
    · subst hk
      exact Finmap.lookup_insert _
    · rw [if_neg hk]
      exact (Finmap.lookup_insert_of_ne _ hk).trans (Finmap.lookup_empty k)
  refine ⟨⟨fun k hk => ?_, fun k block hk => ?_, fun txid slot h => ?_, fun txid slot h => ?_, rfl⟩,
    rfl⟩
  · have hne : k ≠ 0 := Nat.ne_of_gt hk
    rw [hlookup, if_neg hne]
  · rw [hlookup] at hk
    split at hk
    · rename_i hzero
      subst hzero
      rw [← Option.some.inj hk]
      rfl
    · cases hk
  · simp [World.funded] at h
  · simp [World.funded, NodeState.getTxStatus] at h

theorem emptyNode_booted : Booted emptyNode := funded_booted []

theorem payingNode_booted : Booted payingNode := funded_booted [(.repeated 1, 1000)]

/-- A message is sent and put in a block; then the node crashes. -/
def sentBeforeCrash : List Incident :=
  (.submit emptyTransaction :: serves 0 6 ++ produces 7 : List Action).map .act ++ [.crash]

theorem sentBeforeCrash_runs :
    (Lib.run (Sequencer.incident (.bare .dev) payingGate {}) emptyNode sentBeforeCrash).any
      (fun s => s.world.state.getSignatureStatus emptyTransaction.messageHash =
        some ⟨"succeeded", some 1, none⟩) = true := by
  decide +kernel

theorem ledger_append_only_restart : ∃ s,
    Lib.run (Sequencer.incident (.bare .dev) payingGate {}) emptyNode sentBeforeCrash = some s ∧
      s.world.state.blocks.lookup 0 = some .genesis := by
  obtain ⟨s, hrun, -⟩ := (Option.any_eq_true _ _).mp sentBeforeCrash_runs
  have hlater := ledger_append_only (.bare .dev) payingGate {} emptyNode emptyNode s [] _
    emptyNode_booted rfl hrun
  exact ⟨s, hrun, hlater.2.1 0 .genesis (Finmap.lookup_insert _)⟩

theorem queries_agree_restart : ∃ s,
    Lib.run (Sequencer.incident (.bare .dev) payingGate {}) emptyNode sentBeforeCrash = some s ∧
      ∃ tx ∈ s.world.state.transactionsAt 1, tx.messageHash = emptyTransaction.messageHash := by
  obtain ⟨s, hrun, hthen⟩ := (Option.any_eq_true _ _).mp sentBeforeCrash_runs
  have hagree := queries_agree (.bare .dev) payingGate {} emptyNode s _ emptyNode_booted hrun
  exact ⟨s, hrun, (hagree.2.2.1 _ 1 (of_decide_eq_true hthen)).1⟩

end Proof
end Himsha
