import Himsha.Proof.Replication
import Himsha.Proof.Sequencing

/-!
# What a crash leaves

A block is spread over many commits of the database: the slot counter first, then the accounts of
one transaction after the other, then the block, then the index. Only the last of them makes the
database whole again. `Durable` says what it holds at each statement of the producer, and
`AtRest` are the statements between which a crash does no harm.
-/

set_option autoImplicit false

namespace Himsha
namespace Proof

open Himsha.Lib Himsha.Runtime Himsha.Programs Himsha.Vm Himsha.Node

/-- The table after the blocks 1 to `n`, replayed from `genesis`; `none` if one is missing or
    cannot be replayed. -/
def replayTo (m : Machine) (genesis : Accounts) (blocks : Table Nat Block) : Nat → Option Accounts
  | 0 => some genesis
  | n + 1 => (replayTo m genesis blocks n).bind fun t => (blocks.lookup (n + 1)).bind fun block =>
      Lib.run (replayStep m) t (Follower.instructionsOf block)

/-- A database in which the chain, the accounts and the index agree. -/
structure Consistent (m : Machine) (genesis : Accounts) (s : Sequencer) : Prop where
  replays : replayTo m genesis s.world.state.blocks s.world.state.slot =
    some s.world.state.accounts
  stored : ∀ k ≤ s.world.state.slot, (s.world.state.blocks.lookup k).isSome
  indexed : ∀ c ∈ s.commits, (s.world.state.txIdx.lookup c.txid).isSome

/-- No block is open, or it is saved and all that is left of it is in the index already. -/
def AtRest (s : Sequencer) : Prop :=
  match s.producer with
  | .sleeping | .draining _ => True
  | .indexing _ todo | .marking _ _ todo =>
      ∀ tx ∈ todo, (s.world.state.txIdx.lookup tx.messageHash).isSome
  | .executing _ _ | .failing _ _ _ _ | .recording _ _ _ _ | .stopped => False

instance (s : Sequencer) : Decidable (AtRest s) := by
  unfold AtRest
  split <;> infer_instance

/-- The blocks up to `n` are stored and replay to `t`, and none is stored above. -/
structure Chained (m : Machine) (genesis : Accounts) (st : NodeState) (n : Nat) (t : Accounts) :
    Prop where
  replays : replayTo m genesis st.blocks n = some t
  stored : ∀ k ≤ n, (st.blocks.lookup k).isSome
  fresh : ∀ k, n < k → st.blocks.lookup k = none

/-- What is committed and not indexed is among `txs`, and these are committed. -/
structure Covered (s : Sequencer) (txs : List RuntimeTransaction) : Prop where
  commits : ∀ c ∈ s.commits, (s.world.state.txIdx.lookup c.txid).isSome ∨
    c.txid ∈ txs.map (·.messageHash)
  included : ∀ tx ∈ txs, ∃ c ∈ s.commits, c.txid = tx.messageHash

/-- The slot counter is one ahead of the chain, and the accounts are those of the chain with
    `txs` applied. -/
def Open (m : Machine) (genesis : Accounts) (s : Sequencer) (txs : List RuntimeTransaction) :
    Prop :=
  ∃ n t, s.world.state.slot = n + 1 ∧ Chained m genesis s.world.state n t ∧
    Lib.run (replayStep m) t (instructionsIn txs) = some s.world.state.accounts

/-- What the database holds at each statement of the producer. -/
def Durable (m : Machine) (genesis : Accounts) (s : Sequencer) : Prop :=
  match s.producer with
  | .sleeping | .draining _ =>
      Chained m genesis s.world.state s.world.state.slot s.world.state.accounts ∧ Covered s []
  | .executing d _ | .failing d _ _ _ | .recording d _ _ _ =>
      d.slot = s.world.state.slot ∧ Open m genesis s d.included ∧ Covered s d.included
  | .indexing _ todo | .marking _ _ todo =>
      Chained m genesis s.world.state s.world.state.slot s.world.state.accounts ∧ Covered s todo
  | .stopped => ∃ txs, Open m genesis s txs

theorem replayTo_congr {m : Machine} {genesis : Accounts} {blocks blocks' : Table Nat Block} :
    ∀ {n : Nat}, (∀ k ≤ n, blocks'.lookup k = blocks.lookup k) →
      replayTo m genesis blocks' n = replayTo m genesis blocks n := by
  intro n
  induction n with
  | zero => exact fun _ => rfl
  | succ n ih =>
    intro h
    rw [replayTo, replayTo, ih fun k hk => h k (by omega), h (n + 1) (Nat.le_refl _)]

section
variable {m : Machine} {genesis : Accounts} {s s' : Sequencer}

/-- Where the database is durable, it is consistent just between blocks. -/
theorem Durable.consistent_iff (h : Durable m genesis s) : Consistent m genesis s ↔ AtRest s := by
  have hopen : ∀ txs, Open m genesis s txs → ¬ Consistent m genesis s := by
    rintro txs ⟨n, t, hslot, hchain, -⟩ hcons
    have hstored := hcons.stored (n + 1) (by omega)
    rw [hchain.fresh (n + 1) (by omega)] at hstored
    simp at hstored
  have hclosed : ∀ todo, Chained m genesis s.world.state s.world.state.slot
      s.world.state.accounts → Covered s todo →
      (Consistent m genesis s ↔
        ∀ tx ∈ todo, (s.world.state.txIdx.lookup tx.messageHash).isSome) := by
    intro todo hchain hcovered
    constructor
    · intro hcons tx htx
      obtain ⟨c, hc, hid⟩ := hcovered.included tx htx
      exact hid ▸ hcons.indexed c hc
    · intro hindexed
      refine ⟨hchain.replays, hchain.stored, fun c hc => ?_⟩
      rcases hcovered.commits c hc with hdone | hmem
      · exact hdone
      · obtain ⟨tx, htx, hid⟩ := List.mem_map.mp hmem
        exact hid ▸ hindexed tx htx
  unfold Durable at h
  unfold AtRest
  cases hp : s.producer with
  | sleeping | draining batch =>
    rw [hp] at h
    simpa using hclosed [] h.1 h.2
  | indexing slot todo | marking slot tx todo =>
    rw [hp] at h
    exact hclosed todo h.1 h.2
  | executing d todo | failing d tx error todo | recording d tx error todo =>
    rw [hp] at h
    exact iff_of_false (hopen _ h.2.1) id
  | stopped =>
    rw [hp] at h
    obtain ⟨txs, htxs⟩ := h
    exact iff_of_false (hopen txs htxs) id

/-! ## Statements that write nothing of this -/

/-- The accounts, the chain and the index are the same. -/
structure SameDb (st st' : NodeState) : Prop where
  accounts : st'.accounts = st.accounts
  blocks : st'.blocks = st.blocks
  slot : st'.slot = st.slot
  txIdx : st'.txIdx = st.txIdx

theorem SameDb.refl (st : NodeState) : SameDb st st := ⟨rfl, rfl, rfl, rfl⟩

theorem SameDb.of_chain {st st' : NodeState} (h : NodeState.SameChain st st')
    (haccounts : st'.accounts = st.accounts) : SameDb st st' := by
  unfold NodeState.SameChain at h
  exact ⟨haccounts, by rw [h], by rw [h], by rw [h]⟩

theorem Chained.congr {st st' : NodeState} {n : Nat} {t : Accounts}
    (h : Chained m genesis st n t) (hblocks : st'.blocks = st.blocks) :
    Chained m genesis st' n t := by
  obtain ⟨replays, stored, fresh⟩ := h
  rw [← hblocks] at replays stored fresh
  exact ⟨replays, stored, fresh⟩

theorem Covered.congr {txs : List RuntimeTransaction} (h : Covered s txs)
    (htxIdx : s'.world.state.txIdx = s.world.state.txIdx) (hcommits : s'.commits = s.commits) :
    Covered s' txs := by
  obtain ⟨commits, included⟩ := h
  rw [← htxIdx, ← hcommits] at commits
  rw [← hcommits] at included
  exact ⟨commits, included⟩

theorem Open.congr {txs : List RuntimeTransaction} (h : Open m genesis s txs)
    (hdb : SameDb s.world.state s'.world.state) : Open m genesis s' txs := by
  obtain ⟨n, t, hslot, hchain, hrun⟩ := h
  exact ⟨n, t, hdb.slot.trans hslot, hchain.congr hdb.blocks, hdb.accounts ▸ hrun⟩

theorem Chained.same (hdb : SameDb s.world.state s'.world.state)
    (h : Chained m genesis s.world.state s.world.state.slot s.world.state.accounts) :
    Chained m genesis s'.world.state s'.world.state.slot s'.world.state.accounts := by
  rw [hdb.slot, hdb.accounts]
  exact h.congr hdb.blocks

theorem Durable.congr (h : Durable m genesis s) (hdb : SameDb s.world.state s'.world.state)
    (hproducer : s'.producer = s.producer) (hcommits : s'.commits = s.commits) :
    Durable m genesis s' := by
  unfold Durable at h ⊢
  rw [hproducer]
  cases hp : s.producer with
  | sleeping | draining batch | indexing slot todo | marking slot tx todo =>
    rw [hp] at h
    exact ⟨h.1.same hdb, h.2.congr hdb.txIdx hcommits⟩
  | executing d todo | failing d tx error todo | recording d tx error todo =>
    rw [hp] at h
    exact ⟨h.1.trans hdb.slot.symm, h.2.1.congr hdb, h.2.2.congr hdb.txIdx hcommits⟩
  | stopped =>
    rw [hp] at h
    obtain ⟨txs, htxs⟩ := h
    exact ⟨txs, htxs.congr hdb⟩

variable {ex : Executor} {g : Gate}

theorem serve_sameDb {c : SendCall} {phase : CallPhase} (h : s.serve ex g c = some (s', phase)) :
    SameDb s.world.state s'.world.state ∧ s'.producer = s.producer ∧ s'.commits = s.commits := by
  rcases serve_cases h with ⟨-, -, rfl | rfl⟩ | ⟨-, -, rfl⟩ | ⟨-, -, rfl | rfl⟩
  · exact ⟨.refl _, rfl, rfl⟩
  · exact ⟨.of_chain (apply_sameChain s.world) (apply_preflight_stored s.world).accounts, rfl, rfl⟩
  · exact ⟨⟨rfl, rfl, rfl, rfl⟩, rfl, rfl⟩
  · exact ⟨.refl _, rfl, rfl⟩
  · exact ⟨.refl _, rfl, rfl⟩

/-! ## The producer -/

/-- Executing a transaction takes the open block one transaction further, or leaves it. -/
theorem execute_durable {d : Draft} {tx : RuntimeTransaction} {todo : List RuntimeTransaction}
    (h : Durable ex.machine genesis s) (hp : s.producer = .executing d (tx :: todo)) :
    Durable ex.machine genesis (s.execute ex d tx todo) := by
  unfold Durable at h
  rw [hp] at h
  obtain ⟨hslot, hopen, hcovered⟩ := h
  have hchain : NodeState.SameChain s.world.state (ex.apply s.world tx .commit).2.state :=
    apply_sameChain s.world
  unfold Sequencer.execute
  cases happ : ex.apply s.world tx .commit with
  | mk result r =>
    rw [happ] at hchain
    have hdb : SameDb s.world.state { r.state with accounts := s.world.state.accounts } :=
      SameDb.of_chain (by unfold NodeState.SameChain at hchain ⊢; rw [hchain]) rfl
    cases result with
    | ok u =>
      have hok : (ex.apply s.world tx .commit).1 = .ok () := by rw [happ]
      have hreplays := apply_replays hok
      rw [happ] at hreplays
      obtain ⟨n, t, hn, hchained, hrun⟩ := hopen
      refine ⟨hslot.trans hdb.slot.symm, ⟨n, t, hdb.slot.trans hn, hchained.congr hdb.blocks, ?_⟩,
        ⟨fun c hc => ?_, fun tx' htx' => ?_⟩⟩
      · unfold instructionsIn at hrun ⊢
        rw [List.flatMap_append, List.flatMap_cons, List.flatMap_nil, List.append_nil]
        exact run_trans hrun hreplays
      · rcases List.mem_append.mp hc with hc | hc
        · rcases hcovered.commits c hc with hdone | hmem
          · exact .inl (by rw [show r.toWorld.state.txIdx = _ from hdb.txIdx]; exact hdone)
          · exact .inr (by rw [List.map_append]; exact List.mem_append_left _ hmem)
        · rw [List.mem_singleton.mp hc]
          exact .inr (by simp)
      · rcases List.mem_append.mp htx' with htx' | htx'
        · obtain ⟨c, hc, hid⟩ := hcovered.included tx' htx'
          exact ⟨c, List.mem_append_left _ hc, hid⟩
        · rw [List.mem_singleton.mp htx']
          exact ⟨_, List.mem_append_right _ (List.mem_singleton_self _), rfl⟩
    | error e =>
      have hfailed : (ex.apply s.world tx .commit).1 ≠ .ok () := by
        rw [happ]
        simp
      have haccounts := (apply_failed_stored hfailed).accounts
      rw [happ] at haccounts
      have hsame : SameDb s.world.state r.state := .of_chain hchain haccounts
      cases e with
      | error e =>
        exact ⟨hslot.trans hsame.slot.symm, hopen.congr hsame, hcovered.congr hsame.txIdx rfl⟩
      | panic => exact ⟨d.included, hopen.congr hsame⟩

/-- Saving the block closes it. -/
theorem saveBlock_chained {st : NodeState} {n : Nat} {t : Accounts} (block : Block)
    (h : Chained m genesis st n t) (hrun : Lib.run (replayStep m) t
      (Follower.instructionsOf block) = some st.accounts) :
    Chained m genesis (st.saveBlock (n + 1) block) (n + 1) st.accounts := by
  have hlookup : ∀ k, k ≠ n + 1 →
      (st.saveBlock (n + 1) block).blocks.lookup k = st.blocks.lookup k :=
    fun k hk => Finmap.lookup_insert_of_ne _ hk
  have hnew : (st.saveBlock (n + 1) block).blocks.lookup (n + 1) = some block :=
    Finmap.lookup_insert _
  refine ⟨?_, fun k hk => ?_, fun k hk => ?_⟩
  · rw [replayTo, replayTo_congr fun k hk => hlookup k (by omega), h.replays, hnew]
    exact hrun
  · rcases Nat.lt_or_eq_of_le hk with hlt | rfl
    · rw [hlookup k (by omega)]
      exact h.stored k (by omega)
    · rw [hnew]
      rfl
  · rw [hlookup k (by omega)]
    exact h.fresh k (by omega)

/-- Indexing a transaction of the block covers it. -/
theorem indexTransaction_covered (slot : Nat) {tx : RuntimeTransaction}
    {todo : List RuntimeTransaction} (h : Covered s (tx :: todo))
    (hs' : s'.world.state = s.world.state.indexTransaction tx.messageHash slot)
    (hcommits : s'.commits = s.commits) : Covered s' todo := by
  have hlookup : ∀ txid, (s'.world.state.txIdx.lookup txid).isSome ↔
      txid = tx.messageHash ∨ (s.world.state.txIdx.lookup txid).isSome := by
    intro txid
    rw [hs']
    unfold NodeState.indexTransaction
    by_cases hid : txid = tx.messageHash
    · subst hid
      simp [Finmap.lookup_insert]
    · simp [Finmap.lookup_insert_of_ne _ hid, hid]
  refine ⟨fun c hc => ?_, fun tx' htx' => ?_⟩
  · rw [hlookup]
    rw [hcommits] at hc
    rcases h.commits c hc with hdone | hmem
    · exact .inl (.inr hdone)
    · rcases List.mem_cons.mp hmem with hid | hmem
      · exact .inl (.inl hid)
      · exact .inr hmem
  · rw [hcommits]
    exact h.included tx' (List.mem_cons_of_mem _ htx')

/-- **Every statement of the producer keeps the database durable.** -/
theorem produce_durable {now : UInt64} (hd : Durable ex.machine genesis s)
    (h : s.produce ex now = some s') : Durable ex.machine genesis s' := by
  have hdurable := hd
  unfold Durable at hd
  unfold Sequencer.produce at h
  cases hp : s.producer with
  | sleeping =>
    simp only [hp, Option.some.injEq] at h hd
    subst h
    exact ⟨hd.1.congr rfl, hd.2.congr rfl rfl⟩
  | draining batch =>
    simp only [hp] at h hd
    split at h
    · rw [← Option.some.inj h]
      exact ⟨hd.1.congr rfl, hd.2.congr rfl rfl⟩
    · split at h
      · rw [← Option.some.inj h]
        exact ⟨hd.1.congr rfl, hd.2.congr rfl rfl⟩
      · rw [← Option.some.inj h]
        obtain ⟨hchain, hcovered⟩ := hd
        exact ⟨rfl, ⟨_, _, rfl, hchain.congr rfl, rfl⟩, hcovered.congr rfl rfl⟩
  | executing d todo =>
    cases todo with
    | cons tx todo =>
      simp only [hp, Option.some.injEq] at h
      subst h
      exact execute_durable hdurable hp
    | nil =>
      simp only [hp, Option.some.injEq] at h hd
      subst h
      obtain ⟨hslot, ⟨n, t, hn, hchain, hrun⟩, hcovered⟩ := hd
      refine ⟨?_, hcovered.congr rfl rfl⟩
      have hsaved := saveBlock_chained (Block.newWithRoot d.slot (d.slot - 1) d.included
        d.timestamp s.world.state.computeStateRoot) hchain hrun
      rw [← hn, ← hslot] at hsaved
      change Chained ex.machine genesis _ s.world.state.slot _
      rw [← hslot]
      exact hsaved
  | failing d tx error todo =>
    simp only [hp] at h hd
    split at h
    · rw [← Option.some.inj h]
      exact ⟨hd.1, hd.2.1.congr (.refl _), hd.2.2.congr rfl rfl⟩
    · rw [← Option.some.inj h]
      exact ⟨hd.1, hd.2.1.congr (.refl _), hd.2.2.congr rfl rfl⟩
  | recording d tx error todo =>
    simp only [hp, Option.some.injEq] at h hd
    subst h
    exact ⟨hd.1, hd.2.1.congr ⟨rfl, rfl, rfl, rfl⟩, hd.2.2.congr rfl rfl⟩
  | indexing slot todo =>
    cases todo with
    | cons tx todo =>
      simp only [hp, Option.some.injEq] at h hd
      subst h
      exact ⟨hd.1.congr rfl, indexTransaction_covered slot hd.2 rfl rfl⟩
    | nil =>
      simp only [hp, Option.some.injEq] at h hd
      subst h
      exact ⟨hd.1.congr rfl, hd.2.congr rfl rfl⟩
  | marking slot tx todo =>
    simp only [hp, Option.some.injEq] at h hd
    subst h
    exact ⟨hd.1.congr rfl, hd.2.congr rfl rfl⟩
  | stopped => simp [hp] at h

theorem step_durable {a : Action} (hd : Durable ex.machine genesis s)
    (h : s.step ex g a = some s') : Durable ex.machine genesis s' := by
  cases a with
  | submit tx =>
    simp only [Sequencer.step, Option.some.injEq] at h
    subst h
    exact hd.congr (.refl _) rfl rfl
  | serve i =>
    obtain ⟨c, s₁, phase, -, hserve, rfl⟩ := step_serve h
    obtain ⟨hdb, hproducer, hcommits⟩ := serve_sameDb hserve
    exact hd.congr hdb hproducer hcommits
  | produce now => exact produce_durable hd h
  | election c =>
    obtain ⟨election, -, rfl⟩ := Option.map_eq_some_iff.mp h
    exact hd.congr (.refl _) rfl rfl

theorem Durable.chained (h : Durable m genesis s) (hrest : AtRest s) :
    Chained m genesis s.world.state s.world.state.slot s.world.state.accounts := by
  unfold Durable at h
  unfold AtRest at hrest
  cases hp : s.producer with
  | sleeping | draining batch | indexing slot todo | marking slot tx todo =>
    rw [hp] at h
    exact h.1
  | executing d todo | failing d tx error todo | recording d tx error todo | stopped =>
    rw [hp] at hrest
    exact hrest.elim

/-- A crash between blocks leaves a database to start on. -/
theorem reopened_durable {boot : ElectionState} (h : Durable m genesis s) (hrest : AtRest s) :
    Durable m genesis (s.reopened boot) :=
  ⟨(h.chained hrest).congr rfl,
    ⟨fun c hc => .inl ((h.consistent_iff.mpr hrest).indexed c hc), by simp⟩⟩

end

/-! ## Runs with crashes -/

/-- A node that is about to produce, on a database that is consistent and ends at its slot. -/
structure Ready (m : Machine) (genesis : Accounts) (s : Sequencer) : Prop where
  consistent : Consistent m genesis s
  fresh : ∀ k, s.world.state.slot < k → s.world.state.blocks.lookup k = none
  producer : s.producer = .sleeping

theorem Ready.durable {m : Machine} {genesis : Accounts} {s : Sequencer} (h : Ready m genesis s) :
    Durable m genesis s := by
  unfold Durable
  rw [h.producer]
  exact ⟨⟨h.consistent.replays, h.consistent.stored, h.fresh⟩,
    ⟨fun c hc => .inl (h.consistent.indexed c hc), by simp⟩⟩

/-- A crash comes between blocks. -/
def CrashesAtRest (s : Sequencer) : Incident → Prop
  | .act _ => True
  | .crash => AtRest s

instance (s : Sequencer) (i : Incident) : Decidable (CrashesAtRest s i) := by
  unfold CrashesAtRest
  split <;> infer_instance

/-- **What survives a crash.** In every run of a node, of any calls and batches, in which it has
    crashed between blocks only: a crash now leaves a database whose accounts are its blocks
    replayed, with a block for every slot and every commit in the index, if and only if it
    comes between blocks as well. -/
theorem crash_consistent_iff (ex : Executor) (g : Gate) (boot : ElectionState)
    (genesis : Accounts) (s₀ s : Sequencer) (incidents : List Incident)
    (hready : Ready ex.machine genesis s₀)
    (hmeets : Meets (Sequencer.incident ex g boot) CrashesAtRest s₀ incidents)
    (hrun : Lib.run (Sequencer.incident ex g boot) s₀ incidents = some s) :
    Consistent ex.machine genesis (s.reopened boot) ↔ AtRest s := by
  have hdurable : Durable ex.machine genesis s := by
    refine run_invariant (fun s i s' hok hI hstep => ?_) hmeets hready.durable hrun
    cases i with
    | act a => exact step_durable hI hstep
    | crash =>
      simp only [Sequencer.incident, Option.some.injEq] at hstep
      subst hstep
      exact reopened_durable hI hok
  rw [← hdurable.consistent_iff]
  exact ⟨fun h => ⟨h.replays, h.stored, h.indexed⟩, fun h => ⟨h.replays, h.stored, h.indexed⟩⟩

theorem payingNode_ready :
    Ready (Executor.bare .dev).machine payingNode.world.state.accounts payingNode := by
  refine ⟨⟨rfl, fun k hk => ?_, by simp [payingNode]⟩, fun k hk => ?_, rfl⟩
  · obtain rfl : k = 0 := Nat.le_zero.mp hk
    rfl
  · exact Finmap.lookup_insert_of_ne _ (by exact Nat.ne_of_gt hk)

/-- A payment is sent and put in a block. -/
def settledPayment : List Incident :=
  ([.submit payment] ++ serves 0 6 ++ produces 7 : List Action).map .act

/-- The process crashes after the block, and goes on. -/
theorem crash_consistent_restart : ∃ s,
    Lib.run (Sequencer.incident (.bare .dev) payingGate {}) payingNode
        (settledPayment ++ [.crash]) = some s ∧
      s.world.state.loadAccount (.repeated 2) = some (wallet 250) ∧
      Consistent (Executor.bare .dev).machine payingNode.world.state.accounts
        (s.reopened {}) := by
  have hcheck : (Lib.run (Sequencer.incident (.bare .dev) payingGate {}) payingNode
      (settledPayment ++ [.crash])).any (fun s =>
        s.world.state.loadAccount (.repeated 2) = some (wallet 250) ∧ AtRest s) = true := by
    decide +kernel
  have hmeets : Meets (Sequencer.incident (.bare .dev) payingGate {}) CrashesAtRest payingNode
      (settledPayment ++ [.crash]) := by
    decide +kernel
  obtain ⟨s, hrun, hthen⟩ := (Option.any_eq_true _ _).mp hcheck
  obtain ⟨hpaid, hrest⟩ := of_decide_eq_true hthen
  exact ⟨s, hrun, hpaid, (crash_consistent_iff (.bare .dev) payingGate {} _ _ _ _
    payingNode_ready hmeets hrun).mpr hrest⟩

/-- The process crashes once the payment is executed and before its block is saved. -/
def halfProduced : List Incident :=
  ([.submit payment] ++ serves 0 6 ++ produces 4 : List Action).map .act

/-- **A crash that leaves a torn database**: the payment is in the accounts and not in the index,
    and the slot it was made in has no block. -/
theorem torn_by_crash :
    Ready (Executor.bare .dev).machine payingNode.world.state.accounts payingNode ∧ ∃ s,
    Lib.run (Sequencer.incident (.bare .dev) payingGate {}) payingNode
        (halfProduced ++ [.crash]) = some s ∧
      s.world.state.slot = 1 ∧ s.world.state.blocks.lookup 1 = none ∧
      s.world.state.loadAccount (.repeated 2) = some (wallet 250) ∧
      s.world.state.txSlot payment.messageHash = none ∧
      ¬ Consistent (Executor.bare .dev).machine payingNode.world.state.accounts s := by
  have hcheck : (Lib.run (Sequencer.incident (.bare .dev) payingGate {}) payingNode
      (halfProduced ++ [.crash])).any (fun s =>
        s.world.state.slot = 1 ∧ s.world.state.blocks.lookup 1 = none ∧
        s.world.state.loadAccount (.repeated 2) = some (wallet 250) ∧
        s.world.state.txSlot payment.messageHash = none) = true := by
    decide +kernel
  obtain ⟨s, hrun, hthen⟩ := (Option.any_eq_true _ _).mp hcheck
  obtain ⟨hslot, hblock, hpaid, hindex⟩ := of_decide_eq_true hthen
  refine ⟨payingNode_ready, s, hrun, hslot, hblock, hpaid, hindex, fun hcons => ?_⟩
  have hstored := hcons.stored 1 (by omega)
  rw [hblock] at hstored
  simp at hstored

end Proof
end Himsha
