import Himsha.Proof.Crash

/-!
# The time that programs see

A program is given the timestamp of the message it runs for, which its submitter chose. So the
times along a chain are in order, and none is ahead of its block, where the submissions come in
order and the clock of the producer is not behind what it has drained. `Timely` says so of the
steps of a run, and `OnTime` is what such a run keeps: the blocks, the block in the making and the
queue are one line of times that never decrease.
-/

set_option autoImplicit false

namespace Himsha
namespace Proof

open Himsha.Lib Himsha.Runtime Himsha.Programs Himsha.Vm Himsha.Node

/-- The programs that read the time. -/
def timedPrograms : List Pubkey :=
  [ProgramIds.lendingProgram, ProgramIds.runesProgram, ProgramIds.moneyMarketProgram,
    ProgramIds.vaultProgram, ProgramIds.oracleProgram]

/-- The time every program is given when a transaction runs. -/
def programTime (tx : RuntimeTransaction) : UInt64 := tx.message.timestamp

/-- The times that the programs which read it are given, in the order they run. -/
def programTimes (tx : RuntimeTransaction) : List UInt64 :=
  (tx.message.instructions.filter fun instr => instr.programId ∈ timedPrograms).map
    fun _ => programTime tx

/-- The same along a list of transactions. -/
def times (txs : List RuntimeTransaction) : List UInt64 := txs.flatMap programTimes

/-- The times of a block are at most that of the block, and along the chain they never
    decrease. -/
structure BlockTimes (blocks : Table Nat Block) : Prop where
  bounded : ∀ n b, blocks.lookup n = some b → ∀ t ∈ times b.transactions, t ≤ b.timestamp
  sorted : ∀ n b, blocks.lookup n = some b → (times b.transactions).Pairwise (· ≤ ·)
  ordered : ∀ m n b b', m < n → blocks.lookup m = some b → blocks.lookup n = some b' →
    ∀ t ∈ times b.transactions, ∀ t' ∈ times b'.transactions, t ≤ t'

/-! ## What a transaction is given -/

section
variable {m m' : Machine} {o : Outside} {tx : RuntimeTransaction} {mode : Mode}

/-- Machines that agree on what they do at a time. -/
def AgreeAt (m m' : Machine) (t : UInt64) : Prop :=
  ∀ programId accounts data,
    executeProgram m programId ⟨accounts, data, t⟩ [] =
      executeProgram m' programId ⟨accounts, data, t⟩ []

theorem applyInstruction_agree (h : AgreeAt m m' (programTime tx)) (instr : Instruction) :
    Executor.applyInstruction ⟨m, o⟩ mode tx instr =
      Executor.applyInstruction ⟨m', o⟩ mode tx instr := by
  have hrun : ∀ accounts, Executor.runProgram ⟨m, o⟩ tx instr accounts =
      Executor.runProgram ⟨m', o⟩ tx instr accounts := by
    intro accounts
    have hexec := h instr.programId accounts instr.data
    unfold Executor.runProgram
    dsimp only
    rw [show executeProgram m instr.programId ⟨accounts, instr.data, tx.message.timestamp⟩ [] =
      executeProgram m' instr.programId ⟨accounts, instr.data, tx.message.timestamp⟩ [] from hexec]
  unfold Executor.applyInstruction
  simp only [hrun]
  rfl

/-- What a transaction does depends on its programs at its own time only. -/
theorem apply_agree (h : AgreeAt m m' (programTime tx)) (w : World) :
    Executor.apply ⟨m, o⟩ w tx mode = Executor.apply ⟨m', o⟩ w tx mode := by
  have hall : ∀ instrs, Executor.applyInstructions ⟨m, o⟩ mode tx instrs =
      Executor.applyInstructions ⟨m', o⟩ mode tx instrs := by
    intro instrs
    induction instrs with
    | nil => rfl
    | cons instr instrs ih =>
      unfold Executor.applyInstructions
      rw [applyInstruction_agree h instr, ih]
  unfold Executor.apply Executor.run
  rw [hall]

end

/-! ## The line -/

/-- The block in the making, and what is still to be executed for it. -/
def drafting : Producer → Option (Draft × List RuntimeTransaction)
  | .executing d todo | .failing d _ _ todo | .recording d _ _ todo => some (d, todo)
  | .sleeping | .draining _ | .indexing _ _ | .marking _ _ _ | .stopped => none

/-- What the producer holds that is not in a block yet. -/
def inHand : Producer → List RuntimeTransaction
  | .draining batch => batch
  | .executing d todo | .failing d _ _ todo | .recording d _ _ todo => d.included ++ todo
  | .sleeping | .indexing _ _ | .marking _ _ _ | .stopped => []

/-- What is on its way into a block, first to last. -/
def pipeline (s : Sequencer) : List RuntimeTransaction := inHand s.producer ++ s.queue

/-- The blocks, the block in the making and the queue are one line of times. -/
structure OnTime (s : Sequencer) : Prop where
  chain : BlockTimes s.world.state.blocks
  slots : ∀ n b, s.world.state.blocks.lookup n = some b → n ≤ s.world.state.slot
  sorted : (times (pipeline s)).Pairwise (· ≤ ·)
  after : ∀ n b, s.world.state.blocks.lookup n = some b → ∀ t ∈ times b.transactions,
    ∀ t' ∈ times (pipeline s), t ≤ t'
  draft : ∀ d todo, drafting s.producer = some (d, todo) → d.slot = s.world.state.slot ∧
    (∀ n b, s.world.state.blocks.lookup n = some b → n < d.slot) ∧
    ∀ t ∈ times (d.included ++ todo), t ≤ d.timestamp

/-- The next statement of the call is the send into the queue. -/
def sending (c : SendCall) : Bool :=
  match c.phase with
  | .accepted => true
  | _ => false

/-- A submission enters the queue with a time that is not before any in the line, and a batch is
    closed when the clock is not behind a time in it. -/
def Timely (s : Sequencer) : Incident → Prop
  | .act (.serve i) => ∀ c ∈ s.calls[i]?, sending c = true → ∀ t' ∈ programTimes c.tx,
      (∀ n ∈ s.world.state.blocks.keys, ∀ b ∈ s.world.state.blocks.lookup n,
        ∀ t ∈ times b.transactions, t ≤ t') ∧
      ∀ t ∈ times (pipeline s), t ≤ t'
  | .act (.produce now) =>
      match s.producer with
      | .draining batch => s.queue = [] → ∀ t ∈ times batch, t ≤ now
      | _ => True
  | _ => True

theorem times_append (txs txs' : List RuntimeTransaction) :
    times (txs ++ txs') = times txs ++ times txs' := List.flatMap_append

theorem times_sublist {txs txs' : List RuntimeTransaction} (h : txs.Sublist txs') :
    (times txs).Sublist (times txs') := h.flatMap programTimes

section
variable {ex : Executor} {g : Gate} {s s' : Sequencer}

/-- A step that moves no block and adds nothing to the line. -/
theorem OnTime.shrink (h : OnTime s) (hblocks : s'.world.state.blocks = s.world.state.blocks)
    (hslot : s'.world.state.slot = s.world.state.slot)
    (hline : (pipeline s').Sublist (pipeline s))
    (hdraft : ∀ d' todo', drafting s'.producer = some (d', todo') → ∃ d todo,
      drafting s.producer = some (d, todo) ∧ d'.slot = d.slot ∧ d'.timestamp = d.timestamp ∧
        (d'.included ++ todo').Sublist (d.included ++ todo)) : OnTime s' := by
  have htimes := times_sublist hline
  refine ⟨hblocks ▸ h.chain, ?_, h.sorted.sublist htimes, ?_, ?_⟩
  · rw [hblocks, hslot]
    exact h.slots
  · rw [hblocks]
    intro n b hb t ht t' ht'
    exact h.after n b hb t ht t' (htimes.subset ht')
  · intro d' todo' hd'
    obtain ⟨d, todo, hd, hslots, hstamp, hsub⟩ := hdraft d' todo' hd'
    obtain ⟨hcurrent, hnew, hbound⟩ := h.draft d todo hd
    rw [hslot, hblocks, hslots, hstamp]
    exact ⟨hcurrent, hnew, fun t ht => hbound t ((times_sublist hsub).subset ht)⟩

/-- A step that leaves the producer and the queue alone. -/
theorem OnTime.congr (h : OnTime s) (hblocks : s'.world.state.blocks = s.world.state.blocks)
    (hslot : s'.world.state.slot = s.world.state.slot) (hproducer : s'.producer = s.producer)
    (hqueue : s'.queue = s.queue) : OnTime s' := by
  refine h.shrink hblocks hslot ?_ ?_
  · unfold pipeline
    rw [hproducer, hqueue]
  · intro d' todo' hd'
    rw [hproducer] at hd'
    exact ⟨d', todo', hd', rfl, rfl, .refl _⟩

/-! ## Calls -/

theorem serve_queue {c : SendCall} {phase : CallPhase} (h : s.serve ex g c = some (s', phase)) :
    s'.queue = s.queue ∨ c.phase = .accepted ∧ s'.queue = s.queue ++ [c.tx] := by
  rcases serve_cases h with ⟨-, -, rfl | rfl⟩ | ⟨-, -, rfl⟩ | ⟨hphase, -, rfl | rfl⟩
  · exact .inl rfl
  · exact .inl rfl
  · exact .inl rfl
  · exact .inl rfl
  · exact .inr ⟨hphase, rfl⟩

/-- A submission that comes in order goes to the end of the line. -/
theorem serve_onTime {i : Nat} (h : OnTime s) (hok : Timely s (.act (.serve i)))
    (hstep : s.step ex g (.serve i) = some s') : OnTime s' := by
  obtain ⟨c, s₁, phase, hc, hserve, rfl⟩ := step_serve hstep
  obtain ⟨hdb, hproducer, -⟩ := serve_sameDb hserve
  rcases serve_queue hserve with hqueue | ⟨hphase, hqueue⟩
  · exact h.congr hdb.blocks hdb.slot hproducer hqueue
  · have htimely : ∀ t' ∈ programTimes c.tx,
        (∀ n b, s.world.state.blocks.lookup n = some b → ∀ t ∈ times b.transactions, t ≤ t') ∧
          ∀ t ∈ times (pipeline s), t ≤ t' := by
      intro t' ht'
      have hsending : sending c = true := by rw [sending, hphase]
      obtain ⟨hblocks, hline⟩ := hok c hc hsending t' ht'
      refine ⟨fun n b hb => hblocks n ?_ b hb, hline⟩
      exact Finmap.mem_keys.mpr (Finmap.mem_iff.mpr ⟨b, hb⟩)
    have hline : times (pipeline { s₁ with calls := s₁.calls.set i { c with phase } }) =
        times (pipeline s) ++ programTimes c.tx := by
      have hpipe : pipeline { s₁ with calls := s₁.calls.set i { c with phase } } =
          pipeline s ++ [c.tx] := by
        unfold pipeline
        rw [hproducer, hqueue, List.append_assoc]
      rw [hpipe, times_append]
      simp [times]
    refine ⟨?_, ?_, ?_, ?_, ?_⟩
    · exact hdb.blocks ▸ h.chain
    · intro n b hb
      rw [hdb.blocks] at hb
      exact hdb.slot ▸ h.slots n b hb
    · rw [hline, List.pairwise_append]
      refine ⟨h.sorted, ?_, fun t ht t' ht' => (htimely t' ht').2 t ht⟩
      unfold programTimes
      exact List.pairwise_map.mpr (List.pairwise_of_forall fun _ _ => UInt64.le_refl _)
    · intro n b hb t ht t' ht'
      rw [hdb.blocks] at hb
      rw [hline, List.mem_append] at ht'
      rcases ht' with ht' | ht'
      · exact h.after n b hb t ht t' ht'
      · exact (htimely t' ht').1 n b hb t ht
    · intro d todo hd
      rw [hproducer] at hd
      rw [hdb.slot, hdb.blocks]
      exact h.draft d todo hd

/-! ## The producer -/

theorem execute_onTime {d : Draft} {tx : RuntimeTransaction} {todo : List RuntimeTransaction}
    (h : OnTime s) (hp : s.producer = .executing d (tx :: todo)) :
    OnTime (s.execute ex d tx todo) := by
  have hchain : NodeState.SameChain s.world.state (ex.apply s.world tx .commit).2.state :=
    apply_sameChain s.world
  have hdrop : (d.included ++ todo).Sublist (d.included ++ tx :: todo) :=
    List.Sublist.append_left (List.sublist_cons_self tx todo) d.included
  unfold Sequencer.execute
  cases happ : ex.apply s.world tx .commit with
  | mk result r =>
    rw [happ] at hchain
    have hblocks : r.state.blocks = s.world.state.blocks := by
      rw [show r.state = _ from hchain]
    have hslot : r.state.slot = s.world.state.slot := by
      rw [show r.state = _ from hchain]
    cases result with
    | ok u =>
      have hsame : d.included ++ [tx] ++ todo = d.included ++ tx :: todo :=
        List.append_assoc d.included [tx] todo
      refine h.shrink hblocks hslot ?_ ?_
      · unfold pipeline
        rw [hp]
        show (d.included ++ [tx] ++ todo ++ s.queue).Sublist _
        rw [hsame]
        exact .refl _
      · intro d' todo' hd'
        cases hd'
        exact ⟨d, tx :: todo, by rw [hp]; rfl, rfl, rfl, by rw [hsame]⟩
    | error e =>
      cases e with
      | error e =>
        refine h.shrink hblocks hslot ?_ ?_
        · unfold pipeline
          rw [hp]
          exact hdrop.append_right s.queue
        · intro d' todo' hd'
          cases hd'
          exact ⟨d, tx :: todo, by rw [hp]; rfl, rfl, rfl, hdrop⟩
      | panic =>
        refine h.shrink hblocks hslot (List.nil_sublist _) fun d' todo' hd' => ?_
        cases hd'

/-- The block that is saved is next in line. -/
theorem saveBlock_onTime {d : Draft} {block : Block} (h : OnTime s)
    (hp : s.producer = .executing d []) (htxs : block.transactions = d.included)
    (hstamp : block.timestamp = d.timestamp) {slot : Nat} {todo : List RuntimeTransaction} :
    OnTime { s.onState (·.saveBlock d.slot block) with producer := .indexing slot todo } := by
  obtain ⟨hslot, hnew, hbound⟩ := h.draft d [] (by rw [hp]; rfl)
  have hline : pipeline s = d.included ++ s.queue := by
    unfold pipeline
    rw [hp]
    show d.included ++ [] ++ s.queue = _
    rw [List.append_nil]
  have hsorted := h.sorted
  have hafter := h.after
  rw [hline, times_append, List.pairwise_append] at hsorted
  obtain ⟨hmine, hqueue, hbefore⟩ := hsorted
  rw [List.append_nil] at hbound
  have hlookup : ∀ n b, (s.world.state.blocks.insert d.slot block).lookup n = some b →
      n = d.slot ∧ b = block ∨ n < d.slot ∧ s.world.state.blocks.lookup n = some b := by
    intro n b hb
    by_cases hn : n = d.slot
    · subst hn
      rw [Finmap.lookup_insert, Option.some.injEq] at hb
      exact .inl ⟨rfl, hb.symm⟩
    · rw [Finmap.lookup_insert_of_ne _ hn] at hb
      exact .inr ⟨hnew n b hb, hb⟩
  have hold : ∀ n b, s.world.state.blocks.lookup n = some b → ∀ t ∈ times b.transactions,
      ∀ t' ∈ times d.included ++ times s.queue, t ≤ t' := by
    intro n b hb t ht t' ht'
    refine hafter n b hb t ht t' ?_
    rw [hline, times_append]
    exact ht'
  refine ⟨⟨?_, ?_, ?_⟩, ?_, hqueue, ?_, fun d' todo' hd' => by cases hd'⟩
  · intro n b hb t ht
    rcases hlookup n b hb with ⟨-, rfl⟩ | ⟨-, hb⟩
    · rw [hstamp]
      exact hbound t (htxs ▸ ht)
    · exact h.chain.bounded n b hb t ht
  · intro n b hb
    rcases hlookup n b hb with ⟨-, rfl⟩ | ⟨-, hb⟩
    · rw [htxs]
      exact hmine
    · exact h.chain.sorted n b hb
  · intro m n b b' hmn hb hb' t ht t' ht'
    rcases hlookup m b hb with ⟨rfl, -⟩ | ⟨-, hm⟩
    · rcases hlookup n b' hb' with ⟨rfl, -⟩ | ⟨hn, -⟩
      · exact absurd hmn (Nat.lt_irrefl _)
      · exact absurd hn (Nat.lt_asymm hmn)
    · rcases hlookup n b' hb' with ⟨-, rfl⟩ | ⟨-, hn⟩
      · rw [htxs] at ht'
        exact hold m b hm t ht t' (List.mem_append_left _ ht')
      · exact h.chain.ordered m n b b' hmn hm hn t ht t' ht'
  · intro n b hb
    show n ≤ s.world.state.slot
    rw [← hslot]
    rcases hlookup n b hb with ⟨rfl, -⟩ | ⟨hn, -⟩
    · exact Nat.le_refl _
    · exact Nat.le_of_lt hn
  · intro n b hb t ht t' ht'
    have hin : t' ∈ times s.queue := ht'
    rcases hlookup n b hb with ⟨-, rfl⟩ | ⟨-, hb⟩
    · rw [htxs] at ht
      exact hbefore t ht t' hin
    · exact hold n b hb t ht t' (List.mem_append_right _ hin)

/-- Every statement of the producer keeps the line. -/
theorem produce_onTime {now : UInt64} (h : OnTime s) (hok : Timely s (.act (.produce now)))
    (hstep : s.produce ex now = some s') : OnTime s' := by
  have hline := h
  unfold Sequencer.produce at hstep
  cases hp : s.producer with
  | sleeping =>
    simp only [hp, Option.some.injEq] at hstep
    subst hstep
    refine h.shrink rfl rfl ?_ fun d' todo' hd' => by cases hd'
    unfold pipeline
    rw [hp]
    exact .refl _
  | draining batch =>
    simp only [hp] at hstep
    split at hstep
    · rename_i tx queue hqueue
      rw [← Option.some.inj hstep]
      refine h.shrink rfl rfl ?_ fun d' todo' hd' => by cases hd'
      unfold pipeline
      rw [hp, hqueue]
      show (batch ++ [tx] ++ queue).Sublist (batch ++ tx :: queue)
      rw [List.append_assoc]
      exact .refl _
    · rename_i hqueue
      split at hstep
      · rw [← Option.some.inj hstep]
        refine h.shrink rfl rfl ?_ fun d' todo' hd' => by cases hd'
        exact List.sublist_append_right _ _
      · rw [← Option.some.inj hstep]
        have hclock : ∀ t ∈ times batch, t ≤ now := by
          unfold Timely at hok
          rw [hp] at hok
          exact hok hqueue
        have hsame : ∀ state, pipeline { s.onState (fun _ => state) with
            producer := .executing { slot := s.world.state.slot + 1, timestamp := now } batch } =
              pipeline s := by
          intro state
          unfold pipeline
          rw [hp]
          rfl
        refine ⟨h.chain, ?_, ?_, ?_, ?_⟩
        · exact fun n b hb => Nat.le_succ_of_le (h.slots n b hb)
        · exact (hsame _).symm ▸ h.sorted
        · intro n b hb t ht t' ht'
          exact h.after n b hb t ht t' (hsame _ ▸ ht')
        · intro d' todo' hd'
          cases hd'
          exact ⟨rfl, fun n b hb => Nat.lt_succ_of_le (h.slots n b hb), hclock⟩
  | executing d todo =>
    cases todo with
    | cons tx todo =>
      simp only [hp, Option.some.injEq] at hstep
      subst hstep
      exact execute_onTime h hp
    | nil =>
      simp only [hp, Option.some.injEq] at hstep
      subst hstep
      exact saveBlock_onTime h hp rfl rfl
  | failing d tx error todo =>
    simp only [hp] at hstep
    have hsame : ∀ producer, inHand producer = d.included ++ todo →
        drafting producer = some (d, todo) → OnTime { s with producer } := by
      intro producer hheld hdraft
      refine h.shrink rfl rfl ?_ fun d' todo' hd' => ?_
      · unfold pipeline
        rw [hp, hheld]
        exact .refl _
      · rw [hdraft] at hd'
        cases hd'
        exact ⟨d, todo, by rw [hp]; rfl, rfl, rfl, .refl _⟩
    split at hstep
    · rw [← Option.some.inj hstep]
      exact hsame _ rfl rfl
    · rw [← Option.some.inj hstep]
      exact hsame _ rfl rfl
  | recording d tx error todo =>
    simp only [hp, Option.some.injEq] at hstep
    subst hstep
    refine h.shrink rfl rfl ?_ fun d' todo' hd' => ?_
    · unfold pipeline
      rw [hp]
      exact .refl _
    · cases hd'
      exact ⟨d, todo, by rw [hp]; rfl, rfl, rfl, .refl _⟩
  | indexing slot todo =>
    cases todo with
    | cons tx todo =>
      simp only [hp, Option.some.injEq] at hstep
      subst hstep
      refine h.shrink rfl rfl ?_ fun d' todo' hd' => by cases hd'
      exact List.sublist_append_right _ _
    | nil =>
      simp only [hp, Option.some.injEq] at hstep
      subst hstep
      refine h.shrink rfl rfl ?_ fun d' todo' hd' => by cases hd'
      exact List.sublist_append_right _ _
  | marking slot tx todo =>
    simp only [hp, Option.some.injEq] at hstep
    subst hstep
    refine h.shrink rfl rfl ?_ fun d' todo' hd' => by cases hd'
    exact List.sublist_append_right _ _
  | stopped => simp [hp] at hstep

/-- **Every step of a timely run keeps the line**, a crash included, which empties it. -/
theorem incident_onTime {boot : ElectionState} {i : Incident} (h : OnTime s) (hok : Timely s i)
    (hstep : s.incident ex g boot i = some s') : OnTime s' := by
  cases i with
  | crash =>
    simp only [Sequencer.incident, Option.some.injEq] at hstep
    subst hstep
    exact h.shrink rfl rfl (List.nil_sublist _) fun d' todo' hd' => by cases hd'
  | act a =>
    cases a with
    | submit tx =>
      simp only [Sequencer.incident, Sequencer.step, Option.some.injEq] at hstep
      subst hstep
      exact h.congr rfl rfl rfl rfl
    | serve i => exact serve_onTime h hok hstep
    | produce now => exact produce_onTime h hok hstep
    | election c =>
      obtain ⟨election, -, rfl⟩ := Option.map_eq_some_iff.mp hstep
      exact h.congr rfl rfl rfl rfl

end

/-! ## Runs -/

/-- A node that is about to produce, on a chain whose times are in order. -/
structure Punctual (s : Sequencer) : Prop where
  chain : BlockTimes s.world.state.blocks
  slots : ∀ n b, s.world.state.blocks.lookup n = some b → n ≤ s.world.state.slot
  producer : s.producer = .sleeping
  queue : s.queue = []

theorem Punctual.onTime {s : Sequencer} (h : Punctual s) : OnTime s := by
  have hline : pipeline s = [] := by
    unfold pipeline
    rw [h.producer, h.queue]
    rfl
  refine ⟨h.chain, h.slots, ?_, ?_, ?_⟩
  · rw [hline]
    exact List.Pairwise.nil
  · intro n b _ t _ t' ht'
    rw [hline] at ht'
    cases ht'
  · intro d todo hd
    rw [h.producer] at hd
    cases hd

/-- **When programs see block time.** A program is given the time of its message and no other. In
    every run of a node in which submissions come in order and no batch is ahead of the clock, with
    crashes at any point, the times that programs are given for the transactions of a block are at
    most that of the block, and they never decrease along the chain. -/
theorem block_time (ex : Executor) (g : Gate) (boot : ElectionState) (s₀ s : Sequencer)
    (incidents : List Incident) (hstart : Punctual s₀)
    (hmeets : Meets (Sequencer.incident ex g boot) Timely s₀ incidents)
    (hrun : Lib.run (Sequencer.incident ex g boot) s₀ incidents = some s) :
    BlockTimes s.world.state.blocks ∧
    ∀ (m' : Machine) (w : World) (tx : RuntimeTransaction) (mode : Mode),
      AgreeAt ex.machine m' (programTime tx) →
      ex.apply w tx mode = Executor.apply ⟨m', ex.outside⟩ w tx mode := by
  constructor
  · exact (run_invariant (fun s i s' hok hI hstep => incident_onTime hI hok hstep) hmeets
      hstart.onTime hrun).chain
  · intro m' w tx mode hagree
    exact apply_agree hagree w

/-- The sender opens a price feed, and puts `timestamp` in the message. -/
def openFeed (timestamp : UInt64) : RuntimeTransaction :=
  let tx := signedBy [.repeated 1] [⟨ProgramIds.oracleProgram,
    [⟨.repeated 9, false, true⟩, ⟨.repeated 1, true, false⟩],
    (toVec (Oracle.OracleInstruction.initFeed 0 0)).getD []⟩]
  { tx with message := { tx.message with timestamp } }

/-- It is sent and put in a block, while the clock shows 7. -/
def openingAt (timestamp : UInt64) : List Incident :=
  ([.submit (openFeed timestamp)] ++ serves 0 6 ++ List.replicate 7 (.produce 7) :
    List Action).map .act

-- Times are listed, so the list is searched and not the whole type.
instance decidableForallTime (ts : List UInt64) (p : UInt64 → Prop) [DecidablePred p] :
    Decidable (∀ t ∈ ts, p t) :=
  List.decidableBAll p ts

/-- Whether the clock is behind a batch that is closed next. -/
def decideClosing (s : Sequencer) (now : UInt64) : ∀ p : Producer,
    Decidable (match p with
      | .draining batch => s.queue = [] → ∀ t ∈ times batch, t ≤ now
      | _ => True)
  | .draining batch => inferInstanceAs (Decidable (s.queue = [] → ∀ t ∈ times batch, t ≤ now))
  | .sleeping | .executing .. | .failing .. | .recording .. | .indexing .. | .marking .. |
    .stopped => isTrue trivial

instance (s : Sequencer) : ∀ i, Decidable (Timely s i)
  | .act (.serve i) => inferInstanceAs (Decidable (∀ c ∈ s.calls[i]?, sending c = true →
      ∀ t' ∈ programTimes c.tx,
        (∀ n ∈ s.world.state.blocks.keys, ∀ b ∈ s.world.state.blocks.lookup n,
          ∀ t ∈ times b.transactions, t ≤ t') ∧ ∀ t ∈ times (pipeline s), t ≤ t'))
  | .act (.produce now) => decideClosing s now s.producer
  | .act (.submit _) | .act (.election _) | .crash => isTrue trivial

theorem payingNode_punctual : Punctual payingNode := by
  have hgenesis : ∀ n b, payingNode.world.state.blocks.lookup n = some b →
      n = 0 ∧ b = .genesis := by
    intro n b hb
    by_cases hn : n = 0
    · subst hn
      exact ⟨rfl, (Option.some.inj hb).symm⟩
    · have hnone : payingNode.world.state.blocks.lookup n = none :=
        Finmap.lookup_insert_of_ne _ hn
      rw [hnone] at hb
      cases hb
  refine ⟨⟨?_, ?_, ?_⟩, ?_, rfl, rfl⟩
  · intro n b hb t ht
    rw [(hgenesis n b hb).2] at ht
    cases ht
  · intro n b hb
    rw [(hgenesis n b hb).2]
    exact List.Pairwise.nil
  · intro m n b b' _ hb _ t ht
    rw [(hgenesis m b hb).2] at ht
    cases ht
  · intro n b hb
    exact Nat.le_of_eq (hgenesis n b hb).1

theorem block_time_opening : ∃ s,
    Lib.run (Sequencer.incident (.bare .dev) payingGate {}) payingNode (openingAt 5) = some s ∧
      (s.world.state.blocks.lookup 1).map (fun b => times b.transactions) = some [5] ∧
      BlockTimes s.world.state.blocks := by
  have hcheck : (Lib.run (Sequencer.incident (.bare .dev) payingGate {}) payingNode
      (openingAt 5)).any (fun s =>
        (s.world.state.blocks.lookup 1).map (fun b => times b.transactions) = some [5]) = true := by
    decide +kernel
  have hmeets : Meets (Sequencer.incident (.bare .dev) payingGate {}) Timely payingNode
      (openingAt 5) := by
    decide +kernel
  obtain ⟨s, hrun, hthen⟩ := (Option.any_eq_true _ _).mp hcheck
  exact ⟨s, hrun, of_decide_eq_true hthen,
    (block_time (.bare .dev) payingGate {} _ _ _ payingNode_punctual hmeets hrun).1⟩

/-- **A program that sees the future.** The node admits a message from a later time and its program
    is given that time, in a block that is from before it. -/
theorem future_admitted : Punctual payingNode ∧ ∃ s,
    Lib.run (Sequencer.incident (.bare .dev) payingGate {}) payingNode (openingAt 1000) = some s ∧
      (s.world.state.blocks.lookup 1).map (fun b => (times b.transactions, b.timestamp)) =
        some ([1000], 7) ∧
      ¬ BlockTimes s.world.state.blocks := by
  have hcheck : (Lib.run (Sequencer.incident (.bare .dev) payingGate {}) payingNode
      (openingAt 1000)).any (fun s =>
        (s.world.state.blocks.lookup 1).map (fun b => (times b.transactions, b.timestamp)) =
          some ([1000], 7)) = true := by
    decide +kernel
  obtain ⟨s, hrun, hthen⟩ := (Option.any_eq_true _ _).mp hcheck
  have hblock := of_decide_eq_true hthen
  refine ⟨payingNode_punctual, s, hrun, hblock, fun htimes => ?_⟩
  obtain ⟨b, hb, heq⟩ := Option.map_eq_some_iff.mp hblock
  obtain ⟨htxs, hstamp⟩ := Prod.mk.inj heq
  have hbound := htimes.bounded 1 b hb 1000 (htxs ▸ List.mem_singleton_self _)
  rw [hstamp] at hbound
  exact absurd hbound (by decide)

end Proof
end Himsha
