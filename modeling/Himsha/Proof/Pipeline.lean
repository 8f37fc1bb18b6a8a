import Himsha.Lib.Reach
import Himsha.Proof.Sequencing

/-!
# Where a pending transaction is

`Pending` is written when a call accepts a transaction, and the statuses that replace it when the
producer is done with it. In between it is in the hands of the call, in the queue, in the batch or
in the block that is being marked. `Life.Kept` is what a step does to an id while the producer
runs, `pending_underway` the invariant, and `work` the measure by which the producer gets to the
end of what it has.
-/

set_option autoImplicit false

namespace Himsha
namespace Proof

open Himsha.Lib Himsha.Runtime Himsha.Programs Himsha.Node

/-! ## Nothing gets lost -/

namespace Life

/-- Copies that are somewhere between the call that accepts them and their last status. -/
def underway (a : Life) : Nat := a.waiting + a.unmarked

/-- What a step does while the producer runs: a copy gets out only with a status that says so. -/
inductive Kept (a b : Life) : Prop where
  | moved (hunderway : a.underway ≤ b.underway) (hstatus : b.status = a.status)
  | accepted (hunderway : 0 < b.underway)
  | resolved (hstatus : b.status ≠ some .pending)

/-- An id on record as pending is under way. -/
def Tracked (a : Life) : Prop := a.status = some .pending → 0 < a.underway

theorem Kept.tracked {a b : Life} (h : Kept a b) (ha : a.Tracked) : b.Tracked := by
  intro hpending
  cases h with
  | moved hunderway hstatus =>
    have := ha (hstatus.symm.trans hpending)
    omega
  | accepted hunderway => exact hunderway
  | resolved hstatus => exact absurd hpending hstatus

end Life

section
variable {ex : Executor} {g : Gate} {s s' : Sequencer}

/-- The producer's task has not ended. -/
def Producing (s : Sequencer) : Prop := s.producer ≠ .stopped

instance (s : Sequencer) : Decidable (Producing s) :=
  match h : s.producer with
  | .stopped => isFalse fun hrunning => hrunning h
  | .sleeping | .draining _ | .executing _ _ | .failing _ _ _ _ | .recording _ _ _ _
  | .indexing _ _ | .marking _ _ _ => isTrue (by simp [Producing, h])

/-- While the producer runs, what is sent gets into the queue. -/
theorem enqueue_running {tx : RuntimeTransaction} (hrunning : Producing s)
    (h : s.enqueue tx = some s') : s' = { s with queue := s.queue ++ [tx] } := by
  unfold Sequencer.enqueue at h
  split at h
  · exact absurd ‹_› hrunning
  · split at h
    · exact (Option.some.inj h).symm
    · cases h

/-- A step that leaves the statuses alone and takes nothing out of the pipeline. -/
theorem keptLife_moved {txid : Blob 32} (hcalls : s'.calls = s.calls)
    (hstatus : s'.world.state.txStatus = s.world.state.txStatus)
    (hunderway : copies txid s.queue + copies txid (batchOf s.producer) +
        copies txid (committedOf s.producer) ≤
      copies txid s'.queue + copies txid (batchOf s'.producer) +
        copies txid (committedOf s'.producer)) :
    Life.Kept (life txid s) (life txid s') := by
  refine .moved ?_ ?_
  · simp only [Life.underway, life, hcalls]
    omega
  · simp only [life, NodeState.getTxStatus, hstatus]

theorem serve_keptLife {c : SendCall} {phase : CallPhase} {i : Nat} (hc : s.calls[i]? = some c)
    (hrunning : Producing s) (h : s.serve ex g c = some (s', phase)) (txid : Blob 32) :
    Life.Kept (life txid s)
      (life txid { s' with calls := s'.calls.set i { c with phase } }) := by
  have hcount := held_set { c with phase } hc txid
  rcases serve_cases h with ⟨hbefore, hafter, hlooked⟩ | ⟨hphase, rfl, rfl⟩ |
    ⟨hphase, hafter, -⟩
  · -- A check or the preflight: nothing is held before or after it.
    have hkept : s'.calls = s.calls ∧ s'.queue = s.queue ∧ s'.producer = s.producer ∧
        s'.world.state.txStatus = s.world.state.txStatus := by
      rcases hlooked with rfl | rfl
      · exact ⟨rfl, rfl, rfl, rfl⟩
      · exact ⟨rfl, rfl, rfl, apply_txStatus s.world⟩
    obtain ⟨hcalls, hqueue, hproducer, hstatus⟩ := hkept
    rw [hbefore, hafter, List.count_nil] at hcount
    refine .moved ?_ ?_
    · simp only [Life.underway, life, hcalls, hqueue, hproducer]
      omega
    · simp only [life, NodeState.getTxStatus, hstatus]
  · obtain ⟨tx, at_⟩ := c
    simp only at hphase
    subst hphase
    dsimp only at hcount
    have hbefore : held ⟨tx, .preflighted⟩ = [] := rfl
    have hafter : held ⟨tx, .accepted⟩ = [tx.messageHash] := rfl
    rw [hbefore, hafter, List.count_nil, List.count_singleton] at hcount
    by_cases hid : tx.messageHash = txid
    · refine .accepted ?_
      rw [if_pos (by simpa using hid)] at hcount
      simp only [Life.underway, life, Sequencer.onState]
      omega
    · rw [if_neg (by simpa using hid)] at hcount
      refine .moved ?_ ?_
      · simp only [Life.underway, life, Sequencer.onState]
        omega
      · simp only [life, Sequencer.onState, getTxStatus_set, if_neg hid]
  · obtain ⟨tx, at_⟩ := c
    simp only at hphase
    subst hphase
    obtain ⟨s₁, hsend, heq⟩ := Option.map_eq_some_iff.mp h
    simp only [Prod.mk.injEq] at heq
    obtain ⟨rfl, rfl⟩ := heq
    obtain rfl := enqueue_running hrunning hsend
    -- The copy goes from the call to the end of the queue.
    have hbefore : held ⟨tx, .accepted⟩ = [tx.messageHash] := rfl
    rw [hbefore, hafter, List.count_nil, List.count_singleton] at hcount
    refine .moved ?_ rfl
    simp only [Life.underway, life, copies_append, copies_cons, copies_nil]
    simp only [beq_iff_eq] at hcount
    omega

/-- Executing a transaction moves its copy on to the block, or to its failure. -/
theorem execute_keptLife {d : Draft} {tx : RuntimeTransaction} {todo : List RuntimeTransaction}
    (hp : s.producer = .executing d (tx :: todo)) (hrunning : Producing (s.execute ex d tx todo))
    (txid : Blob 32) : Life.Kept (life txid s) (life txid (s.execute ex d tx todo)) := by
  have hstatus : (ex.apply s.world tx .commit).2.state.txStatus = s.world.state.txStatus :=
    apply_txStatus s.world
  unfold Sequencer.execute at hrunning ⊢
  cases happ : ex.apply s.world tx .commit with
  | mk result r =>
    rw [happ] at hstatus hrunning
    cases result with
    | ok u =>
      refine keptLife_moved rfl hstatus ?_
      simp only [hp, batchOf, committedOf, copies_cons, copies_append, copies_nil]
      omega
    | error e =>
      cases e with
      | error e =>
        refine keptLife_moved rfl hstatus ?_
        simp [hp, batchOf, committedOf]
      | panic => exact absurd rfl hrunning

theorem produce_keptLife {now : UInt64} (h : s.produce ex now = some s') (hrunning : Producing s')
    (txid : Blob 32) : Life.Kept (life txid s) (life txid s') := by
  unfold Sequencer.produce at h
  cases hp : s.producer with
  | sleeping =>
    simp only [hp, Option.some.injEq] at h
    subst h
    exact keptLife_moved rfl rfl (by simp [hp, batchOf, committedOf])
  | draining batch =>
    simp only [hp] at h
    cases hq : s.queue with
    | nil =>
      simp only [hq] at h
      split at h
      · -- An empty batch is put down: there was nothing in it.
        rename_i hempty
        simp only [Option.some.injEq] at h
        subst h
        refine keptLife_moved rfl rfl ?_
        simp [hp, hq, batchOf, committedOf, List.isEmpty_iff.mp hempty]
      · simp only [Option.some.injEq] at h
        subst h
        exact keptLife_moved rfl rfl (by simp [Sequencer.onState, hp, hq, batchOf, committedOf])
    | cons tx queue =>
      simp only [hq, Option.some.injEq] at h
      subst h
      refine keptLife_moved rfl rfl ?_
      simp only [hp, hq, batchOf, committedOf, copies_append, copies_cons, copies_nil]
      omega
  | executing d todo =>
    cases todo with
    | nil =>
      simp only [hp, Option.some.injEq] at h
      subst h
      exact keptLife_moved rfl rfl (by simp [Sequencer.onState, hp, batchOf, committedOf])
    | cons tx todo =>
      simp only [hp, Option.some.injEq] at h
      subst h
      exact execute_keptLife hp hrunning txid
  | failing d tx error todo =>
    simp only [hp] at h
    split at h
    · -- The copy is dropped, because another one has succeeded.
      rename_i hdone
      simp only [Option.some.injEq] at h
      subst h
      by_cases hid : tx.messageHash = txid
      · subst hid
        refine .resolved fun hpending => ?_
        have hread : s.world.state.getTxStatus tx.messageHash = some .pending := hpending
        simp [NodeState.hasSucceeded, hread] at hdone
      · exact keptLife_moved rfl rfl (by simp [hp, batchOf, committedOf, hid])
    · simp only [Option.some.injEq] at h
      subst h
      exact keptLife_moved rfl rfl (by simp [hp, batchOf, committedOf])
  | recording d tx error todo =>
    simp only [hp, Option.some.injEq] at h
    subst h
    by_cases hid : tx.messageHash = txid
    · exact .resolved (by simp [life, Sequencer.onState, getTxStatus_set, hid])
    · refine .moved ?_ ?_
      · simp [Life.underway, life, Sequencer.onState, hp, batchOf, committedOf, hid]
      · simp only [life, Sequencer.onState, getTxStatus_set, if_neg hid]
  | indexing slot todo =>
    cases todo with
    | nil =>
      simp only [hp, Option.some.injEq] at h
      subst h
      exact keptLife_moved rfl rfl (by simp [hp, batchOf, committedOf])
    | cons tx todo =>
      simp only [hp, Option.some.injEq] at h
      subst h
      exact keptLife_moved rfl rfl (by simp [Sequencer.onState, hp, batchOf, committedOf])
  | marking slot tx todo =>
    simp only [hp, Option.some.injEq] at h
    subst h
    by_cases hid : tx.messageHash = txid
    · exact .resolved (by simp [life, Sequencer.onState, getTxStatus_set, hid])
    · refine .moved ?_ ?_
      · simp [Life.underway, life, Sequencer.onState, hp, batchOf, committedOf, hid]
      · simp only [life, Sequencer.onState, getTxStatus_set, if_neg hid]
  | stopped => simp [hp] at h

/-- A producer that has stopped does not come back. -/
theorem step_stopped {a : Action} (h : s.step ex g a = some s') (hs : s.producer = .stopped) :
    s'.producer = .stopped := by
  cases a with
  | submit tx =>
    simp only [Sequencer.step, Option.some.injEq] at h
    subst h
    exact hs
  | serve i =>
    obtain ⟨c, s₁, phase, -, hserve, rfl⟩ := step_serve h
    rcases serve_cases hserve with ⟨-, -, rfl | rfl⟩ | ⟨-, -, rfl⟩ | ⟨-, -, rfl | rfl⟩ <;> exact hs
  | produce now => simp [Sequencer.step, Sequencer.produce, hs] at h
  | election c =>
    obtain ⟨election, -, rfl⟩ := Option.map_eq_some_iff.mp h
    exact hs

/-- **A step of the node keeps track of every id**, unless it ends the producer. -/
theorem step_keptLife {a : Action} (h : s.step ex g a = some s') (hrunning : Producing s')
    (txid : Blob 32) : Life.Kept (life txid s) (life txid s') := by
  have hbefore : Producing s := fun hs => hrunning (step_stopped h hs)
  cases a with
  | submit tx =>
    simp only [Sequencer.step, Option.some.injEq] at h
    subst h
    exact .moved (by simp [Life.underway, life, held]) rfl
  | serve i =>
    obtain ⟨c, s₁, phase, hc, hserve, rfl⟩ := step_serve h
    exact serve_keptLife hc hbefore hserve txid
  | produce now => exact produce_keptLife h hrunning txid
  | election c =>
    obtain ⟨election, -, rfl⟩ := Option.map_eq_some_iff.mp h
    exact .moved (Nat.le_refl _) rfl

end

/-- The ids that are on record as pending are under way, as long as the producer runs. -/
def AllTracked (s : Sequencer) : Prop := Producing s → ∀ txid, (life txid s).Tracked

theorem step_allTracked {ex : Executor} {g : Gate} {s s' : Sequencer} {a : Action}
    (hs : AllTracked s) (h : s.step ex g a = some s') : AllTracked s' :=
  fun hrunning txid => (step_keptLife h hrunning txid).tracked
    (hs (fun hstopped => hrunning (step_stopped h hstopped)) txid)

/-- **No accepted transaction gets lost.** In every interleaving of calls, the producer and
    election calls that starts with nothing under way and nothing on record as pending: while the
    producer's task runs, whatever is pending is in the hands of the call that accepted it, in the
    queue, in the batch, or in the block that is about to be marked. -/
theorem pending_underway (ex : Executor) (g : Gate) (s₀ s : Sequencer) (actions : List Action)
    (hfresh : ∀ txid, s₀.world.state.getTxStatus txid ≠ some .pending)
    (hrun : Lib.run (Sequencer.step ex g) s₀ actions = some s) (hrunning : Producing s)
    (txid : Blob 32) (hpending : s.world.state.getTxStatus txid = some .pending) :
    txid ∈ s.calls.flatMap held ∨ txid ∈ s.queue.map (·.messageHash) ∨
      txid ∈ (batchOf s.producer).map (·.messageHash) ∨
      txid ∈ (committedOf s.producer).map (·.messageHash) := by
  have hstart : AllTracked s₀ := fun _ txid h => absurd h (hfresh txid)
  have htracked := run_keeps (fun _ _ _ => step_allTracked) hstart hrun hrunning txid hpending
  have hsome : (s.calls.flatMap held).count txid ≠ 0 ∨ copies txid s.queue ≠ 0 ∨
      copies txid (batchOf s.producer) ≠ 0 ∨ copies txid (committedOf s.producer) ≠ 0 := by
    simp only [Life.underway, life] at htracked
    omega
  have hmem : ∀ {txs : List RuntimeTransaction}, copies txid txs ≠ 0 →
      txid ∈ txs.map (·.messageHash) :=
    fun h => List.count_pos_iff.mp (Nat.pos_of_ne_zero h)
  rcases hsome with h | h | h | h
  · exact .inl (List.count_pos_iff.mp (Nat.pos_of_ne_zero h))
  · exact .inr (.inl (hmem h))
  · exact .inr (.inr (.inl (hmem h)))
  · exact .inr (.inr (.inr (hmem h)))

/-- A message of nobody, with nothing in it. -/
def emptyTransaction : RuntimeTransaction := signedBy [] []

/-- A node that has just started, with no accounts. -/
def emptyNode : Sequencer := { world := .funded [] }

theorem emptyNode_fresh (txid : Blob 32) :
    emptyNode.world.state.getTxStatus txid ≠ some .pending := by
  simp [emptyNode, World.funded, NodeState.getTxStatus]

/-- The call has accepted it and is about to send it. -/
theorem pending_underway_accepted : ∃ s,
    Lib.run (Sequencer.step (.bare .dev) payingGate) emptyNode
        (.submit emptyTransaction :: serves 0 5) = some s ∧
      s.queue = [] ∧ (emptyTransaction.messageHash ∈ s.calls.flatMap held ∨
        emptyTransaction.messageHash ∈ s.queue.map (·.messageHash) ∨
        emptyTransaction.messageHash ∈ (batchOf s.producer).map (·.messageHash) ∨
        emptyTransaction.messageHash ∈ (committedOf s.producer).map (·.messageHash)) := by
  have hcheck : (Lib.run (Sequencer.step (.bare .dev) payingGate) emptyNode
      (.submit emptyTransaction :: serves 0 5)).any (fun s => s.queue = [] ∧ Producing s ∧
        s.world.state.getTxStatus emptyTransaction.messageHash = some .pending) = true := by
    decide +kernel
  obtain ⟨s, hrun, hthen⟩ := (Option.any_eq_true _ _).mp hcheck
  obtain ⟨hqueue, hrunning, hpending⟩ := of_decide_eq_true hthen
  exact ⟨s, hrun, hqueue, pending_underway (.bare .dev) payingGate _ _ _ emptyNode_fresh hrun
    hrunning _ hpending⟩

/-! ## The producer gets to the end -/

section
variable {ex : Executor} {g : Gate} {s s' : Sequencer}

/-- How many statements the producer has left before it sleeps, at most: a transaction in the
    queue costs one to take and up to nine in the batch, in the block and in the index. -/
def work (s : Sequencer) : Nat :=
  13 * s.queue.length +
    match s.producer with
    | .sleeping => if s.queue = [] then 0 else 7
    | .draining batch => 6 + 12 * batch.length
    | .executing d todo => 9 + 2 * d.included.length + 5 * todo.length
    | .failing d _ _ todo => 13 + 2 * d.included.length + 5 * todo.length
    | .recording d _ _ todo => 12 + 2 * d.included.length + 5 * todo.length
    | .indexing _ todo => 8 + 2 * todo.length
    | .marking _ _ todo => 9 + 2 * todo.length
    | .stopped => 0

/-- The producer has taken and settled all that was sent. -/
def Drained (s : Sequencer) : Prop := s.producer = .sleeping ∧ s.queue = []

/-- No statement of the producer touches a call. -/
theorem produce_calls {now : UInt64} (h : s.produce ex now = some s') : s'.calls = s.calls := by
  have hexecute : ∀ d tx todo, (s.execute ex d tx todo).calls = s.calls := by
    intro d tx todo
    unfold Sequencer.execute
    dsimp only
    split <;> rfl
  unfold Sequencer.produce at h
  repeat' split at h
  all_goals cases h
  all_goals first | rfl | exact hexecute _ _ _

/-- **Every statement of the producer takes it further.** -/
theorem produce_work (ex : Executor) (now : UInt64) (hrunning : Producing s) (hdrained : ¬ Drained s) :
    ∃ s', s.produce ex now = some s' ∧ (s'.producer = .stopped ∨ work s' < work s) := by
  unfold Sequencer.produce
  cases hp : s.producer with
  | sleeping =>
    have hqueue : s.queue ≠ [] := fun hq => hdrained ⟨hp, hq⟩
    refine ⟨_, rfl, .inr ?_⟩
    simp [work, hp, hqueue]
  | draining batch =>
    dsimp only
    cases hq : s.queue with
    | nil =>
      dsimp only
      split
      · refine ⟨_, rfl, .inr ?_⟩
        simp [work, hp, hq]
      · rename_i hbatch
        refine ⟨_, rfl, .inr ?_⟩
        have hlength := List.length_pos_iff.mpr fun h => hbatch (List.isEmpty_iff.mpr h)
        simp only [work, Sequencer.onState, hp, hq, List.length_nil]
        omega
    | cons tx queue =>
      refine ⟨_, rfl, .inr ?_⟩
      simp only [work, hp, hq, List.length_append, List.length_cons, List.length_nil]
      omega
  | executing d todo =>
    cases todo with
    | nil =>
      refine ⟨_, rfl, .inr ?_⟩
      simp only [work, Sequencer.onState, hp, List.length_nil]
      omega
    | cons tx todo =>
      refine ⟨_, rfl, ?_⟩
      unfold Sequencer.execute
      cases happ : ex.apply s.world tx .commit with
      | mk result r =>
        cases result with
        | ok u =>
          refine .inr ?_
          simp only [work, hp, List.length_append, List.length_cons, List.length_nil]
          omega
        | error e =>
          cases e with
          | error e =>
            refine .inr ?_
            simp only [work, hp, List.length_cons]
            omega
          | panic => exact .inl rfl
  | failing d tx error todo =>
    dsimp only
    split
    · refine ⟨_, rfl, .inr ?_⟩
      simp only [work, hp]
      omega
    · refine ⟨_, rfl, .inr ?_⟩
      simp only [work, hp]
      omega
  | recording d tx error todo =>
    refine ⟨_, rfl, .inr ?_⟩
    simp only [work, Sequencer.onState, hp]
    omega
  | indexing slot todo =>
    cases todo with
    | nil =>
      refine ⟨_, rfl, .inr ?_⟩
      simp only [work, hp, List.length_nil]
      split <;> omega
    | cons tx todo =>
      refine ⟨_, rfl, .inr ?_⟩
      simp only [work, Sequencer.onState, hp, List.length_cons]
      omega
  | marking slot tx todo =>
    refine ⟨_, rfl, .inr ?_⟩
    simp only [work, Sequencer.onState, hp]
    omega
  | stopped => exact absurd hp hrunning

/-- The copies that calls have accepted and not sent yet. -/
def acceptedCalls (s : Sequencer) : Nat := (s.calls.flatMap held).length

/-- Nothing is left to do. -/
def AllSettled (s : Sequencer) : Prop := s.producer = .stopped ∨ Drained s ∧ acceptedCalls s = 0

/-- How a call in its place among the others counts. -/
theorem accepted_set {calls : List SendCall} {i : Nat} {c : SendCall} (c' : SendCall)
    (h : calls[i]? = some c) : ((calls.set i c').flatMap held).length + (held c).length =
      (calls.flatMap held).length + (held c').length := by
  obtain ⟨hlt, rfl⟩ := List.getElem?_eq_some_iff.mp h
  have hsplit : calls = calls.take i ++ calls[i] :: calls.drop (i + 1) := by
    rw [List.cons_getElem_drop_succ, List.take_append_drop]
  have hlength := congrArg (fun calls => (calls.flatMap held).length) hsplit
  rw [List.set_eq_take_append_cons_drop, if_pos hlt]
  simp only [List.flatMap_append, List.flatMap_cons, List.length_append] at hlength ⊢
  omega

/-- When the producer has drained the queue, an accepted call gets its transaction in. -/
theorem send_work (ex : Executor) (g : Gate) (hdrained : Drained s) (haccepted : acceptedCalls s ≠ 0) :
    ∃ i s', s.step ex g (.serve i) = some s' ∧
      21 * acceptedCalls s' + work s' < 21 * acceptedCalls s + work s := by
  obtain ⟨txid, hmem⟩ := List.exists_mem_of_length_pos (Nat.pos_of_ne_zero haccepted)
  obtain ⟨⟨tx, phase⟩, hc, htxid⟩ := List.mem_flatMap.mp hmem
  -- Only a call that has accepted holds a copy.
  obtain rfl : phase = .accepted := by
    cases phase <;> first | rfl | cases htxid
  obtain ⟨i, hi, hget⟩ := List.mem_iff_getElem.mp hc
  have hlookup : s.calls[i]? = some ⟨tx, .accepted⟩ := by rw [List.getElem?_eq_getElem hi, hget]
  obtain ⟨hsleeping, hqueue⟩ := hdrained
  have henqueue : s.enqueue tx = some { s with queue := [tx] } := by
    simp [Sequencer.enqueue, hsleeping, hqueue, queueCapacity]
  refine ⟨i, { s with
    queue := [tx]
    calls := s.calls.set i ⟨tx, .answered (.ok (Lending.hexEncode tx.messageHash.bytes))⟩ },
    by simp [Sequencer.step, hlookup, Sequencer.serve, henqueue], ?_⟩
  have hset := accepted_set
    ⟨tx, .answered (.ok (Lending.hexEncode tx.messageHash.bytes))⟩ hlookup
  simp only [held, List.length_cons, List.length_nil] at hset
  simp only [acceptedCalls, work, hsleeping, hqueue, List.length_cons, List.length_nil]
  simp only [if_true, reduceCtorEq, if_false]
  omega

end

/-- Statements of calls that are there already, and of the producer. -/
def Finishes : Action → Prop
  | .serve _ | .produce _ => True
  | .submit _ | .election _ => False

/-- **Every accepted transaction can be settled.** From wherever an interleaving has got to, the
    calls and the producer have a way on, with no new submission, at whose end no transaction is
    pending, unless a panic has ended the producer's task. -/
theorem settles (ex : Executor) (g : Gate) (s₀ s : Sequencer) (actions : List Action)
    (now : UInt64) (hfresh : ∀ txid, s₀.world.state.getTxStatus txid ≠ some .pending)
    (hrun : Lib.run (Sequencer.step ex g) s₀ actions = some s) :
    ∃ finish s', (∀ a ∈ finish, Finishes a) ∧
      Lib.run (Sequencer.step ex g) s finish = some s' ∧
      (s'.producer = .stopped ∨
        ∀ txid, s'.world.state.getTxStatus txid ≠ some .pending) := by
  have hstart : AllTracked s₀ := fun _ txid h => absurd h (hfresh txid)
  have htracked : AllTracked s := run_keeps (fun _ _ _ => step_allTracked) hstart hrun
  have hprogress : ∀ t, AllTracked t → ¬ AllSettled t → ∃ a t', Finishes a ∧
      t.step ex g a = some t' ∧ AllTracked t' ∧
      (AllSettled t' ∨ 21 * acceptedCalls t' + work t' < 21 * acceptedCalls t + work t) := by
    intro t ht hsettled
    by_cases hdrained : Drained t
    · obtain ⟨i, t', hstep, hlt⟩ := send_work ex g hdrained
        fun h => hsettled (.inr ⟨hdrained, h⟩)
      exact ⟨.serve i, t', trivial, hstep, step_allTracked ht hstep, .inr hlt⟩
    · obtain ⟨t', hproduce, hdone⟩ := produce_work ex now
        (fun h => hsettled (.inl h)) hdrained
      have hstep : t.step ex g (.produce now) = some t' := hproduce
      refine ⟨.produce now, t', trivial, hstep, step_allTracked ht hstep, ?_⟩
      rcases hdone with hstopped | hlt
      · exact .inl (.inl hstopped)
      · have haccepted : acceptedCalls t' = acceptedCalls t := by
          rw [acceptedCalls, acceptedCalls, produce_calls hproduce]
        exact .inr (by omega)
  obtain ⟨finish, s', hfinish, hrun', htracked', hsettled⟩ :=
    run_reaches (fun t => 21 * acceptedCalls t + work t) hprogress htracked
  refine ⟨finish, s', hfinish, hrun', ?_⟩
  rcases hsettled with hstopped | ⟨⟨hsleeping, hqueue⟩, haccepted⟩
  · exact .inl hstopped
  · refine .inr fun txid hpending => ?_
    have hunderway := htracked' (by simp [Producing, hsleeping]) txid hpending
    have hheld : s'.calls.flatMap held = [] := List.length_eq_zero_iff.mp haccepted
    simp [Life.underway, life, hheld, hqueue, hsleeping, batchOf, committedOf] at hunderway

/-- From the call that is about to send on, the transaction gets into a block. -/
theorem settles_accepted : ∃ s finish s',
    Lib.run (Sequencer.step (.bare .dev) payingGate) emptyNode
        (.submit emptyTransaction :: serves 0 5) = some s ∧
      s.world.state.getTxStatus emptyTransaction.messageHash = some .pending ∧
      (∀ a ∈ finish, Finishes a) ∧
      Lib.run (Sequencer.step (.bare .dev) payingGate) s finish = some s' ∧
      (s'.producer = .stopped ∨ ∀ txid, s'.world.state.getTxStatus txid ≠ some .pending) := by
  have hcheck : (Lib.run (Sequencer.step (.bare .dev) payingGate) emptyNode
      (.submit emptyTransaction :: serves 0 5)).any (fun s =>
        s.world.state.getTxStatus emptyTransaction.messageHash = some .pending) = true := by
    decide +kernel
  obtain ⟨s, hrun, hthen⟩ := (Option.any_eq_true _ _).mp hcheck
  obtain ⟨finish, s', hfinish, hrun', hend⟩ :=
    settles (.bare .dev) payingGate _ _ _ 0 emptyNode_fresh hrun
  exact ⟨s, finish, s', hrun, of_decide_eq_true hthen, hfinish, hrun', hend⟩

end Proof
end Himsha
