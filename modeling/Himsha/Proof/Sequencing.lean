import Himsha.Node.Sequencer
import Himsha.Proof.Overlay

/-!
# At most one commit per transaction

Replay protection is a check of the status that is made long before the write that relies on it.
Seen from one transaction id, all that happens on a node is a `Life`: how many copies of it wait
to be executed, how many are committed and not yet marked, how many were committed at all, and
its status. `Life.Step` is what a step of the node can do to it, and `step_life` the
refinement. The rest is arithmetic about lives.
-/

set_option autoImplicit false

namespace Himsha
namespace Proof

open Himsha.Lib Himsha.Runtime Himsha.Programs Himsha.Vm Himsha.Node

/-! ## The life of one transaction id -/

/-- What there is of one transaction id on a node. -/
structure Life where
  /-- Copies that were accepted and not executed yet. -/
  waiting : Nat
  /-- Copies that were committed and not marked yet. -/
  unmarked : Nat
  commits : Nat
  status : Option TxStatus

namespace Life

/-- One that a new submission is refused for. -/
def Taken (status : Option TxStatus) : Prop :=
  status = some .pending ∨ ∃ slot, status = some (.succeeded slot)

inductive Step (a b : Life) : Prop where
  /-- Copies move on, or are dropped. -/
  | rest (hwaiting : b.waiting ≤ a.waiting) (hunmarked : b.unmarked ≤ a.unmarked)
      (hcommits : b.commits = a.commits) (hstatus : b.status = a.status)
  /-- A call accepts a copy, where no other is on record. -/
  | accept (hfree : ¬ Taken a.status) (hwaiting : b.waiting = a.waiting + 1)
      (hunmarked : b.unmarked = a.unmarked) (hcommits : b.commits = a.commits)
      (hstatus : b.status = some .pending)
  | commit (hwaiting : b.waiting + 1 = a.waiting) (hunmarked : b.unmarked = a.unmarked + 1)
      (hcommits : b.commits = a.commits + 1) (hstatus : b.status = a.status)
  | fail (slot : Nat) (error : String) (hwaiting : b.waiting + 1 = a.waiting)
      (hunmarked : b.unmarked = a.unmarked) (hcommits : b.commits = a.commits)
      (hstatus : b.status = some (.failed slot error))
  | mark (slot : Nat) (hwaiting : b.waiting = a.waiting)
      (hunmarked : b.unmarked + 1 = a.unmarked) (hcommits : b.commits = a.commits)
      (hstatus : b.status = some (.succeeded slot))

/-- At most one copy is ever under way or committed, and the status says so. -/
structure Ok (a : Life) : Prop where
  once : a.waiting + a.commits ≤ 1
  unmarked_le : a.unmarked ≤ a.commits
  waiting_pending : 0 < a.waiting → a.status = some .pending
  unmarked_pending : 0 < a.unmarked → a.status = some .pending
  committed_taken : 0 < a.commits → Taken a.status

theorem Step.ok {a b : Life} (h : Step a b) (ha : a.Ok) : b.Ok := by
  obtain ⟨once, unmarked_le, waiting_pending, unmarked_pending, committed_taken⟩ := ha
  cases h with
  | rest hwaiting hunmarked hcommits hstatus =>
    rw [← hstatus] at waiting_pending unmarked_pending committed_taken
    refine ⟨by omega, ?_, fun h => waiting_pending (by omega),
      fun h => unmarked_pending (by omega), fun h => committed_taken (by omega)⟩
    omega
  | accept hfree hwaiting hunmarked hcommits hstatus =>
    -- A copy under way or committed would have been on record.
    have hnone : a.waiting = 0 := Nat.eq_zero_of_not_pos fun h => hfree (.inl (waiting_pending h))
    have hnever : a.commits = 0 := Nat.eq_zero_of_not_pos fun h => hfree (committed_taken h)
    exact ⟨by omega, by omega, fun _ => hstatus, fun _ => hstatus, fun _ => .inl hstatus⟩
  | commit hwaiting hunmarked hcommits hstatus =>
    have hpending : b.status = some .pending := hstatus.trans (waiting_pending (by omega))
    exact ⟨by omega, by omega, fun _ => hpending, fun _ => hpending, fun _ => .inl hpending⟩
  | fail slot error hwaiting hunmarked hcommits hstatus =>
    -- The one copy is gone, and it was never committed.
    exact ⟨by omega, by omega, fun h => by omega, fun h => by omega, fun h => by omega⟩
  | mark slot hwaiting hunmarked hcommits hstatus =>
    exact ⟨by omega, by omega, fun h => by omega, fun h => by omega,
      fun _ => .inr ⟨slot, hstatus⟩⟩

/-- A transaction that is marked stays marked, with its slot. -/
theorem Step.succeeded {a b : Life} (h : Step a b) (ha : a.Ok) {slot : Nat}
    (hslot : a.status = some (.succeeded slot)) : b.status = some (.succeeded slot) := by
  cases h with
  | rest _ _ _ hstatus => exact hstatus.trans hslot
  | accept hfree => exact absurd (.inr ⟨slot, hslot⟩) hfree
  | commit _ _ _ hstatus => exact hstatus.trans hslot
  | fail _ _ hwaiting =>
    have hpending := ha.waiting_pending (by omega)
    rw [hslot] at hpending
    simp at hpending
  | mark _ _ hunmarked =>
    have hpending := ha.unmarked_pending (by omega)
    rw [hslot] at hpending
    simp at hpending

end Life

/-! ## The lives on a node -/

/-- The copies a call holds. -/
def held (c : SendCall) : List (Blob 32) :=
  match c.phase with
  | .accepted => [c.tx.messageHash]
  | _ => []

/-- The copies the producer has yet to execute. -/
def batchOf : Producer → List RuntimeTransaction
  | .draining batch => batch
  | .executing _ todo => todo
  | .failing _ tx _ todo | .recording _ tx _ todo => tx :: todo
  | _ => []

/-- The copies the producer has committed and has yet to mark. -/
def committedOf : Producer → List RuntimeTransaction
  | .executing d _ | .failing d _ _ _ | .recording d _ _ _ => d.included
  | .indexing _ todo => todo
  | .marking _ tx todo => tx :: todo
  | _ => []

/-- How many of some transactions have an id. -/
def copies (txid : Blob 32) (txs : List RuntimeTransaction) : Nat :=
  (txs.map (·.messageHash)).count txid

def life (txid : Blob 32) (s : Sequencer) : Life where
  waiting := (s.calls.flatMap held).count txid + copies txid s.queue +
    copies txid (batchOf s.producer)
  unmarked := copies txid (committedOf s.producer)
  commits := (s.commits.map (·.txid)).count txid
  status := s.world.state.getTxStatus txid

/-- The write of `Pending` finds the status as free as the check did. -/
def CheckHolds (s : Sequencer) : Action → Prop
  | .serve i =>
      match s.calls[i]? with
      | some ⟨tx, .preflighted⟩ => checkStatus s.world.state tx.messageHash = .ok ()
      | _ => True
  | _ => True

instance (s : Sequencer) (a : Action) : Decidable (CheckHolds s a) := by
  unfold CheckHolds
  repeat' split
  all_goals infer_instance

theorem checkStatus_ok {st : NodeState} {txid : Blob 32} (h : checkStatus st txid = .ok ()) :
    ¬ Life.Taken (st.getTxStatus txid) := by
  unfold checkStatus at h
  rintro (hst | ⟨slot, hst⟩)
  · simp [hst] at h
  · simp [hst] at h

@[simp] theorem copies_nil (txid : Blob 32) : copies txid [] = 0 := rfl

@[simp] theorem copies_cons (txid : Blob 32) (tx : RuntimeTransaction)
    (txs : List RuntimeTransaction) :
    copies txid (tx :: txs) = copies txid txs + if tx.messageHash = txid then 1 else 0 := by
  simp [copies, List.count_cons]

@[simp] theorem copies_append (txid : Blob 32) (txs txs' : List RuntimeTransaction) :
    copies txid (txs ++ txs') = copies txid txs + copies txid txs' := by
  simp [copies]

theorem getTxStatus_set (st : NodeState) (k txid : Blob 32) (status : TxStatus) :
    (st.setTxStatus k status).getTxStatus txid =
      if k = txid then some status else st.getTxStatus txid := by
  unfold NodeState.getTxStatus NodeState.setTxStatus
  split
  · rename_i h
    rw [h]
    exact Finmap.lookup_insert _
  · rename_i h
    exact Finmap.lookup_insert_of_ne _ fun h' => h h'.symm

section
variable {ex : Executor} {g : Gate} {s s' : Sequencer}

/-- A call in its place among the others. -/
theorem held_set {calls : List SendCall} {i : Nat} {c : SendCall} (c' : SendCall)
    (h : calls[i]? = some c) (txid : Blob 32) :
    ((calls.set i c').flatMap held).count txid + (held c).count txid =
      (calls.flatMap held).count txid + (held c').count txid := by
  obtain ⟨hlt, rfl⟩ := List.getElem?_eq_some_iff.mp h
  have hsplit : calls = calls.take i ++ calls[i] :: calls.drop (i + 1) := by
    rw [List.cons_getElem_drop_succ, List.take_append_drop]
  have hcount := congrArg (fun calls => (calls.flatMap held).count txid) hsplit
  rw [List.set_eq_take_append_cons_drop, if_pos hlt]
  simp only [List.flatMap_append, List.flatMap_cons, List.count_append] at hcount ⊢
  omega

theorem held_afterCheck (tx : RuntimeTransaction) (check : Except RpcError Unit)
    {next : CallPhase} (h : held ⟨tx, next⟩ = []) :
    held ⟨tx, Sequencer.afterCheck check next⟩ = [] := by
  unfold Sequencer.afterCheck
  split
  · exact h
  · rfl

theorem held_afterPreflight (tx : RuntimeTransaction) (result : Except ExecFault Unit) :
    held ⟨tx, Sequencer.afterPreflight result⟩ = [] := by
  unfold Sequencer.afterPreflight
  split <;> rfl

/-- **What a call can do**: look, and leave the node or what a preflight makes of it; write `Pending`;
    or send. -/
theorem serve_cases {c : SendCall} {phase : CallPhase} (h : s.serve ex g c = some (s', phase)) :
    (held c = [] ∧ held ⟨c.tx, phase⟩ = [] ∧
      (s' = s ∨ s' = { s with world := (ex.apply s.world c.tx .preflight).2.toWorld })) ∨
    (c.phase = .preflighted ∧ phase = .accepted ∧
      s' = s.onState (·.setTxStatus c.tx.messageHash .pending)) ∨
    (c.phase = .accepted ∧ held ⟨c.tx, phase⟩ = [] ∧
      (s' = s ∨ s' = { s with queue := s.queue ++ [c.tx] })) := by
  obtain ⟨tx, at_⟩ := c
  unfold Sequencer.serve at h
  cases at_ with
  | received | admitted | unincluded =>
    simp only [Option.some.injEq, Prod.mk.injEq] at h
    obtain ⟨rfl, rfl⟩ := h
    exact .inl ⟨rfl, held_afterCheck _ _ rfl, .inl rfl⟩
  | unsubmitted =>
    simp only [Option.some.injEq, Prod.mk.injEq] at h
    obtain ⟨rfl, rfl⟩ := h
    exact .inl ⟨rfl, held_afterPreflight _ _, .inr rfl⟩
  | preflighted =>
    simp only [Option.some.injEq, Prod.mk.injEq] at h
    obtain ⟨rfl, rfl⟩ := h
    exact .inr (.inl ⟨rfl, rfl, rfl⟩)
  | accepted =>
    obtain ⟨s₁, hsend, heq⟩ := Option.map_eq_some_iff.mp h
    simp only [Prod.mk.injEq] at heq
    obtain ⟨rfl, rfl⟩ := heq
    refine .inr (.inr ⟨rfl, rfl, ?_⟩)
    unfold Sequencer.enqueue at hsend
    split at hsend
    · exact .inl (Option.some.inj hsend).symm
    · split at hsend
      · exact .inr (Option.some.inj hsend).symm
      · simp at hsend
  | answered reply => simp at h
  | crashed => simp at h

/-- A served call is one of the calls of the node, and only its phase is written back. -/
theorem step_serve {i : Nat} (h : s.step ex g (.serve i) = some s') :
    ∃ c s₁ phase, s.calls[i]? = some c ∧ s.serve ex g c = some (s₁, phase) ∧
      s' = { s₁ with calls := s₁.calls.set i { c with phase } } := by
  simp only [Sequencer.step, Option.bind_eq_bind] at h
  obtain ⟨c, hc, hrest⟩ := Option.bind_eq_some_iff.mp h
  obtain ⟨⟨s₁, phase⟩, hserve, heq⟩ := Option.bind_eq_some_iff.mp hrest
  exact ⟨c, s₁, phase, hc, hserve, (Option.some.inj heq).symm⟩

/-- A step that leaves the calls, the history and the statuses alone. -/
theorem life_rest {txid : Blob 32} (hcalls : s'.calls = s.calls) (hcommits : s'.commits = s.commits)
    (hstatus : s'.world.state.txStatus = s.world.state.txStatus)
    (hwaiting : copies txid s'.queue + copies txid (batchOf s'.producer) ≤
      copies txid s.queue + copies txid (batchOf s.producer))
    (hunmarked : copies txid (committedOf s'.producer) ≤
      copies txid (committedOf s.producer)) :
    Life.Step (life txid s) (life txid s') := by
  refine .rest ?_ hunmarked ?_ ?_
  · simp only [life, hcalls]
    omega
  · simp only [life, hcommits]
  · simp only [life, NodeState.getTxStatus, hstatus]

theorem serve_life {c : SendCall} {phase : CallPhase} {i : Nat} (hc : s.calls[i]? = some c)
    (hok : CheckHolds s (.serve i)) (h : s.serve ex g c = some (s', phase)) (txid : Blob 32) :
    Life.Step (life txid s)
      (life txid { s' with calls := s'.calls.set i { c with phase } }) := by
  have hcount := held_set { c with phase } hc txid
  rcases serve_cases h with ⟨hbefore, hafter, hlooked⟩ | ⟨hphase, rfl, rfl⟩ |
    ⟨hphase, hafter, hsent⟩
  · have hkept : s'.calls = s.calls ∧ s'.queue = s.queue ∧ s'.producer = s.producer ∧
        s'.commits = s.commits ∧ s'.world.state.txStatus = s.world.state.txStatus := by
      rcases hlooked with rfl | rfl
      · exact ⟨rfl, rfl, rfl, rfl, rfl⟩
      · exact ⟨rfl, rfl, rfl, rfl, apply_txStatus s.world⟩
    obtain ⟨hcalls, hqueue, hproducer, hcommits, hstatus⟩ := hkept
    rw [hbefore, hafter, List.count_nil] at hcount
    refine .rest ?_ ?_ ?_ ?_
    · simp only [life, hcalls, hqueue, hproducer]
      omega
    · simp only [life, hproducer, Nat.le_refl]
    · simp only [life, hcommits]
    · simp only [life, NodeState.getTxStatus, hstatus]
  · obtain ⟨tx, at_⟩ := c
    simp only at hphase
    subst hphase
    dsimp only at hcount
    simp only [CheckHolds, hc] at hok
    have hbefore : held ⟨tx, .preflighted⟩ = [] := rfl
    have hafter : held ⟨tx, .accepted⟩ = [tx.messageHash] := rfl
    rw [hbefore, hafter, List.count_nil, List.count_singleton] at hcount
    by_cases hid : tx.messageHash = txid
    · subst hid
      rw [beq_self_eq_true, if_pos rfl] at hcount
      refine .accept (checkStatus_ok hok) ?_ rfl rfl ?_
      · simp only [life, Sequencer.onState]
        omega
      · simp only [life, Sequencer.onState, getTxStatus_set, if_true]
    · rw [if_neg (by simpa using hid)] at hcount
      refine .rest ?_ (Nat.le_refl _) rfl ?_
      · simp only [life, Sequencer.onState]
        omega
      · simp only [life, Sequencer.onState, getTxStatus_set, if_neg hid]
  · have hbefore : held c = [c.tx.messageHash] := by
      unfold held
      rw [hphase]
    rw [hbefore, hafter, List.count_nil, List.count_singleton] at hcount
    rcases hsent with rfl | rfl
    · refine .rest ?_ (Nat.le_refl _) rfl rfl
      simp only [life]
      omega
    · refine .rest ?_ (Nat.le_refl _) rfl rfl
      simp only [life, copies_append, copies_cons, copies_nil]
      simp only [beq_iff_eq] at hcount
      omega

/-- Executing a transaction commits its copy, or keeps it for its failure to be recorded. -/
theorem execute_life {d : Draft} {tx : RuntimeTransaction} {todo : List RuntimeTransaction}
    (hp : s.producer = .executing d (tx :: todo)) (txid : Blob 32) :
    Life.Step (life txid s) (life txid (s.execute ex d tx todo)) := by
  have hstatus : (ex.apply s.world tx .commit).2.state.txStatus = s.world.state.txStatus :=
    apply_txStatus s.world
  unfold Sequencer.execute
  cases happ : ex.apply s.world tx .commit with
  | mk result r =>
    rw [happ] at hstatus
    dsimp only at hstatus
    cases result with
    | ok u =>
      by_cases hid : tx.messageHash = txid
      · refine .commit ?_ ?_ ?_ ?_
        · simp [life, hp, batchOf, hid, Nat.add_assoc]
        · simp [life, hp, committedOf, hid]
        · simp [life, hid]
        · simp only [life, NodeState.getTxStatus, hstatus]
      · refine .rest ?_ ?_ ?_ ?_
        · simp [life, hp, batchOf, hid]
        · simp [life, hp, committedOf, hid]
        · simp [life, hid]
        · simp only [life, NodeState.getTxStatus, hstatus]
    | error e =>
      cases e with
      | error e =>
        refine life_rest rfl rfl hstatus ?_ ?_
        · simp [hp, batchOf]
        · simp [hp, committedOf]
      | panic =>
        refine life_rest rfl rfl hstatus ?_ ?_
        · simp [batchOf]
        · simp [committedOf]

/-- **What the producer can do** to the life of a transaction id. -/
theorem produce_life {now : UInt64} (h : s.produce ex now = some s') (txid : Blob 32) :
    Life.Step (life txid s) (life txid s') := by
  unfold Sequencer.produce at h
  cases hp : s.producer with
  | sleeping =>
    simp only [hp, Option.some.injEq] at h
    subst h
    refine life_rest rfl rfl rfl ?_ ?_
    · simp [hp, batchOf]
    · simp [hp, committedOf]
  | draining batch =>
    simp only [hp] at h
    cases hq : s.queue with
    | nil =>
      simp only [hq] at h
      split at h
      · simp only [Option.some.injEq] at h
        subst h
        refine life_rest rfl rfl rfl ?_ ?_
        · simp [hp, hq, batchOf]
        · simp [hp, committedOf]
      · simp only [Option.some.injEq] at h
        subst h
        refine life_rest rfl rfl rfl ?_ ?_
        · simp [Sequencer.onState, hp, hq, batchOf]
        · simp [hp, committedOf]
    | cons tx queue =>
      simp only [hq, Option.some.injEq] at h
      subst h
      refine life_rest rfl rfl rfl ?_ ?_
      · simp only [hp, hq, batchOf, copies_append, copies_cons, copies_nil]
        omega
      · simp [hp, committedOf]
  | executing d todo =>
    cases todo with
    | nil =>
      simp only [hp, Option.some.injEq] at h
      subst h
      refine life_rest rfl rfl rfl ?_ ?_
      · simp [Sequencer.onState, hp, batchOf]
      · simp [hp, committedOf]
    | cons tx todo =>
      simp only [hp, Option.some.injEq] at h
      subst h
      exact execute_life hp txid
  | failing d tx error todo =>
    simp only [hp] at h
    split at h
    · simp only [Option.some.injEq] at h
      subst h
      refine life_rest rfl rfl rfl ?_ ?_
      · simp [hp, batchOf]
      · simp [hp, committedOf]
    · simp only [Option.some.injEq] at h
      subst h
      refine life_rest rfl rfl rfl ?_ ?_
      · simp [hp, batchOf]
      · simp [hp, committedOf]
  | recording d tx error todo =>
    simp only [hp, Option.some.injEq] at h
    subst h
    by_cases hid : tx.messageHash = txid
    · refine .fail d.slot error ?_ ?_ rfl ?_
      · simp [life, Sequencer.onState, hp, batchOf, hid, Nat.add_assoc]
      · simp [life, hp, committedOf]
      · simp only [life, Sequencer.onState, getTxStatus_set, if_pos hid]
    · refine .rest ?_ ?_ rfl ?_
      · simp [life, Sequencer.onState, hp, batchOf, hid]
      · simp [life, hp, committedOf]
      · simp only [life, Sequencer.onState, getTxStatus_set, if_neg hid]
  | indexing slot todo =>
    cases todo with
    | nil =>
      simp only [hp, Option.some.injEq] at h
      subst h
      refine life_rest rfl rfl rfl ?_ ?_
      · simp [hp, batchOf]
      · simp [hp, committedOf]
    | cons tx todo =>
      simp only [hp, Option.some.injEq] at h
      subst h
      refine life_rest rfl rfl rfl ?_ ?_
      · simp [Sequencer.onState, hp, batchOf]
      · simp [hp, committedOf]
  | marking slot tx todo =>
    simp only [hp, Option.some.injEq] at h
    subst h
    by_cases hid : tx.messageHash = txid
    · refine .mark slot ?_ ?_ rfl ?_
      · simp [life, Sequencer.onState, hp, batchOf]
      · simp [life, hp, committedOf, hid]
      · simp only [life, Sequencer.onState, getTxStatus_set, if_pos hid]
    · refine .rest ?_ ?_ rfl ?_
      · simp [life, Sequencer.onState, hp, batchOf]
      · simp [life, hp, committedOf, hid]
      · simp only [life, Sequencer.onState, getTxStatus_set, if_neg hid]
  | stopped => simp [hp] at h

/-- **A step of the node is a step of every life**, where the check still holds at the write. -/
theorem step_life {a : Action} (hok : CheckHolds s a) (h : s.step ex g a = some s')
    (txid : Blob 32) : Life.Step (life txid s) (life txid s') := by
  cases a with
  | submit tx =>
    simp only [Sequencer.step, Option.some.injEq] at h
    subst h
    refine .rest ?_ (Nat.le_refl _) rfl rfl
    simp [life, held]
  | serve i =>
    obtain ⟨c, s₁, phase, hc, hserve, rfl⟩ := step_serve h
    exact serve_life hc hok hserve txid
  | produce now => exact produce_life h txid
  | election c =>
    obtain ⟨election, -, rfl⟩ := Option.map_eq_some_iff.mp h
    exact .rest (Nat.le_refl _) (Nat.le_refl _) rfl rfl

end

/-! ## Runs -/

/-- A node on which nothing is under way yet, whatever is in its database. -/
structure Idle (s : Sequencer) : Prop where
  calls : s.calls = []
  queue : s.queue = []
  producer : s.producer = .sleeping
  commits : s.commits = []

/-- No transaction was committed twice. -/
def CommitsOnce (s : Sequencer) : Prop := (s.commits.map (·.txid)).Nodup

/-- What had succeeded in `s` has the same status in `s'`. -/
def KeepsSucceeded (s s' : Sequencer) : Prop :=
  ∀ txid slot, s.world.state.getTxStatus txid = some (.succeeded slot) →
    s'.world.state.getTxStatus txid = some (.succeeded slot)

theorem Idle.ok {s : Sequencer} (h : Idle s) (txid : Blob 32) : (life txid s).Ok := by
  have hwaiting : (life txid s).waiting = 0 := by
    simp [life, h.calls, h.queue, h.producer, batchOf]
  have hunmarked : (life txid s).unmarked = 0 := by simp [life, h.producer, committedOf]
  have hcommits : (life txid s).commits = 0 := by simp [life, h.commits]
  exact ⟨by omega, by omega, fun h => by omega, fun h => by omega, fun h => by omega⟩

/-- **At most one commit.** In every interleaving of submissions, the producer and election calls
    in which a call that writes `Pending` finds no copy on record: no transaction is
    committed twice, and a status that says it succeeded never changes. -/
theorem commit_once (ex : Executor) (g : Gate) (s₀ s : Sequencer) (actions : List Action)
    (hidle : Idle s₀) (hmeets : Meets (Sequencer.step ex g) CheckHolds s₀ actions)
    (hrun : Lib.run (Sequencer.step ex g) s₀ actions = some s) :
    CommitsOnce s ∧ ∀ pre post m, actions = pre ++ post →
      Lib.run (Sequencer.step ex g) s₀ pre = some m → KeepsSucceeded m s := by
  have hstep : ∀ s a s', CheckHolds s a → (∀ txid, (life txid s).Ok) →
      s.step ex g a = some s' → ∀ txid, (life txid s').Ok :=
    fun s a s' hok hI h txid => (step_life hok h txid).ok (hI txid)
  refine ⟨?_, ?_⟩
  · have hok := run_invariant hstep hmeets hidle.ok hrun
    rw [CommitsOnce, List.nodup_iff_count_le_one]
    intro txid
    exact (Nat.le_add_left _ _).trans (hok txid).once
  · intro pre post m hsplit hpre
    subst hsplit
    obtain ⟨m', hpre', hpost⟩ := run_append hrun
    obtain rfl : m' = m := Option.some.inj (hpre'.symm.trans hpre)
    obtain ⟨hmeets₁, hmeets₂⟩ := hmeets.append hpre
    have hok := run_invariant hstep hmeets₁ hidle.ok hpre
    have hboth := hmeets₂.and (Meets.of_invariant hstep (fun _ _ _ hI => hI) hmeets₂ hok)
    refine run_relates (R := KeepsSucceeded) (fun _ _ _ h => h)
      (fun _ _ _ h₁ h₂ txid slot h => h₂ txid slot (h₁ txid slot h)) ?_ hboth hpost
    intro s a s' hthen h txid slot hslot
    exact (step_life hthen.1 h txid).succeeded (hthen.2 txid) hslot

/-- Sending 250 of the 1000 that the sender holds. -/
def payment : RuntimeTransaction :=
  signedBy [.repeated 1] [System.transfer (.repeated 1) (.repeated 2) 250]

/-- A node that has just started, on which the sender holds 1000. -/
def payingNode : Sequencer := { world := .funded [(.repeated 1, 1000)] }

/-- Only the sender's signatures verify. -/
def payingGate : Gate := ⟨fun _ _ k => k == .repeated 1, 4⟩

theorem payingNode_idle : Idle payingNode := ⟨rfl, rfl, rfl, rfl⟩

def serves (call n : Nat) : List Action := List.replicate n (.serve call)

def produces (n : Nat) : List Action := List.replicate n (.produce 0)

/-- Sent once, put in a block, and sent again. -/
def sentAgain : List Action :=
  [.submit payment] ++ serves 0 6 ++ produces 7 ++ [.submit payment] ++ serves 1 2

theorem commit_once_sentAgain : ∃ s,
    Lib.run (Sequencer.step (.bare .dev) payingGate) payingNode sentAgain = some s ∧
      s.commits.length = 1 ∧ s.world.state.loadAccount (.repeated 2) = some (wallet 250) ∧
      CommitsOnce s := by
  have hcheck : (Lib.run (Sequencer.step (.bare .dev) payingGate) payingNode sentAgain).any
      (fun s => s.commits.length = 1 ∧
        s.world.state.loadAccount (.repeated 2) = some (wallet 250)) = true := by decide +kernel
  have hmeets : Meets (Sequencer.step (.bare .dev) payingGate) CheckHolds payingNode
      sentAgain := by decide +kernel
  obtain ⟨s, hrun, hthen⟩ := (Option.any_eq_true _ _).mp hcheck
  obtain ⟨hone, hpaid⟩ := of_decide_eq_true hthen
  exact ⟨s, hrun, hone, hpaid,
    (commit_once (.bare .dev) payingGate _ _ _ payingNode_idle hmeets hrun).1⟩

/-- Two calls that both pass the check before either of them writes. -/
def racing : List Action :=
  [.submit payment, .submit payment] ++ serves 0 4 ++ serves 1 4 ++ serves 0 2 ++ serves 1 2 ++
    produces 6

/-- The payment is committed twice, as the first and as the second transaction of its block. -/
theorem racing_commits_twice : Idle payingNode ∧ ∃ s,
    Lib.run (Sequencer.step (.bare .dev) payingGate) payingNode racing = some s ∧
      s.commits = [⟨payment.messageHash, 1, 0⟩, ⟨payment.messageHash, 1, 1⟩] ∧
      s.world.state.loadAccount (.repeated 2) = some (wallet 500) ∧ ¬ CommitsOnce s := by
  have hcheck : (Lib.run (Sequencer.step (.bare .dev) payingGate) payingNode racing).any
      (fun s => s.commits = [⟨payment.messageHash, 1, 0⟩, ⟨payment.messageHash, 1, 1⟩] ∧
        s.world.state.loadAccount (.repeated 2) = some (wallet 500)) = true := by decide +kernel
  obtain ⟨s, hrun, hthen⟩ := (Option.any_eq_true _ _).mp hcheck
  obtain ⟨hcommits, hpaid⟩ := of_decide_eq_true hthen
  refine ⟨payingNode_idle, s, hrun, hcommits, hpaid, ?_⟩
  rw [CommitsOnce, hcommits]
  simp

end Proof
end Himsha
