import Himsha.Proof.Sequencing

/-!
# A deposed leader

The producer never looks at the election state, so whether it works as a leader is a matter of
the calls alone: `leader_iff` says which ones take the flag away, and nothing that runs beside the
producer gives it back.
-/

set_option autoImplicit false

namespace Himsha
namespace Proof

open Himsha.Lib Himsha.Runtime Himsha.Programs Himsha.Vm Himsha.Node

/-- A call that takes the leader flag from a node in term `term`. -/
def Deposes (term : UInt64) : Action → Prop
  | .election (.considerVote t _) | .election (.observeTerm t) => term < t
  | .election (.observeLeader t _) => term ≤ t
  | _ => False

instance (term : UInt64) (a : Action) : Decidable (Deposes term a) := by
  unfold Deposes
  split <;> infer_instance

/-- A step that commits a transaction or saves a block. -/
def Sequences (ex : Executor) (s : Sequencer) : Action → Prop
  | .produce _ =>
      match s.producer with
      | .executing _ (tx :: _) => (ex.apply s.world tx .commit).1 = .ok ()
      | .executing _ [] => True
      | _ => False
  | _ => False

/-- What the producer does next, in a world `w`, commits or saves. -/
def decideSequencing (ex : Executor) (w : World) : ∀ p : Producer,
    Decidable (match p with
      | .executing _ (tx :: _) => (ex.apply w tx .commit).1 = .ok ()
      | .executing _ [] => True
      | _ => False)
  | .executing _ (tx :: _) => inferInstanceAs (Decidable ((ex.apply w tx .commit).1 = .ok ()))
  | .executing _ [] => isTrue trivial
  | .sleeping | .draining _ | .failing .. | .recording .. | .indexing .. | .marking .. | .stopped =>
      isFalse id

instance (ex : Executor) (s : Sequencer) : ∀ a, Decidable (Sequences ex s a)
  | .produce _ => decideSequencing ex s.world s.producer
  | .submit _ | .serve _ | .election _ => isFalse id

/-- Whoever sequences is the leader. -/
def LeaderSequences (ex : Executor) (g : Gate) (s₀ : Sequencer) (actions : List Action) : Prop :=
  ∀ pre a post s, actions = pre ++ a :: post → Lib.run (Sequencer.step ex g) s₀ pre = some s →
    Sequences ex s a → s.election.isLeader = true

/-- No deposing call comes before a commit or a block. -/
def SequencesUndeposed (ex : Executor) (g : Gate) (s₀ : Sequencer) (actions : List Action) :
    Prop :=
  ∀ pre a post s, actions = pre ++ a :: post → Lib.run (Sequencer.step ex g) s₀ pre = some s →
    Sequences ex s a → ∀ c ∈ pre, ¬ Deposes s₀.election.currentTerm c

section
variable {ex : Executor} {g : Gate} {s s' : Sequencer}

theorem execute_election (d : Draft) (tx : RuntimeTransaction) (todo : List RuntimeTransaction) :
    (s.execute ex d tx todo).election = s.election := by
  unfold Sequencer.execute
  split
  dsimp only
  split <;> rfl

theorem produce_election {now : UInt64} (h : s.produce ex now = some s') :
    s'.election = s.election := by
  unfold Sequencer.produce at h
  repeat' split at h
  all_goals cases h
  all_goals first
    | rfl
    | exact execute_election _ _ _

/-- Nothing but a call on the election state changes it. -/
theorem step_election {a : Action} (h : s.step ex g a = some s') :
    s'.election = s.election ∨ ∃ c, a = .election c ∧ s.election.handle c = some s'.election := by
  cases a with
  | submit tx =>
    simp only [Sequencer.step, Option.some.injEq] at h
    subst h
    exact .inl rfl
  | serve i =>
    obtain ⟨c, s₁, phase, hc, hserve, rfl⟩ := step_serve h
    rcases serve_cases hserve with ⟨-, -, rfl | rfl⟩ | ⟨-, -, rfl⟩ | ⟨-, -, rfl | rfl⟩
    all_goals exact .inl rfl
  | produce now => exact .inl (produce_election h)
  | election c =>
    obtain ⟨election, hhandle, rfl⟩ := Option.map_eq_some_iff.mp h
    exact .inr ⟨c, rfl, hhandle⟩

/-- A leader stays one, in its term, unless the call deposes it. -/
theorem handle_leader {e e' : ElectionState} {c : Call} (hlead : e.isLeader = true)
    (h : e.handle c = some e') :
    (¬ Deposes e.currentTerm (.election c) → e'.isLeader = true ∧ e'.currentTerm = e.currentTerm) ∧
    (Deposes e.currentTerm (.election c) → e'.isLeader = false) := by
  cases c with
  | considerVote t candidate =>
    simp only [ElectionState.handle, Option.some.injEq] at h
    subst h
    rcases e.considerVote_cases t candidate with ⟨hlt, heq⟩ | ⟨rfl, -, heq⟩ | ⟨c, rfl, -, heq⟩ |
      ⟨hgt, heq⟩
    · rw [heq]
      exact ⟨fun _ => ⟨hlead, rfl⟩, fun hd => absurd hd (UInt64.lt_asymm hlt)⟩
    · rw [heq]
      exact ⟨fun _ => ⟨hlead, rfl⟩, fun hd => absurd hd (UInt64.lt_irrefl _)⟩
    · rw [heq]
      exact ⟨fun _ => ⟨hlead, rfl⟩, fun hd => absurd hd (UInt64.lt_irrefl _)⟩
    · rw [heq]
      exact ⟨fun hd => absurd hgt hd, fun _ => rfl⟩
  | considerPreVote t =>
    simp only [ElectionState.handle, Option.some.injEq] at h
    subst h
    exact ⟨fun _ => ⟨hlead, rfl⟩, fun hd => hd.elim⟩
  | observeTerm t =>
    simp only [ElectionState.handle, Option.some.injEq] at h
    subst h
    unfold ElectionState.observeTerm
    split
    · rename_i hgt
      exact ⟨fun hd => absurd hgt hd, fun _ => rfl⟩
    · rename_i hle
      exact ⟨fun _ => ⟨hlead, rfl⟩, fun hd => absurd hd hle⟩
  | observeLeader t leader =>
    simp only [ElectionState.handle, Option.some.injEq] at h
    subst h
    unfold ElectionState.observeLeader
    split
    · rename_i hge
      exact ⟨fun hd => absurd hge hd, fun _ => rfl⟩
    · rename_i hlt
      exact ⟨fun _ => ⟨hlead, rfl⟩, fun hd => absurd hd hlt⟩
  | startCandidacy => simp [ElectionState.handle] at h
  | becomeLeader => simp [ElectionState.handle] at h

/-- And one that was deposed stays so. -/
theorem handle_deposed {e e' : ElectionState} {c : Call} (hlead : e.isLeader = false)
    (h : e.handle c = some e') : e'.isLeader = false := by
  cases c with
  | considerVote t candidate =>
    simp only [ElectionState.handle, Option.some.injEq] at h
    subst h
    rcases e.considerVote_cases t candidate with ⟨-, heq⟩ | ⟨-, -, heq⟩ |
      ⟨c, -, -, heq⟩ | ⟨-, heq⟩
    · rw [heq]
      exact hlead
    · rw [heq]
      exact hlead
    · rw [heq]
      exact hlead
    · rw [heq]
      rfl
  | considerPreVote t =>
    simp only [ElectionState.handle, Option.some.injEq] at h
    exact h ▸ hlead
  | observeTerm t =>
    simp only [ElectionState.handle, Option.some.injEq] at h
    subst h
    unfold ElectionState.observeTerm
    split
    · rfl
    · exact hlead
  | observeLeader t leader =>
    simp only [ElectionState.handle, Option.some.injEq] at h
    subst h
    unfold ElectionState.observeLeader
    split
    · rfl
    · exact hlead
  | startCandidacy => simp [ElectionState.handle] at h
  | becomeLeader => simp [ElectionState.handle] at h

theorem deposes_election {term : UInt64} {a : Action} (h : Deposes term a) :
    ∃ c, a = .election c := by
  cases a with
  | election c => exact ⟨c, rfl⟩
  | submit tx => exact h.elim
  | serve i => exact h.elim
  | produce now => exact h.elim

theorem step_deposed {a : Action} (hlead : s.election.isLeader = false)
    (h : s.step ex g a = some s') : s'.election.isLeader = false := by
  rcases step_election h with hsame | ⟨c, rfl, hhandle⟩
  · rw [hsame]
    exact hlead
  · exact handle_deposed hlead hhandle

/-- **What a run leaves of a leader**: it is one still if no call deposed it. -/
theorem leader_iff {actions : List Action} :
    ∀ {s s' : Sequencer}, s.election.isLeader = true →
      Lib.run (Sequencer.step ex g) s actions = some s' →
      (s'.election.isLeader = true ↔ ∀ a ∈ actions, ¬ Deposes s.election.currentTerm a) := by
  induction actions with
  | nil =>
    intro s s' hlead hrun
    simp only [run_nil, Option.some.injEq] at hrun
    subst hrun
    simp [hlead]
  | cons a rest ih =>
    intro s s' hlead hrun
    obtain ⟨m, hm, hrest⟩ := run_cons hrun
    by_cases hdep : Deposes s.election.currentTerm a
    · have hm' : m.election.isLeader = false := by
        obtain ⟨c, rfl⟩ := deposes_election hdep
        obtain ⟨election, hhandle, rfl⟩ := Option.map_eq_some_iff.mp hm
        exact (handle_leader hlead hhandle).2 hdep
      have hmeets : Meets (Sequencer.step ex g) (fun _ _ => True) m rest :=
        Meets.of_forall fun _ _ => trivial
      have hend : s'.election.isLeader = false :=
        run_invariant (I := fun s => s.election.isLeader = false)
          (fun _ _ _ _ hI h => step_deposed hI h) hmeets hm' hrest
      simp [hend, hdep]
    · obtain ⟨hm', hterm⟩ : m.election.isLeader = true ∧
          m.election.currentTerm = s.election.currentTerm := by
        rcases step_election hm with hsame | ⟨c, rfl, hhandle⟩
        · rw [hsame]
          exact ⟨hlead, rfl⟩
        · exact (handle_leader hlead hhandle).1 hdep
      rw [ih hm' hrest, hterm]
      simp [hdep]

end

/-- **Who sequences.** In every interleaving, from a leader that starts to produce in some term:
    the node is the leader whenever it commits a transaction or saves a block if and only if no
    commit and no block comes after a vote request or an observed term above that term, or
    after an observed leader of that term or above. -/
theorem sequencing_leader_iff (ex : Executor) (g : Gate) (s₀ : Sequencer) (actions : List Action)
    (hlead : s₀.election.isLeader = true) :
    LeaderSequences ex g s₀ actions ↔ SequencesUndeposed ex g s₀ actions := by
  constructor
  · intro h pre a post s hsplit hrun hseq
    exact (leader_iff hlead hrun).mp (h pre a post s hsplit hrun hseq)
  · intro h pre a post s hsplit hrun hseq
    exact (leader_iff hlead hrun).mpr (h pre a post s hsplit hrun hseq)

/-- The paying node as its primary. -/
def leadingNode : Sequencer :=
  { payingNode with election := payingNode.election.becomeLeader "http://127.0.0.1:9100" }

/-- A payment is accepted and taken into a batch, and then an election call arrives. -/
def callInBatch (c : Call) : List Action :=
  [.submit payment] ++ serves 0 6 ++ produces 3 ++ [.election c]

/-- A stale vote request changes nothing. -/
theorem sequencing_leader_stale :
    (Lib.run (Sequencer.step (.bare .dev) payingGate) leadingNode
      (callInBatch (.considerVote 0 "B") ++ produces 1)).isSome = true ∧
    LeaderSequences (.bare .dev) payingGate leadingNode
      (callInBatch (.considerVote 0 "B") ++ produces 1) := by
  refine ⟨by decide +kernel, (sequencing_leader_iff _ _ _ _ rfl).mpr ?_⟩
  intro pre a post s hsplit _ _ c hc
  have hstale : ∀ c ∈ callInBatch (.considerVote 0 "B") ++ produces 1,
      ¬ Deposes leadingNode.election.currentTerm c := by decide
  apply hstale
  rw [hsplit]
  exact List.mem_append_left _ hc

/-- A vote request for term 1 takes the flag, and the payment is committed all the same. -/
theorem deposed_leader_commits :
    leadingNode.election.isLeader = true ∧
    ¬ LeaderSequences (.bare .dev) payingGate leadingNode
      (callInBatch (.considerVote 1 "B") ++ produces 1) := by
  refine ⟨rfl, fun h => ?_⟩
  have hcheck : (Lib.run (Sequencer.step (.bare .dev) payingGate) leadingNode
      (callInBatch (.considerVote 1 "B"))).any (fun s =>
        Sequences (.bare .dev) s (.produce 0) ∧ s.election.isLeader = false) = true := by
    decide +kernel
  obtain ⟨s, hrun, hthen⟩ := (Option.any_eq_true _ _).mp hcheck
  obtain ⟨hseq, hfalse⟩ := of_decide_eq_true hthen
  have htrue := h _ (.produce 0) [] s rfl hrun hseq
  rw [hfalse] at htrue
  simp at htrue

end Proof
end Himsha
