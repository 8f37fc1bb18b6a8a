import Himsha.Proof.Pipeline

/-!
# Transactions that a crash leaves pending

The status of a transaction is in the database, its place in the pipeline is in memory. A crash
takes the second and leaves the first: the id stays on record as pending, there is no copy of it
left, and a new submission is refused because of the record. `Orphaned` is that state, and no
statement of the node gets an id out of it.
-/

set_option autoImplicit false

namespace Himsha
namespace Proof

open Himsha.Lib Himsha.Runtime Himsha.Programs Himsha.Node

/-- The call has not got past the check of the status, or it never will. -/
def TurnedAway : CallPhase → Prop
  | .received | .admitted | .unincluded | .answered (.error _) => True
  | .unsubmitted | .preflighted | .accepted | .answered (.ok _) | .crashed => False

/-- On record as pending, with no copy left and no call that will write or send one. -/
structure Orphaned (txid : Blob 32) (s : Sequencer) : Prop where
  pending : (life txid s).status = some .pending
  waiting : (life txid s).waiting = 0
  unmarked : (life txid s).unmarked = 0
  turnedAway : ∀ c ∈ s.calls, c.tx.messageHash = txid → TurnedAway c.phase

/-- An id with no copy under way stays as it is. -/
theorem Life.Step.still {a b : Life} (h : Life.Step a b) (hpending : a.status = some .pending)
    (hwaiting : a.waiting = 0) (hunmarked : a.unmarked = 0) :
    b.status = some .pending ∧ b.waiting = 0 ∧ b.unmarked = 0 ∧ b.commits = a.commits := by
  cases h with
  | rest hwaiting' hunmarked' hcommits hstatus =>
    exact ⟨hstatus.trans hpending, by omega, by omega, hcommits⟩
  | accept hfree => exact absurd (.inl hpending) hfree
  | commit hwaiting' => omega
  | fail slot error hwaiting' => omega
  | mark slot hwaiting' hunmarked' => omega

section
variable {ex : Executor} {g : Gate} {s s' : Sequencer} {txid : Blob 32}

theorem afterCheck_turnedAway {check : Except RpcError Unit} {next : CallPhase}
    (h : TurnedAway next) : TurnedAway (Sequencer.afterCheck check next) := by
  unfold Sequencer.afterCheck
  split
  · exact h
  · trivial

/-- The check of the status refuses an id that is pending. -/
theorem serve_turnedAway {c : SendCall} {phase : CallPhase}
    (hpending : s.world.state.getTxStatus c.tx.messageHash = some .pending)
    (haway : TurnedAway c.phase) (h : s.serve ex g c = some (s', phase)) : TurnedAway phase := by
  obtain ⟨tx, at_⟩ := c
  unfold Sequencer.serve at h
  cases at_ with
  | received | admitted =>
    simp only [Option.some.injEq, Prod.mk.injEq] at h
    exact h.2 ▸ afterCheck_turnedAway trivial
  | unincluded =>
    simp only [Option.some.injEq, Prod.mk.injEq] at h
    obtain ⟨-, rfl⟩ := h
    simp [checkStatus, hpending, Sequencer.afterCheck, TurnedAway]
  | answered reply => simp at h
  | unsubmitted | preflighted | accepted | crashed => exact haway.elim

/-- A call at work on another id, or one that is turned away, leaves the life of this one. -/
theorem serve_still {c : SendCall} {phase : CallPhase} {i : Nat} (ho : Orphaned txid s)
    (hc : s.calls[i]? = some c) (h : s.serve ex g c = some (s', phase)) :
    Life.Step (life txid s) (life txid { s' with calls := s'.calls.set i { c with phase } }) := by
  by_cases hphase : c.phase = .preflighted
  · -- It writes the status of its own id, which is not this one.
    have hid : c.tx.messageHash ≠ txid := by
      intro hid
      have haway := ho.turnedAway c (List.mem_of_getElem? hc) hid
      rw [hphase] at haway
      exact haway
    obtain ⟨tx, at_⟩ := c
    simp only at hphase hid
    subst hphase
    have hcount := held_set ⟨tx, phase⟩ hc txid
    simp only [Sequencer.serve, Option.some.injEq, Prod.mk.injEq] at h
    obtain ⟨rfl, rfl⟩ := h
    have hbefore : held ⟨tx, .preflighted⟩ = [] := rfl
    have hafter : held ⟨tx, .accepted⟩ = [tx.messageHash] := rfl
    rw [hbefore, hafter, List.count_nil, List.count_singleton, if_neg (by simpa using hid)]
      at hcount
    refine .rest ?_ (Nat.le_refl _) rfl ?_
    · simp only [life, Sequencer.onState]
      omega
    · simp only [life, Sequencer.onState, getTxStatus_set, if_neg hid]
  · have hok : CheckHolds s (.serve i) := by
      obtain ⟨tx, at_⟩ := c
      simp only [CheckHolds, hc]
      split
      · rename_i heq
        cases heq
        exact absurd rfl hphase
      · trivial
    exact serve_life hc hok h txid

/-- **No statement of the node gets an orphan out**, and none commits it. -/
theorem step_orphaned {a : Action} (ho : Orphaned txid s) (h : s.step ex g a = some s') :
    Orphaned txid s' ∧ (life txid s').commits = (life txid s).commits := by
  cases a with
  | submit tx =>
    simp only [Sequencer.step, Option.some.injEq] at h
    subst h
    have hwaiting := ho.waiting
    refine ⟨⟨ho.pending, ?_, ho.unmarked, fun c hc hid => ?_⟩, rfl⟩
    · simpa [life, held] using hwaiting
    · rcases List.mem_append.mp hc with hc | hc
      · exact ho.turnedAway c hc hid
      · obtain rfl := List.mem_singleton.mp hc
        trivial
  | serve i =>
    obtain ⟨c, s₁, phase, hc, hserve, rfl⟩ := step_serve h
    have hcalls : s₁.calls = s.calls := by
      rcases serve_cases hserve with ⟨-, -, rfl | rfl⟩ | ⟨-, -, rfl⟩ | ⟨-, -, rfl | rfl⟩ <;> rfl
    obtain ⟨hpending, hwaiting, hunmarked, hcommits⟩ :=
      (serve_still ho hc hserve).still ho.pending ho.waiting ho.unmarked
    refine ⟨⟨hpending, hwaiting, hunmarked, fun c' hc' hid => ?_⟩, hcommits⟩
    rw [hcalls] at hc'
    rcases List.mem_or_eq_of_mem_set hc' with hmem | rfl
    · exact ho.turnedAway c' hmem hid
    · subst hid
      have haway := ho.turnedAway c (List.mem_of_getElem? hc) rfl
      have htaken : s.world.state.getTxStatus c.tx.messageHash = some .pending := ho.pending
      exact serve_turnedAway htaken haway hserve
  | produce now =>
    have hcalls : s'.calls = s.calls := produce_calls h
    obtain ⟨hpending, hwaiting, hunmarked, hcommits⟩ :=
      (produce_life h txid).still ho.pending ho.waiting ho.unmarked
    exact ⟨⟨hpending, hwaiting, hunmarked, hcalls ▸ ho.turnedAway⟩, hcommits⟩
  | election c =>
    obtain ⟨election, -, rfl⟩ := Option.map_eq_some_iff.mp h
    exact ⟨⟨ho.pending, ho.waiting, ho.unmarked, ho.turnedAway⟩, rfl⟩

/-- A crash makes an orphan of every id that is pending. -/
theorem reopened_orphaned {boot : ElectionState}
    (hpending : s.world.state.getTxStatus txid = some .pending) :
    Orphaned txid (s.reopened boot) :=
  ⟨hpending, rfl, rfl, by simp [Sequencer.reopened]⟩

end

/-- **What is pending at a crash stays pending for ever.** Whatever happens on the node afterwards,
    further crashes included: the status of such a transaction never changes, it is not committed
    again, and every call that sends it is answered with an error or not at all. -/
theorem pending_at_crash (ex : Executor) (g : Gate) (boot : ElectionState) (s s' : Sequencer)
    (incidents : List Incident) (txid : Blob 32)
    (hpending : s.world.state.getTxStatus txid = some .pending)
    (hrun : Lib.run (Sequencer.incident ex g boot) (s.reopened boot) incidents = some s') :
    s'.world.state.getTxStatus txid = some .pending ∧
      (s'.commits.map (·.txid)).count txid = (s.commits.map (·.txid)).count txid ∧
      ∀ c ∈ s'.calls, c.tx.messageHash = txid →
        ∀ reply, c.phase = .answered reply → ∃ e, reply = .error e := by
  have hstep : ∀ t i t', Orphaned txid t → t.incident ex g boot i = some t' →
      Orphaned txid t' ∧ (life txid t').commits = (life txid t).commits := by
    intro t i t' ho h
    cases i with
    | act a => exact step_orphaned ho h
    | crash =>
      simp only [Sequencer.incident, Option.some.injEq] at h
      subst h
      exact ⟨reopened_orphaned ho.pending, rfl⟩
  obtain ⟨horphaned, hcommits⟩ :=
    run_extends (R := fun t t' => (life txid t').commits = (life txid t).commits)
      (fun _ => rfl) (fun _ _ _ h₁ h₂ => h₂.trans h₁) hstep (reopened_orphaned hpending) hrun
  refine ⟨horphaned.pending, hcommits, fun c hc hid reply hreply => ?_⟩
  have haway := horphaned.turnedAway c hc hid
  rw [hreply] at haway
  cases reply with
  | ok sent => exact haway.elim
  | error e => exact ⟨e, rfl⟩

/-- Accepted, the node crashes before it is sent on, and it is submitted once more. -/
def sentAfterCrash : List Incident :=
  (.submit emptyTransaction :: serves 0 3 : List Action).map .act

theorem pending_at_crash_refused : ∃ s s',
    Lib.run (Sequencer.step (.bare .dev) payingGate) emptyNode
        (.submit emptyTransaction :: serves 0 5) = some s ∧
      Lib.run (Sequencer.incident (.bare .dev) payingGate {}) (s.reopened {}) sentAfterCrash =
        some s' ∧
      s'.world.state.getTxStatus emptyTransaction.messageHash = some .pending ∧
      ∀ c ∈ s'.calls, c.tx.messageHash = emptyTransaction.messageHash →
        ∀ reply, c.phase = .answered reply → ∃ e, reply = .error e := by
  have hcheck : (Lib.run (Sequencer.step (.bare .dev) payingGate) emptyNode
      (.submit emptyTransaction :: serves 0 5)).any (fun s =>
        s.world.state.getTxStatus emptyTransaction.messageHash = some .pending ∧
        (Lib.run (Sequencer.incident (.bare .dev) payingGate {}) (s.reopened {})
          sentAfterCrash).isSome) = true := by
    decide +kernel
  obtain ⟨s, hrun, hthen⟩ := (Option.any_eq_true _ _).mp hcheck
  obtain ⟨hpending, hsome⟩ := of_decide_eq_true hthen
  obtain ⟨s', hrun'⟩ := Option.isSome_iff_exists.mp hsome
  obtain ⟨hstill, -, hrefused⟩ :=
    pending_at_crash (.bare .dev) payingGate {} s s' _ _ hpending hrun'
  exact ⟨s, s', hrun, hrun', hstill, hrefused⟩

end Proof
end Himsha
