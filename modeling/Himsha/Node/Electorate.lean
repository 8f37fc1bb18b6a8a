import Mathlib.Logic.Function.Basic
import Himsha.Lib.Run
import Himsha.Node.Election

/-!
# The members of an election, and the votes they have cast

The state an election is about: every node's `ElectionState`, in its own mutex, and a history
of every vote cast so far. The history is a ghost: no operation reads it. It is what "has voted
for two candidates in one term" is a statement about, since `votedFor` itself is overwritten.

A panic while the mutex is held poisons it, after which every `lock().unwrap()` on that node
panics too; `poisoned` records that, and a poisoned node takes no further call.
-/

set_option autoImplicit false

namespace Himsha
namespace Node

open Lib

/-- The calls the node makes on its election state. -/
inductive Call where
  | considerVote (term : UInt64) (candidate : String)
  | considerPreVote (term : UInt64)
  | startCandidacy
  | observeTerm (term : UInt64)
  | observeLeader (term : UInt64) (leader : String)
  | becomeLeader
deriving DecidableEq, Repr

/-- How a vote came about: a granted `RequestVote`, or the self-vote of a candidacy. -/
inductive Ballot where
  | granted
  | own
deriving DecidableEq, Repr

structure Vote where
  voter : String
  term : UInt64
  candidate : String
  ballot : Ballot
deriving DecidableEq, Repr

/-- One call: the state it leaves, and the vote it casts, if it casts one. -/
def ElectionState.call (π : Profile) (selfId : String) (s : ElectionState) :
    Call → Option (ElectionState × Option Vote)
  | .considerVote term candidate =>
      let (s', reply) := s.considerVote term candidate
      some (s', if reply.granted then some ⟨selfId, reply.term, candidate, .granted⟩ else none)
  | .considerPreVote _ => some (s, none)
  | .startCandidacy =>
      (s.startCandidacy π selfId).map fun (s', term) => (s', some ⟨selfId, term, selfId, .own⟩)
  | .observeTerm term => some (s.observeTerm term, none)
  | .observeLeader term leader => some (s.observeLeader term leader, none)
  | .becomeLeader => some (s.becomeLeader selfId, none)

structure Electorate where
  states : String → ElectionState
  poisoned : String → Bool := fun _ => false
  votes : List Vote := []

/-- One call at one node; not enabled once the node's mutex is poisoned. -/
def Electorate.step (π : Profile) (e : Electorate) (a : String × Call) : Option Electorate :=
  if e.poisoned a.1 then none
  else match (e.states a.1).call π a.1 a.2 with
    | none => some { e with poisoned := Function.update e.poisoned a.1 true }
    | some (s, cast) =>
        some { e with
          states := Function.update e.states a.1 s
          votes := cast.toList ++ e.votes }

/-- The call does not run `current_term += 1` past `u64::MAX` in a build that wraps. -/
def NoWrap (π : Profile) (s : ElectionState) (c : Call) : Prop :=
  c = .startCandidacy → π = .release → s.currentTerm.toNat + 1 < 2 ^ 64

instance (π : Profile) (s : ElectionState) (c : Call) : Decidable (NoWrap π s c) :=
  inferInstanceAs (Decidable (_ → _ → _))

/-- The state `main` gives a starting process: the default, and a node that follows nobody is
    the primary and leads at once. `NodeState::open` reopens the account, UTXO, block and
    transaction tables; none of them holds a term or a vote. -/
def bootState (follows : String → Bool) (n : String) : ElectionState :=
  if follows n then {} else ElectionState.becomeLeader {} n

/-- A call at a running node, or the restart of its process. -/
inductive Event where
  | call (n : String) (c : Call)
  | restart (n : String)
deriving DecidableEq, Repr

/-- One event of a run in which processes may crash. A new process has a new mutex, so a
    restart also clears the poison. -/
def Electorate.event (π : Profile) (follows : String → Bool) (e : Electorate) :
    Event → Option Electorate
  | .call n c => e.step π (n, c)
  | .restart n =>
      some { e with
        states := Function.update e.states n (bootState follows n)
        poisoned := Function.update e.poisoned n false }

/-! ## What a call can do -/

/-- Everything the invariants need to know about one call that returned. -/
structure Progress (selfId : String) (s s' : ElectionState) (c : Call) (cast : Option Vote) :
    Prop where
  term_le : s.currentTerm.toNat ≤ s'.currentTerm.toNat
  /-- Within a term, a recorded vote is never replaced. -/
  keeps_vote : s'.currentTerm = s.currentTerm → ∀ x, s.votedFor = some x → s'.votedFor = some x
  /-- A vote is cast in the term the call ends in, and is the one then on record. -/
  cast_recorded : ∀ v, cast = some v →
    v.voter = selfId ∧ v.term = s'.currentTerm ∧ s'.votedFor = some v.candidate
  /-- A self-vote is in a fresh term. -/
  own_fresh : ∀ v, cast = some v → v.ballot = .own →
    c = .startCandidacy ∧ v.candidate = selfId ∧ s.currentTerm.toNat < v.term.toNat
  /-- Only `become_leader` raises the leader flag, and no call moves a leader's term. -/
  leader_from : s'.isLeader = true →
    c = .becomeLeader ∨ (s.isLeader = true ∧ s'.currentTerm = s.currentTerm)
  becomes : c = .becomeLeader → s' = s.becomeLeader selfId

/-- A call that casts no vote, keeps the vote on record within its term, and does not raise the
    leader flag. -/
theorem Progress.quiet {selfId : String} {s s' : ElectionState} {c : Call}
    (hc : c ≠ .becomeLeader)
    (hle : s.currentTerm.toNat ≤ s'.currentTerm.toNat)
    (hkeep : s'.currentTerm = s.currentTerm → s'.votedFor = s.votedFor)
    (hlead : s'.isLeader = true → s.isLeader = true ∧ s'.currentTerm = s.currentTerm) :
    Progress selfId s s' c none where
  term_le := hle
  keeps_vote := fun ht x hx => by rw [hkeep ht, hx]
  cast_recorded := fun v hv => absurd hv (by simp)
  own_fresh := fun v hv => absurd hv (by simp)
  leader_from := fun h => Or.inr (hlead h)
  becomes := fun h => absurd h hc

theorem call_considerVote {selfId : String} {s s' : ElectionState} {term : UInt64}
    {candidate : String} {cast : Option Vote} {π : Profile}
    (h : s.call π selfId (.considerVote term candidate) = some (s', cast)) :
    Progress selfId s s' (.considerVote term candidate) cast := by
  simp only [ElectionState.call, Option.some.injEq, Prod.mk.injEq] at h
  obtain ⟨hs, hcast⟩ := h
  rcases s.considerVote_cases term candidate with
    ⟨hlt, heq⟩ | ⟨rfl, hnone, heq⟩ | ⟨c, rfl, hsome, heq⟩ | ⟨hgt, heq⟩
  · rw [heq] at hs hcast
    subst hs
    simp only [Bool.false_eq_true, if_false] at hcast
    subst hcast
    exact Progress.quiet (by simp) (le_refl _) (fun _ => rfl) (fun hl => ⟨hl, rfl⟩)
  · rw [heq] at hs hcast
    subst hs
    simp only [if_true] at hcast
    subst hcast
    refine ⟨le_refl _, ?_, ?_, ?_, fun hl => Or.inr ⟨hl, rfl⟩, by simp⟩
    · intro _ x hx
      rw [hnone] at hx
      exact absurd hx (by simp)
    · rintro _ ⟨⟩
      exact ⟨rfl, rfl, rfl⟩
    · rintro _ ⟨⟩ hown
      exact absurd hown (by simp)
  · rw [heq] at hs hcast
    subst hs
    refine ⟨le_refl _, fun _ _ hx => hx, ?_, ?_, fun hl => Or.inr ⟨hl, rfl⟩, by simp⟩
    · intro v hv
      rw [hv] at hcast
      by_cases hcc : c = candidate
      · simp only [hcc, beq_self_eq_true, if_true, Option.some.injEq] at hcast
        subst hcast
        exact ⟨rfl, rfl, by rw [hsome, hcc]⟩
      · simp [hcc] at hcast
    · intro v hv hown
      rw [hv] at hcast
      by_cases hcc : c = candidate
      · simp only [hcc, beq_self_eq_true, if_true, Option.some.injEq] at hcast
        subst hcast
        exact absurd hown (by simp)
      · simp [hcc] at hcast
  · rw [heq] at hs hcast
    subst hs
    simp only [if_true] at hcast
    subst hcast
    have hgt' := UInt64.lt_iff_toNat_lt.mp hgt
    refine ⟨hgt'.le, ?_, ?_, ?_, ?_, by simp⟩
    · intro heqt
      exact absurd (show term = s.currentTerm from heqt) (UInt64.ne_of_lt hgt).symm
    · rintro _ ⟨⟩
      exact ⟨rfl, rfl, rfl⟩
    · rintro _ ⟨⟩ hown
      exact absurd hown (by simp)
    · intro hl
      exact absurd hl (by simp [ElectionState.enterTerm])

theorem call_startCandidacy {selfId : String} {s s' : ElectionState} {cast : Option Vote}
    {π : Profile} (hnw : NoWrap π s .startCandidacy)
    (h : s.call π selfId .startCandidacy = some (s', cast)) :
    Progress selfId s s' .startCandidacy cast := by
  simp only [ElectionState.call] at h
  obtain ⟨⟨s₁, term⟩, hstart, heq⟩ := Option.map_eq_some_iff.mp h
  simp only [Prod.mk.injEq] at heq
  obtain ⟨rfl, rfl⟩ := heq
  obtain ⟨rfl, hterm⟩ := ElectionState.startCandidacy_eq_some hstart
  have hsucc : term.toNat = s.currentTerm.toNat + 1 := by
    rcases hterm with hsucc | ⟨hπ, hmax, _⟩
    · exact hsucc
    · have := hnw rfl hπ
      omega
  refine ⟨by simp only; omega, ?_, ?_, ?_, ?_, by simp⟩
  · intro heqt
    have := congrArg UInt64.toNat heqt
    simp only at this
    omega
  · rintro v hv
    simp only [Option.some.injEq] at hv
    subst hv
    exact ⟨rfl, rfl, rfl⟩
  · rintro v hv _
    simp only [Option.some.injEq] at hv
    subst hv
    exact ⟨rfl, rfl, by simp only; omega⟩
  · intro hl
    exact absurd hl (by simp)

/-- **The one case analysis over the calls.** Every invariant of a run is derived from it. -/
theorem call_progress {selfId : String} {s s' : ElectionState} {c : Call} {cast : Option Vote}
    {π : Profile} (hnw : NoWrap π s c) (h : s.call π selfId c = some (s', cast)) :
    Progress selfId s s' c cast := by
  cases c with
  | considerVote term candidate => exact call_considerVote h
  | startCandidacy => exact call_startCandidacy hnw h
  | considerPreVote term =>
    simp only [ElectionState.call, Option.some.injEq, Prod.mk.injEq] at h
    obtain ⟨rfl, rfl⟩ := h
    exact Progress.quiet (by simp) (le_refl _) (fun _ => rfl) (fun hl => ⟨hl, rfl⟩)
  | observeTerm term =>
    simp only [ElectionState.call, Option.some.injEq, Prod.mk.injEq] at h
    obtain ⟨rfl, rfl⟩ := h
    by_cases hgt : s.currentTerm < term
    · have hgt' := UInt64.lt_iff_toNat_lt.mp hgt
      have heq : s.observeTerm term = ElectionState.enterTerm term := by
        simp [ElectionState.observeTerm, hgt]
      rw [heq]
      refine Progress.quiet (by simp) hgt'.le ?_ (by simp [ElectionState.enterTerm])
      intro ht
      exact absurd (show term = s.currentTerm from ht) (UInt64.ne_of_lt hgt).symm
    · have heq : s.observeTerm term = s := by simp [ElectionState.observeTerm, hgt]
      rw [heq]
      exact Progress.quiet (by simp) (le_refl _) (fun _ => rfl) (fun hl => ⟨hl, rfl⟩)
  | observeLeader term leader =>
    simp only [ElectionState.call, Option.some.injEq, Prod.mk.injEq] at h
    obtain ⟨rfl, rfl⟩ := h
    by_cases hge : s.currentTerm ≤ term
    · have hge' := UInt64.le_iff_toNat_le.mp hge
      have heq : s.observeLeader term leader
          = { s with currentTerm := term, leader := some leader, isLeader := false } := by
        simp [ElectionState.observeLeader, hge]
      rw [heq]
      exact Progress.quiet (by simp) hge' (fun _ => rfl) (by simp)
    · have heq : s.observeLeader term leader = s := by
        simp [ElectionState.observeLeader, hge]
      rw [heq]
      exact Progress.quiet (by simp) (le_refl _) (fun _ => rfl) (fun hl => ⟨hl, rfl⟩)
  | becomeLeader =>
    simp only [ElectionState.call, Option.some.injEq, Prod.mk.injEq] at h
    obtain ⟨rfl, rfl⟩ := h
    exact ⟨le_refl _, fun _ _ hx => hx, by simp, by simp, fun _ => Or.inl rfl, fun _ => rfl⟩

/-- A step of the electorate: the panic of the caller, or one call at one node. -/
theorem Electorate.step_cases {π : Profile} {e e' : Electorate} {n : String} {c : Call}
    (h : e.step π (n, c) = some e') :
    e.poisoned n = false ∧
      ((c = .startCandidacy ∧ e' = { e with poisoned := Function.update e.poisoned n true }) ∨
        ∃ s cast, (e.states n).call π n c = some (s, cast) ∧
          e' = { e with
            states := Function.update e.states n s
            votes := cast.toList ++ e.votes }) := by
  unfold Electorate.step at h
  split at h
  · simp at h
  · rename_i hp
    refine ⟨by simpa using hp, ?_⟩
    simp only at h
    cases hcall : (e.states n).call π n c with
    | none =>
      rw [hcall] at h
      simp only [Option.some.injEq] at h
      refine Or.inl ⟨?_, h.symm⟩
      cases c <;> simp [ElectionState.call] at hcall ⊢
    | some p =>
      obtain ⟨s, cast⟩ := p
      rw [hcall] at h
      simp only [Option.some.injEq] at h
      exact Or.inr ⟨s, cast, rfl, h.symm⟩

/-- A candidacy that does not panic: the new state, and the self-vote in the history. -/
theorem Electorate.step_startCandidacy {π : Profile} {e e' : Electorate} {n : String}
    {s : ElectionState} {term : UInt64}
    (hstart : (e.states n).startCandidacy π n = some (s, term))
    (h : e.step π (n, .startCandidacy) = some e') :
    e' = { e with
      states := Function.update e.states n s
      votes := ⟨n, term, n, .own⟩ :: e.votes } := by
  have hp : e.poisoned n = false := (Electorate.step_cases h).1
  simp only [Electorate.step, ElectionState.call, hp, hstart, Bool.false_eq_true, if_false,
    Option.map_some, Option.some.injEq] at h
  exact h.symm

end Node
end Himsha
