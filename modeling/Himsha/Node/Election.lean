import Himsha.Lib.UInt

/-!
# `election.rs` — the per-node election state

`ElectionState` and its six operations, as the node runs them under its election mutex, and
the quorum arithmetic. Node ids are the member URLs, so they are `String`s.

Two places of the source add one to a term with a plain `+` (`start_candidacy` here, the
pre-vote term in `Follower::elect`), so both take the build profile and answer `none` where
the addition panics.
-/

set_option autoImplicit false

namespace Himsha
namespace Node

open Lib

/-- Per-node election state: term, per-term vote, and current-leader view. The field defaults
    are `ElectionState::default()`. -/
structure ElectionState where
  currentTerm : UInt64 := 0
  votedFor : Option String := none
  /-- This node believes it is the leader for `currentTerm`. -/
  isLeader : Bool := false
  /-- Best-known leader URL for `currentTerm`. -/
  leader : Option String := none
deriving DecidableEq, Repr

/-- A `RequestVote` or pre-vote reply. -/
structure VoteReply where
  term : UInt64
  granted : Bool
deriving DecidableEq, Repr

/-- A node's view of the current leader, as `getLeader` serves it. -/
structure LeaderInfo where
  term : UInt64
  leader : Option String
deriving DecidableEq, Repr

namespace ElectionState

/-- The step-down a newer term causes: the vote of the old term is forgotten. -/
def enterTerm (term : UInt64) : ElectionState :=
  { currentTerm := term, votedFor := none, isLeader := false, leader := none }

/-- Apply the vote rule for a `RequestVote(term, candidate)`. -/
def considerVote (s : ElectionState) (term : UInt64) (candidate : String) :
    ElectionState × VoteReply :=
  if term < s.currentTerm then
    (s, { term := s.currentTerm, granted := false })
  else
    let s := if term > s.currentTerm then enterTerm term else s
    match s.votedFor with
    | none => ({ s with votedFor := some candidate }, { term := s.currentTerm, granted := true })
    | some c => (s, { term := s.currentTerm, granted := c == candidate })

/-- The non-binding pre-vote poll. It reads the state and changes nothing. -/
def considerPreVote (s : ElectionState) (term : UInt64) : VoteReply :=
  { term := s.currentTerm, granted := decide (term ≥ s.currentTerm) && !s.isLeader }

/-- Begin a candidacy: bump to a new term and vote for ourselves. `none` is the overflow
    panic of `current_term += 1` in a build with overflow checks. -/
def startCandidacy (π : Profile) (s : ElectionState) (selfId : String) :
    Option (ElectionState × UInt64) :=
  (addU64 π s.currentTerm 1).map fun term =>
    ({ currentTerm := term, votedFor := some selfId, isLeader := false, leader := none }, term)

/-- Observe a peer's higher term and step back to follower for it. -/
def observeTerm (s : ElectionState) (term : UInt64) : ElectionState :=
  if term > s.currentTerm then enterTerm term else s

/-- Record that this node won the election and is now leader. -/
def becomeLeader (s : ElectionState) (selfId : String) : ElectionState :=
  { s with isLeader := true, leader := some selfId }

/-- Record an externally observed leader for a term at least ours. Note that `votedFor` is
    carried over into the new term. -/
def observeLeader (s : ElectionState) (term : UInt64) (leader : String) : ElectionState :=
  if term ≥ s.currentTerm then
    { s with currentTerm := term, leader := some leader, isLeader := false }
  else s

def leaderInfo (s : ElectionState) : LeaderInfo :=
  { term := s.currentTerm, leader := s.leader }

end ElectionState

/-- Votes needed for a majority of `members` nodes. -/
def quorum (members : Nat) : Nat := members / 2 + 1

/-- Did `grantedVotes` reach a majority of `members`? -/
def hasQuorum (grantedVotes members : Nat) : Bool :=
  decide (members > 0) && decide (grantedVotes ≥ quorum members)

theorem hasQuorum_iff {grantedVotes members : Nat} :
    hasQuorum grantedVotes members = true ↔ 0 < members ∧ members < 2 * grantedVotes := by
  simp only [hasQuorum, Bool.and_eq_true, decide_eq_true_eq]
  unfold quorum
  omega

/-! ## What one operation can do to the term, the vote and the leader flag

Each operation is described once, in the vocabulary the invariants are written in. -/

namespace ElectionState

/-- A `RequestVote` either leaves a newer state alone, or ends in the requested term: unchanged
    if that was the term already, and without a leader flag if the term is new. -/
theorem considerVote_cases (s : ElectionState) (term : UInt64) (candidate : String) :
    (term < s.currentTerm ∧ s.considerVote term candidate
        = (s, { term := s.currentTerm, granted := false })) ∨
    (term = s.currentTerm ∧ s.votedFor = none ∧ s.considerVote term candidate
        = ({ s with votedFor := some candidate }, { term := term, granted := true })) ∨
    (∃ c, term = s.currentTerm ∧ s.votedFor = some c ∧ s.considerVote term candidate
        = (s, { term := term, granted := c == candidate })) ∨
    (s.currentTerm < term ∧ s.considerVote term candidate
        = ({ enterTerm term with votedFor := some candidate },
           { term := term, granted := true })) := by
  by_cases hlt : term < s.currentTerm
  · exact Or.inl ⟨hlt, by simp [considerVote, hlt]⟩
  by_cases hgt : s.currentTerm < term
  · exact Or.inr (Or.inr (Or.inr ⟨hgt, by simp [considerVote, hlt, hgt, enterTerm]⟩))
  have heq : term = s.currentTerm := UInt64.le_antisymm (UInt64.not_lt.mp hgt) (UInt64.not_lt.mp hlt)
  subst heq
  cases hv : s.votedFor with
  | none => exact Or.inr (Or.inl ⟨rfl, rfl, by simp [considerVote, hv]⟩)
  | some c => exact Or.inr (Or.inr (Or.inl ⟨c, rfl, rfl, by simp [considerVote, hv]⟩))

/-- A candidacy that does not wrap moves to the very next term. -/
theorem startCandidacy_eq_some {π : Profile} {s s' : ElectionState} {selfId : String}
    {term : UInt64} (h : s.startCandidacy π selfId = some (s', term)) :
    s' = { currentTerm := term, votedFor := some selfId, isLeader := false, leader := none } ∧
      (term.toNat = s.currentTerm.toNat + 1 ∨
        (π = .release ∧ s.currentTerm.toNat + 1 = 2 ^ 64 ∧ term = 0)) := by
  unfold startCandidacy at h
  obtain ⟨t, ht, heq⟩ := Option.map_eq_some_iff.mp h
  simp only [Prod.mk.injEq] at heq
  obtain ⟨rfl, rfl⟩ := heq
  refine ⟨rfl, ?_⟩
  rcases addU64_eq_some ht with hsum | ⟨hπ, hover, hwrap⟩
  · exact Or.inl (by simpa using hsum)
  · have hmax := s.currentTerm.toNat_lt
    have hone : (1 : UInt64).toNat = 1 := rfl
    rw [hone] at hover hwrap
    exact Or.inr ⟨hπ, by omega, by apply UInt64.toNat.inj; simp; omega⟩

end ElectionState

end Node
end Himsha
