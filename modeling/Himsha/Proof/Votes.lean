import Mathlib.Data.Finset.Card
import Himsha.Node.Electorate

/-!
# One vote per term, and what a restart does to it

The election rests on one rule: a node votes for at most one candidate per term, its own
candidacy included. `VoteInv` is the inductive form of that rule over the vote history, and
`VoteInv.call` is its only step lemma.

The rule needs terms to be monotone, and there are two ways in which they are not. A candidacy
at `u64::MAX` wraps to term `0` in a build without overflow checks; and a restart rebuilds the
state from `ElectionState::default()`, since no table of the database holds it. Both are side
conditions on the run here, and both are shown to be needed.
-/

set_option autoImplicit false

namespace Himsha
namespace Proof

open Lib Node

/-! ## The invariant -/

/-- No node appears in the history with two candidates for one term. -/
def VotesOnce (votes : List Vote) : Prop :=
  ∀ v ∈ votes, ∀ w ∈ votes, v.voter = w.voter → v.term = w.term → v.candidate = w.candidate

instance (votes : List Vote) : Decidable (VotesOnce votes) := by
  unfold VotesOnce
  infer_instance

structure VoteInv (e : Electorate) : Prop where
  /-- A vote is in a term its voter has reached, and while the voter is still in that term,
      `votedFor` names the candidate. -/
  backed : ∀ v ∈ e.votes, v.term.toNat ≤ (e.states v.voter).currentTerm.toNat ∧
    (v.term = (e.states v.voter).currentTerm → (e.states v.voter).votedFor = some v.candidate)
  once : VotesOnce e.votes

theorem VoteInv.start (states : String → ElectionState) (poisoned : String → Bool) :
    VoteInv { states, poisoned, votes := [] } where
  backed := fun v hv => absurd hv (by simp)
  once := fun v hv => absurd hv (by simp)

/-- Replacing one node's state by a later one keeps every vote of the history backed. -/
theorem VoteInv.advance {e : Electorate} {n : String} {s : ElectionState} (h : VoteInv e)
    (hle : (e.states n).currentTerm.toNat ≤ s.currentTerm.toNat)
    (hkeep : s.currentTerm = (e.states n).currentTerm →
      ∀ x, (e.states n).votedFor = some x → s.votedFor = some x) :
    ∀ v ∈ e.votes, v.term.toNat ≤ (Function.update e.states n s v.voter).currentTerm.toNat ∧
      (v.term = (Function.update e.states n s v.voter).currentTerm →
        (Function.update e.states n s v.voter).votedFor = some v.candidate) := by
  intro v hv
  obtain ⟨hb, hrec⟩ := h.backed v hv
  by_cases hvn : v.voter = n
  · rw [hvn] at hb hrec ⊢
    rw [Function.update_self]
    refine ⟨by omega, fun hterm => ?_⟩
    -- The voter is still in the vote's term, so it already was before.
    have hsame : (e.states n).currentTerm = s.currentTerm := by
      apply UInt64.toNat.inj
      rw [hterm] at hb
      omega
    exact hkeep hsame.symm _ (hrec (hterm.trans hsame.symm))
  · rw [Function.update_of_ne hvn]
    exact ⟨hb, hrec⟩

/-- A call at one node. The new vote, if there is one, agrees with every earlier vote of its
    voter in its term: that vote forces the voter to have been in the term already, with the
    candidate on record, and the call does not replace a recorded vote within a term. -/
theorem VoteInv.call {e : Electorate} {n : String} {c : Call} {s : ElectionState}
    {cast : Option Vote} (h : VoteInv e) (hp : Progress n (e.states n) s c cast) :
    VoteInv { e with
      states := Function.update e.states n s
      votes := cast.toList ++ e.votes } := by
  have hold := h.advance hp.term_le hp.keeps_vote
  cases cast with
  | none => exact ⟨hold, h.once⟩
  | some v =>
    obtain ⟨hvoter, hterm, hrec⟩ := hp.cast_recorded v rfl
    have hagree : ∀ w ∈ e.votes, w.voter = n → w.term = v.term → w.candidate = v.candidate := by
      intro w hw hwn hwt
      obtain ⟨hb, hwrec⟩ := hold w hw
      rw [hwn, Function.update_self] at hwrec
      have := hwrec (hwt.trans hterm)
      rw [hrec, Option.some.injEq] at this
      exact this.symm
    constructor
    · intro w hw
      rcases List.mem_cons.mp hw with rfl | hw
      · simp only [hvoter, Function.update_self]
        exact ⟨by rw [hterm], fun _ => hrec⟩
      · exact hold w hw
    · intro w hw u hu hvot htrm
      rcases List.mem_cons.mp hw with hwv | hw' <;> rcases List.mem_cons.mp hu with huv | hu'
      · rw [hwv, huv]
      · subst hwv
        exact (hagree u hu' (hvot.symm.trans hvoter) htrm.symm).symm
      · subst huv
        exact hagree w hw' (hvot.trans hvoter) htrm
      · exact h.once w hw' u hu' hvot htrm

theorem voteInv_step {π : Profile} {e e' : Electorate} {n : String} {c : Call}
    (hnw : NoWrap π (e.states n) c) (h : VoteInv e) (hs : e.step π (n, c) = some e') :
    VoteInv e' := by
  obtain ⟨-, ⟨-, rfl⟩ | ⟨s, cast, hcall, rfl⟩⟩ := Electorate.step_cases hs
  · exact ⟨h.backed, h.once⟩
  · exact h.call (call_progress hnw hcall)

/-! ## Quorums -/

/-- The voters of `S` all voted for `c` in term `t`. -/
def VotedFor (votes : List Vote) (S : Finset String) (t : UInt64) (c : String) : Prop :=
  ∀ n ∈ S, ∃ b, ⟨n, t, c, b⟩ ∈ votes

/-- Two majorities of one term share a voter, and that voter has one candidate. -/
theorem quorum_unique {votes : List Vote} (honce : VotesOnce votes) {members : List String}
    (hnd : members.Nodup) {t : UInt64} {c₁ c₂ : String} {S₁ S₂ : Finset String}
    (hsub₁ : S₁ ⊆ members.toFinset) (hsub₂ : S₂ ⊆ members.toFinset)
    (hq₁ : hasQuorum S₁.card members.length = true) (hq₂ : hasQuorum S₂.card members.length = true)
    (hv₁ : VotedFor votes S₁ t c₁) (hv₂ : VotedFor votes S₂ t c₂) : c₁ = c₂ := by
  obtain ⟨-, hlt₁⟩ := hasQuorum_iff.mp hq₁
  obtain ⟨-, hlt₂⟩ := hasQuorum_iff.mp hq₂
  have hcard : members.toFinset.card < S₁.card + S₂.card := by
    rw [List.toFinset_card_of_nodup hnd]
    omega
  obtain ⟨n, hn⟩ := Finset.inter_nonempty_of_card_lt_card_add_card hsub₁ hsub₂ hcard
  obtain ⟨hn₁, hn₂⟩ := Finset.mem_inter.mp hn
  obtain ⟨b₁, hb₁⟩ := hv₁ n hn₁
  obtain ⟨b₂, hb₂⟩ := hv₂ n hn₂
  exact honce _ hb₁ _ hb₂ rfl rfl

/-- No node votes for two candidates in a term, and so no two candidates of a term can both
    have the votes of a quorum of the members. -/
structure VoteSafe (members : List String) (votes : List Vote) : Prop where
  once : VotesOnce votes
  oneWinner : ∀ (t : UInt64) (c₁ c₂ : String) (S₁ S₂ : Finset String),
    S₁ ⊆ members.toFinset → S₂ ⊆ members.toFinset →
    hasQuorum S₁.card members.length = true → hasQuorum S₂.card members.length = true →
    VotedFor votes S₁ t c₁ → VotedFor votes S₂ t c₂ → c₁ = c₂

/-- A fresh electorate: no vote cast, no mutex poisoned. -/
def electorateFrom (states : String → ElectionState) : Electorate := { states }

/-- **Vote safety.** In every interleaving of calls in which no candidacy wraps the term. -/
theorem vote_safety (π : Profile) (members : List String) (hnd : members.Nodup)
    (states : String → ElectionState) (calls : List (String × Call)) (e : Electorate)
    (hrun : run (Electorate.step π) (electorateFrom states) calls = some e)
    (hok : Meets (Electorate.step π) (fun e a => NoWrap π (e.states a.1) a.2)
      (electorateFrom states) calls) :
    VoteSafe members e.votes := by
  have hinv : VoteInv e :=
    run_invariant (I := VoteInv) (fun _ _ _ hnw h hs => voteInv_step hnw h hs) hok
      (VoteInv.start states _) hrun
  exact ⟨hinv.once, fun t c₁ c₂ S₁ S₂ h₁ h₂ hq₁ hq₂ hv₁ hv₂ =>
    quorum_unique hinv.once hnd h₁ h₂ hq₁ hq₂ hv₁ hv₂⟩

/-- Two candidates and a tie-breaker who grants only the first asker. -/
def tieBreak : List (String × Call) :=
  [("A", .startCandidacy), ("B", .startCandidacy), ("C", .considerVote 1 "A"),
   ("C", .considerVote 1 "B")]

theorem vote_safety_tieBreak :
    ∃ e, run (Electorate.step .release) (electorateFrom fun _ => {}) tieBreak = some e ∧
      ⟨"C", 1, "A", .granted⟩ ∈ e.votes ∧ VoteSafe ["A", "B", "C"] e.votes := by
  refine ⟨_, rfl, by decide, vote_safety .release ["A", "B", "C"] (by decide) (fun _ => {})
    tieBreak _ rfl ?_⟩
  simp only [tieBreak, Meets, NoWrap, electorateFrom]
  refine ⟨by decide, ?_⟩
  rintro _ ⟨⟩
  refine ⟨by decide, ?_⟩
  rintro _ ⟨⟩
  simp

/-- A candidacy at `u64::MAX` wraps to term `0`, where the node had already granted a vote. -/
def wrapAround : List (String × Call) :=
  [("A", .considerVote 0 "B"), ("A", .considerVote 18446744073709551615 "B"),
   ("A", .startCandidacy)]

theorem vote_safety_wraps :
    ¬ ∀ (π : Profile) (members : List String), members.Nodup →
      ∀ (states : String → ElectionState) (calls : List (String × Call)) (e : Electorate),
        run (Electorate.step π) (electorateFrom states) calls = some e →
          VoteSafe members e.votes := by
  intro h
  have hsafe := (h .release ["A"] (by decide) (fun _ => {}) wrapAround _ rfl).once
  revert hsafe
  decide

/-! ## Restarts -/

/-- The `RequestVote` half of `VotesOnce`: no node grants two candidates in one term. -/
def GrantsOnce (votes : List Vote) : Prop :=
  ∀ v ∈ votes, ∀ w ∈ votes, v.ballot = .granted → w.ballot = .granted →
    v.voter = w.voter → v.term = w.term → v.candidate = w.candidate

instance (votes : List Vote) : Decidable (GrantsOnce votes) := by
  unfold GrantsOnce
  infer_instance

/-- No node's term is smaller in `e'` than in `e`. -/
def TermsGrow (e e' : Electorate) : Prop :=
  ∀ n, (e.states n).currentTerm ≤ (e'.states n).currentTerm

/-- An event that loses nothing: a call that does not wrap, or the restart of a node that has
    nothing to forget, being in term `0` with no vote on record. -/
def Forgetless (π : Profile) (e : Electorate) : Event → Prop
  | .call n c => NoWrap π (e.states n) c
  | .restart n => (e.states n).currentTerm = 0 ∧ (e.states n).votedFor = none

theorem bootState_currentTerm (follows : String → Bool) (n : String) :
    (bootState follows n).currentTerm = 0 := by
  unfold bootState
  split <;> rfl

theorem voteInv_event {π : Profile} {follows : String → Bool} {e e' : Electorate} {ev : Event}
    (hok : Forgetless π e ev) (h : VoteInv e) (hs : e.event π follows ev = some e') :
    VoteInv e' := by
  cases ev with
  | call n c => exact voteInv_step hok h hs
  | restart n =>
    obtain ⟨hterm, hnone⟩ := hok
    simp only [Electorate.event, Option.some.injEq] at hs
    subst hs
    refine ⟨h.advance ?_ ?_, h.once⟩
    · rw [hterm, bootState_currentTerm]
    · intro _ x hx
      rw [hnone] at hx
      exact absurd hx (by simp)

theorem TermsGrow.update {e e' : Electorate} {n : String} {s : ElectionState}
    (hstates : e'.states = Function.update e.states n s)
    (hle : (e.states n).currentTerm ≤ s.currentTerm) : TermsGrow e e' := by
  intro m
  rw [hstates]
  by_cases hmn : m = n
  · subst hmn
    rw [Function.update_self]
    exact hle
  · rw [Function.update_of_ne hmn]
    exact UInt64.le_refl _

theorem termsGrow_step {π : Profile} {e e' : Electorate} {n : String} {c : Call}
    (hnw : NoWrap π (e.states n) c) (hs : e.step π (n, c) = some e') : TermsGrow e e' := by
  obtain ⟨-, ⟨-, rfl⟩ | ⟨s, cast, hcall, rfl⟩⟩ := Electorate.step_cases hs
  · exact fun m => UInt64.le_refl _
  · exact TermsGrow.update rfl (UInt64.le_iff_toNat_le.mpr (call_progress hnw hcall).term_le)

theorem termsGrow_event {π : Profile} {follows : String → Bool} {e e' : Electorate} {ev : Event}
    (hok : Forgetless π e ev) (hs : e.event π follows ev = some e') : TermsGrow e e' := by
  cases ev with
  | call n c => exact termsGrow_step hok hs
  | restart n =>
    simp only [Electorate.event, Option.some.injEq] at hs
    subst hs
    refine TermsGrow.update rfl ?_
    rw [hok.1, bootState_currentTerm]
    exact UInt64.le_refl 0

/-- **Votes and terms across restarts.** In every run of calls and restarts in which no event
    forgets a term or a vote, no node grants two candidates in one term, and between any two
    points of the run no node's term goes back. -/
theorem votes_across_restarts (π : Profile) (follows : String → Bool)
    (before after : List Event) (e e' : Electorate)
    (hrun : run (Electorate.event π follows) (electorateFrom (bootState follows)) before = some e)
    (hrun' : run (Electorate.event π follows) e after = some e')
    (hok : Meets (Electorate.event π follows) (Forgetless π)
      (electorateFrom (bootState follows)) (before ++ after)) :
    GrantsOnce e'.votes ∧ TermsGrow e e' := by
  obtain ⟨hok₁, hok₂⟩ := hok.append hrun
  have hinv : VoteInv e :=
    run_invariant (I := VoteInv) (fun _ _ _ hf h hs => voteInv_event hf h hs) hok₁
      (VoteInv.start _ _) hrun
  have hinv' : VoteInv e' :=
    run_invariant (I := VoteInv) (fun _ _ _ hf h hs => voteInv_event hf h hs) hok₂ hinv hrun'
  refine ⟨fun v hv w hw _ _ => hinv'.once v hv w hw, ?_⟩
  exact run_relates (R := TermsGrow) (fun _ _ => UInt64.le_refl _)
    (fun _ _ _ h₁ h₂ n => UInt64.le_trans (h₁ n) (h₂ n))
    (fun _ _ _ hf hs => termsGrow_event hf hs) hok₂ hrun'

/-- `B` restarts before it has taken part in anything, then grants one vote. -/
theorem votes_across_restarts_early :
    ∃ e e', run (Electorate.event .release fun _ => true)
        (electorateFrom (bootState fun _ => true)) [.restart "B"] = some e ∧
      run (Electorate.event .release fun _ => true) e
        [.call "B" (.considerVote 1 "A")] = some e' ∧
      ⟨"B", 1, "A", .granted⟩ ∈ e'.votes ∧ GrantsOnce e'.votes ∧ TermsGrow e e' := by
  refine ⟨_, _, rfl, rfl, by decide, votes_across_restarts .release (fun _ => true)
    [.restart "B"] [.call "B" (.considerVote 1 "A")] _ _ rfl rfl ?_⟩
  simp only [List.cons_append, List.nil_append, Meets, Forgetless, NoWrap, electorateFrom]
  exact ⟨⟨rfl, rfl⟩, fun _ _ => ⟨by simp, fun _ _ => trivial⟩⟩

/-- A standby grants `A` its vote of term `1`, is restarted, and grants `B` the same term. -/
def votesTwice : List Event :=
  [.call "C" (.considerVote 1 "A"), .restart "C", .call "C" (.considerVote 1 "B")]

theorem votes_lost_in_restart :
    ¬ ∀ (π : Profile) (follows : String → Bool) (before after : List Event) (e e' : Electorate),
      run (Electorate.event π follows) (electorateFrom (bootState follows)) before = some e →
      run (Electorate.event π follows) e after = some e' →
        GrantsOnce e'.votes ∧ TermsGrow e e' := by
  intro h
  have hsafe := (h .dev (fun _ => true) [] votesTwice _ _ rfl rfl).1
  revert hsafe
  decide

end Proof
end Himsha
