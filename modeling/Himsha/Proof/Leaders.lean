import Himsha.Node.Cluster
import Himsha.Proof.Votes

/-!
# At most one leader per term

The won round of `elect` and the `become_leader` call after it are two steps, and the state they
share can change in between: a vote request or a reply with a higher term moves the candidate on
while its own round is still collecting. `become_leader` does not look at the term it was won
for, so the flag can end up on a term the node never won.

`ElectInv` is what does hold of the electorate as long as every promotion happens in the term
that was won: a leader's term is the primary's term `0`, or one in which a quorum voted for it.
`PhaseOk` is the candidate's half, carried by its vote round until the win.
-/

set_option autoImplicit false

namespace Himsha
namespace Proof

open Lib Node

/-! ## The invariants -/

/-- A quorum of the members voted for `n` in term `t`, and `t` is not the boot term. -/
def Elected (cfg : Config) (votes : List Vote) (n : String) (t : UInt64) : Prop :=
  0 < t.toNat ∧ ∃ S : Finset String, S ⊆ cfg.members.toFinset ∧
    hasQuorum S.card cfg.members.length = true ∧ VotedFor votes S t n

structure ElectInv (cfg : Config) (e : Electorate) : Prop where
  votes : VoteInv e
  leaders : ∀ n, (e.states n).isLeader = true →
    (n = cfg.primary ∧ (e.states n).currentTerm = 0) ∨
      Elected cfg e.votes n (e.states n).currentTerm

/-- `k` distinct members voted for `n` in term `t`, and none of them is still to be asked. -/
def Tally (cfg : Config) (votes : List Vote) (n : String) (t : UInt64) (k : Nat)
    (todo : List String) : Prop :=
  ∃ S : Finset String, S ⊆ cfg.members.toFinset ∧ S.card = k ∧ VotedFor votes S t n ∧
    ∀ m ∈ todo, m ∉ S

/-- A vote round's count is backed by votes, a granting answer by the vote of its sender. -/
def RoundOk (cfg : Config) (votes : List Vote) (n : String) (t : UInt64) (k : Nat)
    (todo : List String) (answer : Option Answer) : Prop :=
  0 < t.toNat ∧ todo.Nodup ∧ (∀ m ∈ todo, m ∈ cfg.members) ∧ Tally cfg votes n t k todo ∧
    ∀ v m, answer = some v → v.granted = some true → todo.head? = some m →
      ∃ b, ⟨m, t, n, b⟩ ∈ votes

def PhaseOk (cfg : Config) (votes : List Vote) (n : String) : Phase → Prop
  | .asking (.vote t k) todo answer => n ∈ cfg.members ∧ RoundOk cfg votes n t k todo answer
  | .won t => n ∈ cfg.members ∧ Elected cfg votes n t
  | .halted => True
  | _ => n ∈ cfg.members

structure LeaderInv (cfg : Config) (c : Cluster) : Prop where
  elect : ElectInv cfg c.electorate
  phases : ∀ n, PhaseOk cfg c.electorate.votes n (c.phase n)

/-! ## They survive a growing history -/

theorem VotedFor.mono {votes votes' : List Vote} {S : Finset String} {t : UInt64} {c : String}
    (hsub : votes ⊆ votes') (h : VotedFor votes S t c) : VotedFor votes' S t c := by
  intro n hn
  obtain ⟨b, hb⟩ := h n hn
  exact ⟨b, hsub hb⟩

theorem Elected.mono {cfg : Config} {votes votes' : List Vote} {n : String} {t : UInt64}
    (hsub : votes ⊆ votes') (h : Elected cfg votes n t) : Elected cfg votes' n t := by
  obtain ⟨ht, S, hS, hq, hv⟩ := h
  exact ⟨ht, S, hS, hq, hv.mono hsub⟩

theorem RoundOk.mono {cfg : Config} {votes votes' : List Vote} {n : String} {t : UInt64} {k : Nat}
    {todo : List String} {answer : Option Answer} (hsub : votes ⊆ votes')
    (h : RoundOk cfg votes n t k todo answer) : RoundOk cfg votes' n t k todo answer := by
  obtain ⟨ht, hnd, hmem, ⟨S, hS, hcard, hv, hfresh⟩, hans⟩ := h
  refine ⟨ht, hnd, hmem, ⟨S, hS, hcard, hv.mono hsub, hfresh⟩, ?_⟩
  intro v m hv hg hm
  obtain ⟨b, hb⟩ := hans v m hv hg hm
  exact ⟨b, hsub hb⟩

theorem PhaseOk.mono {cfg : Config} {votes votes' : List Vote} {n : String} {ph : Phase}
    (hsub : votes ⊆ votes') (h : PhaseOk cfg votes n ph) : PhaseOk cfg votes' n ph := by
  cases ph with
  | asking r todo answer =>
    cases r with
    | vote t k => exact ⟨h.1, h.2.mono hsub⟩
    | discover best => exact h
    | preVote t k => exact h
  | won t => exact ⟨h.1, h.2.mono hsub⟩
  | polling => exact h
  | jitter => exact h
  | sequencing => exact h
  | halted => trivial

/-- Every phase with a task behind it belongs to a member. -/
theorem PhaseOk.mem {cfg : Config} {votes : List Vote} {n : String} {ph : Phase}
    (h : PhaseOk cfg votes n ph) (hne : ph ≠ .halted) : n ∈ cfg.members := by
  cases ph with
  | asking r todo answer => cases r <;> first | exact h | exact h.1
  | won t => exact h.1
  | halted => exact absurd rfl hne
  | polling => exact h
  | jitter => exact h
  | sequencing => exact h

/-! ## One step -/

theorem votes_subset {π : Profile} {e e' : Electorate} {n : String} {c : Call}
    (h : e.step π (n, c) = some e') : e.votes ⊆ e'.votes := by
  obtain ⟨-, ⟨-, rfl⟩ | ⟨s, cast, -, rfl⟩⟩ := Electorate.step_cases h
  · exact fun v hv => hv
  · exact List.subset_append_right _ _

theorem electInv_step {cfg : Config} {π : Profile} {e e' : Electorate} {n : String} {c : Call}
    (hnw : NoWrap π (e.states n) c)
    (hwin : c = .becomeLeader → Elected cfg e.votes n (e.states n).currentTerm)
    (h : ElectInv cfg e) (hs : e.step π (n, c) = some e') : ElectInv cfg e' := by
  refine ⟨voteInv_step hnw h.votes hs, ?_⟩
  have hsub := votes_subset hs
  have hlift : ∀ {m : String} {t : UInt64},
      (m = cfg.primary ∧ t = 0) ∨ Elected cfg e.votes m t →
      (m = cfg.primary ∧ t = 0) ∨ Elected cfg e'.votes m t :=
    fun hor => hor.imp id (fun hel => hel.mono hsub)
  obtain ⟨-, ⟨-, rfl⟩ | ⟨s, cast, hcall, rfl⟩⟩ := Electorate.step_cases hs
  · exact h.leaders
  · intro m hm
    by_cases hmn : m = n
    · subst hmn
      simp only [Function.update_self] at hm ⊢
      have hp := call_progress hnw hcall
      rcases hp.leader_from hm with hbec | ⟨hwas, hsame⟩
      · rw [hp.becomes hbec]
        exact hlift (Or.inr (hwin hbec))
      · rw [hsame]
        exact hlift (h.leaders m hwas)
    · simp only [Function.update_of_ne hmn] at hm ⊢
      exact hlift (h.leaders m hm)

theorem electInv_answer {cfg : Config} {π : Profile} {e e' : Electorate} {m sender : String}
    {q : Query} {v : Answer} (h : ElectInv cfg e) (hans : e.answer π m sender q = some (e', v)) :
    ElectInv cfg e' ∧ e.votes ⊆ e'.votes := by
  rcases Electorate.answer_cases hans with
    ⟨-, rfl, -⟩ | ⟨t, -, rfl, -⟩ | ⟨t, -, hstep, -⟩
  · exact ⟨h, fun _ hv => hv⟩
  · exact ⟨h, fun _ hv => hv⟩
  · exact ⟨electInv_step (by simp [NoWrap]) (by simp) h hstep, votes_subset hstep⟩

/-- A granting reply is in the requested term, and its vote is in the history. -/
theorem answer_granted {π : Profile} {e e' : Electorate} {m sender : String} {t : UInt64}
    {v : Answer} (hans : e.answer π m sender (.requestVote t) = some (e', v))
    (hg : v.granted = some true) : ∃ b, ⟨m, t, sender, b⟩ ∈ e'.votes := by
  rcases Electorate.answer_cases hans with ⟨hq, -⟩ | ⟨t', hq, -⟩ | ⟨t', hq, hstep, hv⟩
  · exact absurd hq (by simp)
  · exact absurd hq (by simp)
  · simp only [Query.requestVote.injEq] at hq
    subst hq
    rw [hv] at hg
    simp only [Answer.ofVoteReply, Option.some.injEq] at hg
    obtain ⟨-, ⟨hc, -⟩ | ⟨s, cast, hcall, rfl⟩⟩ := Electorate.step_cases hstep
    · exact absurd hc (by simp)
    simp only [ElectionState.call, hg, if_true, Option.some.injEq, Prod.mk.injEq] at hcall
    obtain ⟨-, rfl⟩ := hcall
    have hterm : ((e.states m).considerVote t sender).2.term = t := by
      rcases (e.states m).considerVote_cases t sender with
        ⟨-, heq⟩ | ⟨-, -, heq⟩ | ⟨_, -, -, heq⟩ | ⟨-, heq⟩ <;> rw [heq] at hg ⊢
      exact absurd hg (by simp)
    rw [hterm]
    exact ⟨.granted, by simp⟩

/-- Popping the head: its vote, if the answer grants one, joins the tally. -/
theorem RoundOk.count {cfg : Config} {votes : List Vote} {n m : String} {t : UInt64} {k : Nat}
    {todo : List String} {v : Answer} {r' : Round} {obs : Option UInt64}
    (h : RoundOk cfg votes n t k (m :: todo) (some v))
    (hcount : (Round.vote t k).count v = (r', obs)) :
    ∃ k', r' = .vote t k' ∧ RoundOk cfg votes n t k' todo none := by
  obtain ⟨ht, hnd, hmem, ⟨S, hS, hcard, hv, hfresh⟩, hans⟩ := h
  obtain ⟨hmt, hnd'⟩ := List.nodup_cons.mp hnd
  have hmem' : ∀ x ∈ todo, x ∈ cfg.members := fun x hx => hmem x (List.mem_cons_of_mem _ hx)
  simp only [Round.count] at hcount
  split at hcount
  · rename_i hg
    simp only [Prod.mk.injEq] at hcount
    obtain ⟨rfl, -⟩ := hcount
    refine ⟨k + 1, rfl, ht, hnd', hmem', ⟨insert m S, ?_, ?_, ?_, ?_⟩, by simp⟩
    · exact Finset.insert_subset (List.mem_toFinset.mpr (hmem m (List.mem_cons_self ..))) hS
    · rw [Finset.card_insert_of_notMem (hfresh m (List.mem_cons_self ..)), hcard]
    · intro x hx
      rcases Finset.mem_insert.mp hx with rfl | hx
      · exact hans v x rfl hg rfl
      · exact hv x hx
    · intro x hx hxS
      rcases Finset.mem_insert.mp hxS with rfl | hxS
      · exact hmt hx
      · exact hfresh x (List.mem_cons_of_mem _ hx) hxS
  · simp only [Prod.mk.injEq] at hcount
    obtain ⟨rfl, -⟩ := hcount
    exact ⟨k, rfl, ht, hnd', hmem',
      ⟨S, hS, hcard, hv, fun x hx => hfresh x (List.mem_cons_of_mem _ hx)⟩, by simp⟩

/-- A member that is skipped leaves the tally as it was. -/
theorem RoundOk.skip {cfg : Config} {votes : List Vote} {n m : String} {t : UInt64} {k : Nat}
    {todo : List String} {answer : Option Answer}
    (h : RoundOk cfg votes n t k (m :: todo) answer) : RoundOk cfg votes n t k todo none := by
  obtain ⟨ht, hnd, hmem, ⟨S, hS, hcard, hv, hfresh⟩, -⟩ := h
  exact ⟨ht, (List.nodup_cons.mp hnd).2, fun x hx => hmem x (List.mem_cons_of_mem _ hx),
    ⟨S, hS, hcard, hv, fun x hx => hfresh x (List.mem_cons_of_mem _ hx)⟩, by simp⟩

/-- The self-vote opens the tally. -/
theorem RoundOk.candidate {cfg : Config} {π : Profile} {e e' : Electorate} {n : String}
    {s : ElectionState} {t : UInt64} (hmem : n ∈ cfg.members)
    (hnw : NoWrap π (e.states n) .startCandidacy)
    (hstart : (e.states n).startCandidacy π n = some (s, t))
    (hstep : e.step π (n, .startCandidacy) = some e') :
    RoundOk cfg e'.votes n t 1 (cfg.peers n) none := by
  obtain ⟨-, hterm⟩ := ElectionState.startCandidacy_eq_some hstart
  have hpos : 0 < t.toNat := by
    rcases hterm with hsucc | ⟨hπ, hmax, -⟩
    · omega
    · have := hnw rfl hπ
      omega
  have hvote : ⟨n, t, n, .own⟩ ∈ e'.votes := by
    rw [Electorate.step_startCandidacy hstart hstep]
    exact List.mem_cons_self ..
  refine ⟨hpos, cfg.nodup.filter _, fun m hm => (List.mem_filter.mp hm).1, ⟨{n}, ?_, ?_, ?_, ?_⟩,
    by simp⟩
  · simpa using hmem
  · simp
  · intro m hm
    rw [Finset.mem_singleton] at hm
    subst hm
    exact ⟨.own, hvote⟩
  · intro m hm
    have := (List.mem_filter.mp hm).2
    simpa using this

theorem phases_update {cfg : Config} {votes votes' : List Vote} {phase : String → Phase}
    {n : String} {ph : Phase} (h : ∀ m, PhaseOk cfg votes m (phase m)) (hsub : votes ⊆ votes')
    (hn : PhaseOk cfg votes' n ph) : ∀ m, PhaseOk cfg votes' m (Function.update phase n ph m) := by
  intro m
  by_cases hmn : m = n
  · subst hmn
    rw [Function.update_self]
    exact hn
  · rw [Function.update_of_ne hmn]
    exact (h m).mono hsub

/-! ## Runs -/

/-- A promotion finds the node in the term it won, and a candidacy does not wrap. -/
def InTerm (cfg : Config) (π : Profile) (c : Cluster) : Act → Prop
  | .promote n => ∀ t ∈ (c.phase n).wonTerm, (c.electorate.states n).currentTerm = t
  | .finish n => c.aboutToStand cfg n = true → NoWrap π (c.electorate.states n) .startCandidacy
  | _ => True

instance (cfg : Config) (π : Profile) (c : Cluster) : ∀ a, Decidable (InTerm cfg π c a)
  | .promote n => @Option.decidableForallMem UInt64
      (fun t => (c.electorate.states n).currentTerm = t) (fun _ => inferInstance)
      (c.phase n).wonTerm
  | .finish n => inferInstanceAs (Decidable (c.aboutToStand cfg n = true →
      NoWrap π (c.electorate.states n) .startCandidacy))
  | .rpc _ _ | .straggle _ | .sync _ _ | .serve _ | .deliver _ | .lose _ | .wake _ => isTrue trivial

theorem leaderInv_boot (cfg : Config) : LeaderInv cfg (Cluster.boot cfg) where
  elect := by
    refine ⟨VoteInv.start _ _, fun n hn => Or.inl ?_⟩
    simp only [Cluster.boot, bootState] at hn ⊢
    by_cases hnp : n = cfg.primary
    · exact ⟨hnp, by split <;> rfl⟩
    · simp [hnp] at hn
  phases := by
    intro n
    simp only [Cluster.boot]
    split
    · rename_i hn
      exact hn ▸ cfg.primary_mem
    · split
      · assumption
      · trivial

theorem leaderInv_step {cfg : Config} {π : Profile} {c c' : Cluster} {a : Act}
    (hok : InTerm cfg π c a) (h : LeaderInv cfg c) (hs : c.step cfg π a = some c') :
    LeaderInv cfg c' := by
  have hself : ∀ n, c.phase n ≠ .halted → n ∈ cfg.members := fun n hne => (h.phases n).mem hne
  have hrefl : c.electorate.votes ⊆ c.electorate.votes := fun _ hv => hv
  -- A call that is neither a candidacy nor a promotion keeps the electorate's half.
  have hquiet : ∀ {n : String} {call : Call} {e : Electorate},
      call ≠ .startCandidacy → call ≠ .becomeLeader → c.electorate.step π (n, call) = some e →
      ElectInv cfg e ∧ c.electorate.votes ⊆ e.votes := fun hc hb hcall =>
    ⟨electInv_step (fun heq => absurd heq hc) (fun heq => absurd heq hb) h.elect hcall,
      votes_subset hcall⟩
  cases Cluster.step_move hs with
  | @arrive n call e hin hcall =>
    have hne : call ≠ .startCandidacy ∧ call ≠ .becomeLeader := by
      cases call <;> simp [Call.incoming] at hin ⊢
    obtain ⟨he, hsub⟩ := hquiet hne.1 hne.2 hcall
    exact ⟨he, fun m => (h.phases m).mono hsub⟩
  | stray hmem hans =>
    obtain ⟨he, hsub⟩ := electInv_answer h.elect hans
    exact ⟨he, fun m => (h.phases m).mono hsub⟩
  | @sync n ok ms ph hph hnext =>
    refine ⟨h.elect, phases_update h.phases hrefl ?_⟩
    have hmem := hself n (by simp [hph])
    rcases hnext with rfl | rfl | rfl
    · exact hmem
    · trivial
    · exact hmem
  | @serve n m r todo e v hph hans =>
    obtain ⟨he, hsub⟩ := electInv_answer h.elect hans
    refine ⟨he, phases_update h.phases hsub ?_⟩
    have hn := (h.phases n).mono hsub
    rw [hph] at hn
    cases r with
    | vote t k =>
      obtain ⟨hmem, ht, hnd, htodo, htally, -⟩ := hn
      refine ⟨hmem, ht, hnd, htodo, htally, ?_⟩
      rintro _ _ ⟨⟩ hg ⟨⟩
      exact answer_granted hans hg
    | discover best => exact hn
    | preVote t k => exact hn
  | @count n m r r' todo v hph hcount =>
    refine ⟨h.elect, phases_update h.phases hrefl ?_⟩
    have hn := h.phases n
    rw [hph] at hn
    cases r with
    | vote t k =>
      obtain ⟨k', rfl, hround⟩ := hn.2.count hcount
      exact ⟨hn.1, hround⟩
    | discover best =>
      simp only [Round.count, Prod.mk.injEq] at hcount
      obtain ⟨rfl, -⟩ := hcount
      exact hn
    | preVote t k =>
      simp only [Round.count] at hcount
      split at hcount <;>
      · simp only [Prod.mk.injEq] at hcount
        obtain ⟨rfl, -⟩ := hcount
        exact hn
  | @observe n m r r' todo v term e hph hcount hcall =>
    obtain ⟨he, hsub⟩ := hquiet (by simp) (by simp) hcall
    refine ⟨he, phases_update h.phases hsub ?_⟩
    have hn := (h.phases n).mono hsub
    rw [hph] at hn
    cases r with
    | vote t k =>
      obtain ⟨k', rfl, hround⟩ := hn.2.count hcount
      exact ⟨hn.1, hround⟩
    | discover best => simp [Round.count] at hcount
    | preVote t k =>
      simp only [Round.count] at hcount
      split at hcount <;>
      · simp only [Prod.mk.injEq] at hcount
        obtain ⟨rfl, -⟩ := hcount
        exact hn
  | @loseAnswer n m r todo v hph =>
    refine ⟨h.elect, phases_update h.phases hrefl ?_⟩
    have hn := h.phases n
    rw [hph] at hn
    cases r with
    | vote t k => exact ⟨hn.1, hn.2.skip⟩
    | discover best => exact hn
    | preVote t k => exact hn
  | @loseRequest n m r todo hph =>
    refine ⟨h.elect, phases_update h.phases hrefl ?_⟩
    have hn := h.phases n
    rw [hph] at hn
    cases r with
    | vote t k => exact ⟨hn.1, hn.2.skip⟩
    | discover best => exact hn
    | preVote t k => exact hn
  | @contest n best hph =>
    exact ⟨h.elect, phases_update h.phases hrefl (hself n (by simp [hph]))⟩
  | @repoint n leader term e hph hcall =>
    obtain ⟨he, hsub⟩ := hquiet (by simp) (by simp) hcall
    exact ⟨he, phases_update h.phases hsub (hself n (by simp [hph]))⟩
  | @candidate n pvTerm term preVotes e s hph hq hstart hcall =>
    have hnw : NoWrap π (c.electorate.states n) .startCandidacy :=
      hok (by simp [Cluster.aboutToStand, hph, hq])
    have hmem := hself n (by simp [hph])
    exact ⟨electInv_step hnw (by simp) h.elect hcall,
      phases_update h.phases (votes_subset hcall) ⟨hmem, .candidate hmem hnw hstart hcall⟩⟩
  | @candidatePanic n pvTerm preVotes e hph hq hcall =>
    have hnw : NoWrap π (c.electorate.states n) .startCandidacy :=
      hok (by simp [Cluster.aboutToStand, hph, hq])
    exact ⟨electInv_step hnw (by simp) h.elect hcall,
      phases_update h.phases (votes_subset hcall) trivial⟩
  | @noPreVotes n pvTerm preVotes hph =>
    exact ⟨h.elect, phases_update h.phases hrefl (hself n (by simp [hph]))⟩
  | @win n term votes hph hq =>
    refine ⟨h.elect, phases_update h.phases hrefl ⟨hself n (by simp [hph]), ?_⟩⟩
    have hn := h.phases n
    rw [hph] at hn
    obtain ⟨-, ht, -, -, ⟨S, hS, rfl, hv, -⟩, -⟩ := hn
    exact ⟨ht, S, hS, hq, hv⟩
  | @noVotes n term votes hph =>
    exact ⟨h.elect, phases_update h.phases hrefl (hself n (by simp [hph]))⟩
  | @wake n pvTerm hph =>
    exact ⟨h.elect, phases_update h.phases hrefl (hself n (by simp [hph]))⟩
  | wakePanic hph =>
    exact ⟨⟨⟨h.elect.votes.backed, h.elect.votes.once⟩, h.elect.leaders⟩,
      phases_update h.phases hrefl trivial⟩
  | @promote n term e hph hcall =>
    have hn := h.phases n
    rw [hph] at hn
    -- The node is still in the term it won, so the win backs the flag.
    have hwin : Elected cfg c.electorate.votes n (c.electorate.states n).currentTerm := by
      rw [hok term (by simp [Phase.wonTerm, hph])]
      exact hn.2
    exact ⟨electInv_step (by simp [NoWrap]) (fun _ => hwin) h.elect hcall,
      phases_update h.phases (votes_subset hcall) hn.1⟩

/-- Two leaders of one term are one node. -/
theorem LeaderInv.unique {cfg : Config} {c : Cluster} (h : LeaderInv cfg c) {n m : String}
    (hn : (c.electorate.states n).isLeader = true) (hm : (c.electorate.states m).isLeader = true)
    (ht : (c.electorate.states n).currentTerm = (c.electorate.states m).currentTerm) : n = m := by
  rcases h.elect.leaders n hn with ⟨rfl, hn0⟩ | ⟨hnpos, S, hS, hqS, hvS⟩
  · rcases h.elect.leaders m hm with ⟨rfl, -⟩ | ⟨hmpos, -⟩
    · rfl
    · rw [← ht, hn0] at hmpos
      exact absurd hmpos (by decide)
  · rcases h.elect.leaders m hm with ⟨rfl, hm0⟩ | ⟨-, T, hT, hqT, hvT⟩
    · rw [ht, hm0] at hnpos
      exact absurd hnpos (by decide)
    · rw [← ht] at hvT
      exact quorum_unique h.elect.votes.once cfg.nodup hS hT hqS hqT hvS hvT

/-- **At most one leader per term**, in every run in which a node is promoted only while it is
    still in the term it won. -/
theorem one_leader_per_term (cfg : Config) (π : Profile) (acts : List Act) (c : Cluster)
    (hrun : run (Cluster.step cfg π) (Cluster.boot cfg) acts = some c)
    (hok : Meets (Cluster.step cfg π) (InTerm cfg π) (Cluster.boot cfg) acts) (n m : String)
    (hn : (c.electorate.states n).isLeader = true) (hm : (c.electorate.states m).isLeader = true)
    (ht : (c.electorate.states n).currentTerm = (c.electorate.states m).currentTerm) : n = m := by
  have hinv : LeaderInv cfg c :=
    run_invariant (I := LeaderInv cfg) (fun _ _ _ hok h hs => leaderInv_step hok h hs) hok
      (leaderInv_boot cfg) hrun
  exact hinv.unique hn hm ht

/-- A primary and two standbys that fail over at the first missed poll. -/
def trio : Config where
  members := ["P", "A", "B"]
  nodup := by decide
  primary := "P"
  primary_mem := by decide
  follow := fun _ => "P"
  maxMisses := fun _ => some 1

/-- A standby loses the primary, finds no other leader, and wins the pre-votes of the peers in
    `grants` (the others do not answer), which makes it a candidate. -/
def stands (n : String) (grants : List String) : List Act :=
  [.sync n false, .lose n, .lose n, .finish n, .wake n] ++
    ((trio.peers n).flatMap fun m => if m ∈ grants then [.serve n, .deliver n] else [.lose n]) ++
    [.finish n]

/-- The candidate is answered by its next `k` peers. -/
def polls (n : String) (k : Nat) : List Act :=
  (List.replicate k [Act.serve n, .deliver n]).flatten

/-- `A` wins term `1` with the vote of `P`, who is deposed by it. -/
def handover : List Act :=
  stands "A" ["B"] ++ polls "A" 1 ++ [.lose "A", .finish "A"]

theorem one_leader_per_term_handover :
    ∃ c, run (Cluster.step trio .dev) (Cluster.boot trio) (handover ++ [.promote "A"]) = some c ∧
      (c.electorate.states "A").isLeader = true ∧ (c.electorate.states "A").currentTerm = 1 ∧
      ∀ m, (c.electorate.states m).isLeader = true → (c.electorate.states m).currentTerm = 1 →
        "A" = m := by
  have hend : (run (Cluster.step trio .dev) (Cluster.boot trio)
      (handover ++ [.promote "A"])).map (fun c => ((c.electorate.states "A").isLeader,
        (c.electorate.states "A").currentTerm)) = some (true, 1) := by decide
  obtain ⟨c, hrun, hA⟩ := Option.map_eq_some_iff.mp hend
  simp only [Prod.mk.injEq] at hA
  refine ⟨c, hrun, hA.1, hA.2, fun m hm ht => ?_⟩
  exact one_leader_per_term trio .dev _ c hrun (by decide) "A" m hA.1 hm
    (hA.2.trans ht.symm)

/-- `A` has the vote of `P` for term `1` and is still waiting for `B`. Meanwhile `B` loses term
    `1`, stands again, and wins and takes term `2` with the votes of `P` and of `A` itself. `B`
    then answers the old request with a refusal, `A` counts its two votes of term `1`, and
    promotes itself: in term `2`. -/
def overtaken : List Act :=
  stands "A" ["B"] ++ polls "A" 1 ++
  stands "B" ["P", "A"] ++ polls "B" 2 ++ [.finish "B"] ++
  stands "B" ["P", "A"] ++ polls "B" 2 ++ [.finish "B", .promote "B"] ++
  polls "A" 1 ++ [.finish "A", .promote "A"]

theorem two_leaders_after_overtaken :
    ¬ ∀ (cfg : Config) (π : Profile) (acts : List Act) (c : Cluster),
      run (Cluster.step cfg π) (Cluster.boot cfg) acts = some c →
      ∀ n m, (c.electorate.states n).isLeader = true → (c.electorate.states m).isLeader = true →
        (c.electorate.states n).currentTerm = (c.electorate.states m).currentTerm → n = m := by
  intro h
  have hend : (run (Cluster.step trio .dev) (Cluster.boot trio) overtaken).map (fun c =>
      ((c.electorate.states "A").isLeader, (c.electorate.states "A").currentTerm,
        (c.electorate.states "B").isLeader, (c.electorate.states "B").currentTerm))
      = some (true, 2, true, 2) := by decide
  obtain ⟨c, hrun, hAB⟩ := Option.map_eq_some_iff.mp hend
  simp only [Prod.mk.injEq] at hAB
  obtain ⟨hA, hAt, hB, hBt⟩ := hAB
  exact absurd (h trio .dev overtaken c hrun "A" "B" hA hB (hAt.trans hBt.symm)) (by decide)

end Proof
end Himsha
