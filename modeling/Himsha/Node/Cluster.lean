import Mathlib.Data.List.Nodup
import Himsha.Node.Electorate

/-!
# `follower.rs` — the standby loop of every member, and the network between them

`run_until_promote`, `discover_leader` and `elect`, cut at their awaits. A standby is in one
`Phase` at a time; between two phases any other node may act, and any election call may arrive
at this one. The three request loops of the source (`himsha_getLeader`, `himsha_preVote`,
`himsha_requestVote`) have the same shape, one member asked after another, so they are one
`asking` phase over a `Round`.

A request is handled while its sender waits (`serve`), and its answer is then delivered or lost;
or the sender gives up first (`lose`), in which case the request is a *stray* that the receiver
may still handle at any later time, or never, with nobody to read the answer.

The block synchronisation of `sync_once` is seen here only through its success.
-/

set_option autoImplicit false

namespace Himsha
namespace Node

open Lib

/-- The election configuration, which all members share. -/
structure Config where
  /-- `HIMSHA_ELECTION_MEMBERS`. -/
  members : List String
  nodup : members.Nodup
  /-- The one member that follows nobody. -/
  primary : String
  primary_mem : primary ∈ members
  /-- `HIMSHA_FOLLOW` of each standby. -/
  follow : String → String
  /-- `HIMSHA_FAILOVER_MISSES` of each standby. -/
  maxMisses : String → Option UInt32

/-- The requests of the three loops. The candidate of the last two is the sender. -/
inductive Query where
  | getLeader
  | preVote (term : UInt64)
  | requestVote (term : UInt64)
deriving DecidableEq, Repr

/-- The members of the JSON reply that the loops read. -/
structure Answer where
  term : Option UInt64
  granted : Option Bool
  leader : Option String
deriving DecidableEq, Repr

def Answer.ofVoteReply (r : VoteReply) : Answer :=
  { term := some r.term, granted := some r.granted, leader := none }

def Answer.ofLeaderInfo (i : LeaderInfo) : Answer :=
  { term := some i.term, granted := none, leader := i.leader }

/-- The handler of a request at `m`; `none` where the handler panics on a poisoned mutex, which
    the sender sees as an error. -/
def Electorate.answer (π : Profile) (e : Electorate) (m sender : String) :
    Query → Option (Electorate × Answer)
  | .getLeader =>
      if e.poisoned m then none else some (e, .ofLeaderInfo (e.states m).leaderInfo)
  | .preVote term =>
      (e.step π (m, .considerPreVote term)).map fun e' =>
        (e', .ofVoteReply ((e.states m).considerPreVote term))
  | .requestVote term =>
      (e.step π (m, .considerVote term sender)).map fun e' =>
        (e', .ofVoteReply ((e.states m).considerVote term sender).2)

/-- Only a vote request can change the electorate, and its effect is that of the call. -/
theorem Electorate.answer_cases {π : Profile} {e e' : Electorate} {m sender : String} {q : Query}
    {v : Answer} (h : e.answer π m sender q = some (e', v)) :
    (q = .getLeader ∧ e' = e ∧ v = .ofLeaderInfo (e.states m).leaderInfo) ∨
    (∃ t, q = .preVote t ∧ e' = e ∧ v = .ofVoteReply ((e.states m).considerPreVote t)) ∨
    (∃ t, q = .requestVote t ∧ e.step π (m, .considerVote t sender) = some e' ∧
      v = .ofVoteReply ((e.states m).considerVote t sender).2) := by
  cases q with
  | getLeader =>
    simp only [Electorate.answer] at h
    split at h
    · simp at h
    · simp only [Option.some.injEq, Prod.mk.injEq] at h
      exact Or.inl ⟨rfl, h.1.symm, h.2.symm⟩
  | preVote t =>
    simp only [Electorate.answer] at h
    obtain ⟨e₁, hstep, heq⟩ := Option.map_eq_some_iff.mp h
    simp only [Prod.mk.injEq] at heq
    obtain ⟨rfl, rfl⟩ := heq
    refine Or.inr (Or.inl ⟨t, rfl, ?_, rfl⟩)
    obtain ⟨-, ⟨hc, -⟩ | ⟨s, cast, hcall, rfl⟩⟩ := Electorate.step_cases hstep
    · exact absurd hc (by simp)
    · simp only [ElectionState.call, Option.some.injEq, Prod.mk.injEq] at hcall
      obtain ⟨rfl, rfl⟩ := hcall
      simp
  | requestVote t =>
    simp only [Electorate.answer] at h
    obtain ⟨e₁, hstep, heq⟩ := Option.map_eq_some_iff.mp h
    simp only [Prod.mk.injEq] at heq
    obtain ⟨rfl, rfl⟩ := heq
    exact Or.inr (Or.inr ⟨t, rfl, hstep, rfl⟩)

/-- A request loop and its accumulator. -/
inductive Round where
  | discover (best : Option (UInt64 × String))
  | preVote (pvTerm : UInt64) (preVotes : Nat)
  | vote (term : UInt64) (votes : Nat)
deriving DecidableEq, Repr

def Round.query : Round → Query
  | .discover _ => .getLeader
  | .preVote pvTerm _ => .preVote pvTerm
  | .vote term _ => .requestVote term

/-- `best`, improved by a reply that names a leader at a higher term. -/
def betterLeader (best : Option (UInt64 × String)) (v : Answer) : Option (UInt64 × String) :=
  match v.leader with
  | none => best
  | some leader =>
      let term := v.term.getD 0
      match best with
      | none => some (term, leader)
      | some (bt, bl) => if term > bt then some (term, leader) else some (bt, bl)

/-- One reply, taken into the accumulator. The second component is the term the loop then
    passes to `observe_term`. -/
def Round.count (r : Round) (v : Answer) : Round × Option UInt64 :=
  match r with
  | .discover best => (.discover (betterLeader best v), none)
  | .preVote pvTerm preVotes =>
      if v.granted = some true then (.preVote pvTerm (preVotes + 1), none)
      else (.preVote pvTerm preVotes, v.term)
  | .vote term votes =>
      if v.granted = some true then (.vote term (votes + 1), none)
      else (.vote term votes, v.term)

/-- A round asks every member the same. -/
theorem Round.count_query {r r' : Round} {v : Answer} {obs : Option UInt64}
    (h : r.count v = (r', obs)) : r'.query = r.query := by
  cases r with
  | discover best =>
    simp only [Round.count, Prod.mk.injEq] at h
    obtain ⟨rfl, -⟩ := h
    rfl
  | preVote pvTerm preVotes =>
    simp only [Round.count] at h
    split at h <;>
    · simp only [Prod.mk.injEq] at h
      obtain ⟨rfl, -⟩ := h
      rfl
  | vote term votes =>
    simp only [Round.count] at h
    split at h <;>
    · simp only [Prod.mk.injEq] at h
      obtain ⟨rfl, -⟩ := h
      rfl

/-- Where a member's task is. -/
inductive Phase where
  /-- Between two `sync_once` polls. -/
  | polling
  /-- Waiting for the head of `todo`, or holding its answer. -/
  | asking (round : Round) (todo : List String) (answer : Option Answer)
  /-- In the staggering sleep at the start of `elect`. -/
  | jitter
  /-- `elect` has returned `true` for the term; `become_leader` is still to come. -/
  | won (term : UInt64)
  /-- Running the block producer. -/
  | sequencing
  /-- The task has panicked, or there is none. -/
  | halted
deriving DecidableEq, Repr

/-- The member a phase is waiting for, or holds the answer of. -/
def Phase.asked : Phase → Option String
  | .asking _ (m :: _) _ => some m
  | _ => none

def Phase.wonTerm : Phase → Option UInt64
  | .won term => some term
  | _ => none

structure Cluster where
  electorate : Electorate
  phase : String → Phase
  misses : String → UInt32
  primaryUrl : String → String
  /-- Requests whose sender has given up: sender, receiver, request. -/
  strays : List (String × String × Query)

namespace Cluster

/-- One primary that leads term `0`, every other member a standby in the default state. -/
def boot (cfg : Config) : Cluster where
  electorate := { states := bootState fun n => n != cfg.primary }
  phase := fun n =>
    if n = cfg.primary then .sequencing
    else if n ∈ cfg.members then .polling
    else .halted
  misses := fun _ => 0
  primaryUrl := cfg.follow
  strays := []

def setPhase (c : Cluster) (n : String) (ph : Phase) : Cluster :=
  { c with phase := Function.update c.phase n ph }

end Cluster

/-- The calls that reach a node from outside its own loop. -/
def Call.incoming : Call → Bool
  | .considerVote _ _ | .considerPreVote _ | .observeTerm _ | .observeLeader _ _ => true
  | .startCandidacy | .becomeLeader => false

inductive Act where
  | rpc (n : String) (c : Call)
  | straggle (req : String × String × Query)
  | sync (n : String) (ok : Bool)
  | serve (n : String)
  | deliver (n : String)
  | lose (n : String)
  | finish (n : String)
  | wake (n : String)
  | promote (n : String)
deriving DecidableEq, Repr

/-- `should_promote`. -/
def shouldPromote (consecutiveMisses : UInt32) (maxMisses : Option UInt32) : Bool :=
  match maxMisses with
  | some max => decide (max > 0) && decide (consecutiveMisses ≥ max)
  | none => false

/-- The members a loop of `n` asks, in order. -/
def Config.peers (cfg : Config) (n : String) : List String :=
  cfg.members.filter (· ≠ n)

namespace Cluster

/-- The end of a request loop, when every peer has been asked. -/
def endRound (cfg : Config) (π : Profile) (c : Cluster) (n : String) : Round → Option Cluster
  | .discover best =>
      match best with
      | none => some (c.setPhase n .jitter)
      | some (term, leader) =>
          if leader ≠ c.primaryUrl n ∧ leader ≠ n then
            (c.electorate.step π (n, .observeLeader term leader)).map fun e =>
              { c with
                electorate := e
                phase := Function.update c.phase n .polling
                misses := Function.update c.misses n 0
                primaryUrl := Function.update c.primaryUrl n leader }
          else some (c.setPhase n .jitter)
  | .preVote _ preVotes =>
      if hasQuorum preVotes cfg.members.length then
        (c.electorate.step π (n, .startCandidacy)).map fun e =>
          { c with
            electorate := e
            phase := Function.update c.phase n <|
              match (c.electorate.states n).startCandidacy π n with
              | none => .halted
              | some (_, term) => .asking (.vote term 1) (cfg.peers n) none }
      else some (c.setPhase n .polling)
  | .vote term votes =>
      some (c.setPhase n (if hasQuorum votes cfg.members.length then .won term else .polling))

/-- One atomic step of the cluster; `none` where the action is not enabled. -/
def step (cfg : Config) (π : Profile) (c : Cluster) : Act → Option Cluster
  | .rpc n call =>
      if call.incoming then
        (c.electorate.step π (n, call)).map fun e => { c with electorate := e }
      else none
  | .straggle (sender, m, q) =>
      if (sender, m, q) ∈ c.strays then
        (c.electorate.answer π m sender q).map fun (e, _) =>
          { c with electorate := e, strays := c.strays.erase (sender, m, q) }
      else none
  | .sync n ok =>
      match c.phase n with
      | .polling =>
          match (if ok then some 0 else π.plain 32 ((c.misses n).toNat + 1)) with
          | none => some (c.setPhase n .halted)
          | some k =>
              let misses := UInt32.ofNat k
              let c := { c with misses := Function.update c.misses n misses }
              some (if shouldPromote misses (cfg.maxMisses n) then
                c.setPhase n (.asking (.discover none) (cfg.peers n) none)
              else c)
      | _ => none
  | .serve n =>
      match c.phase n with
      | .asking r (m :: todo) none =>
          (c.electorate.answer π m n r.query).map fun (e, v) =>
            { c with
              electorate := e
              phase := Function.update c.phase n (.asking r (m :: todo) (some v)) }
      | _ => none
  | .deliver n =>
      match c.phase n with
      | .asking r (_ :: todo) (some v) =>
          match r.count v with
          | (r', none) => some (c.setPhase n (.asking r' todo none))
          | (r', some term) =>
              (c.electorate.step π (n, .observeTerm term)).map fun e =>
                { c with
                  electorate := e
                  phase := Function.update c.phase n (.asking r' todo none) }
      | _ => none
  | .lose n =>
      match c.phase n with
      | .asking r (_ :: todo) (some _) => some (c.setPhase n (.asking r todo none))
      | .asking r (m :: todo) none =>
          some { c with
            phase := Function.update c.phase n (.asking r todo none)
            strays := (n, m, r.query) :: c.strays }
      | _ => none
  | .finish n =>
      match c.phase n with
      | .asking r [] none => endRound cfg π c n r
      | _ => none
  | .wake n =>
      match c.phase n with
      | .jitter =>
          if c.electorate.poisoned n then none
          else match addU64 π (c.electorate.states n).currentTerm 1 with
            -- The sum is taken with the guard still held, so its panic poisons the mutex.
            | none => some { c with
                electorate := { c.electorate with
                  poisoned := Function.update c.electorate.poisoned n true }
                phase := Function.update c.phase n .halted }
            | some pvTerm =>
                some (c.setPhase n (.asking (.preVote pvTerm 1) (cfg.peers n) none))
      | _ => none
  | .promote n =>
      match c.phase n with
      | .won _ =>
          (c.electorate.step π (n, .becomeLeader)).map fun e =>
            { c with electorate := e, phase := Function.update c.phase n .sequencing }
      | _ => none

/-! ## What a step can do

One constructor for each way a step can go, with the guards it passed. The invariants of a run
are case analyses over `Move` and never unfold `step`. -/

inductive Move (cfg : Config) (π : Profile) (c : Cluster) : Act → Cluster → Prop
  | arrive {n : String} {call : Call} {e : Electorate} (hin : call.incoming = true)
      (hcall : c.electorate.step π (n, call) = some e) :
      Move cfg π c (.rpc n call) { c with electorate := e }
  | stray {sender m : String} {q : Query} {e : Electorate} {v : Answer}
      (hmem : (sender, m, q) ∈ c.strays) (hans : c.electorate.answer π m sender q = some (e, v)) :
      Move cfg π c (.straggle (sender, m, q))
        { c with electorate := e, strays := c.strays.erase (sender, m, q) }
  | sync {n : String} {ok : Bool} {ms : String → UInt32} {ph : Phase}
      (hph : c.phase n = .polling)
      (hnext : ph = .polling ∨ ph = .halted ∨ ph = .asking (.discover none) (cfg.peers n) none) :
      Move cfg π c (.sync n ok) { c.setPhase n ph with misses := ms }
  | serve {n m : String} {r : Round} {todo : List String} {e : Electorate} {v : Answer}
      (hph : c.phase n = .asking r (m :: todo) none)
      (hans : c.electorate.answer π m n r.query = some (e, v)) :
      Move cfg π c (.serve n) { c.setPhase n (.asking r (m :: todo) (some v)) with electorate := e }
  | count {n m : String} {r r' : Round} {todo : List String} {v : Answer}
      (hph : c.phase n = .asking r (m :: todo) (some v)) (hcount : r.count v = (r', none)) :
      Move cfg π c (.deliver n) (c.setPhase n (.asking r' todo none))
  | observe {n m : String} {r r' : Round} {todo : List String} {v : Answer} {term : UInt64}
      {e : Electorate} (hph : c.phase n = .asking r (m :: todo) (some v))
      (hcount : r.count v = (r', some term))
      (hcall : c.electorate.step π (n, .observeTerm term) = some e) :
      Move cfg π c (.deliver n) { c.setPhase n (.asking r' todo none) with electorate := e }
  | loseAnswer {n m : String} {r : Round} {todo : List String} {v : Answer}
      (hph : c.phase n = .asking r (m :: todo) (some v)) :
      Move cfg π c (.lose n) (c.setPhase n (.asking r todo none))
  | loseRequest {n m : String} {r : Round} {todo : List String}
      (hph : c.phase n = .asking r (m :: todo) none) :
      Move cfg π c (.lose n)
        { c.setPhase n (.asking r todo none) with strays := (n, m, r.query) :: c.strays }
  | contest {n : String} {best : Option (UInt64 × String)}
      (hph : c.phase n = .asking (.discover best) [] none) :
      Move cfg π c (.finish n) (c.setPhase n .jitter)
  | repoint {n leader : String} {term : UInt64} {e : Electorate}
      (hph : c.phase n = .asking (.discover (some (term, leader))) [] none)
      (hcall : c.electorate.step π (n, .observeLeader term leader) = some e) :
      Move cfg π c (.finish n)
        { c.setPhase n .polling with
          electorate := e
          misses := Function.update c.misses n 0
          primaryUrl := Function.update c.primaryUrl n leader }
  | candidate {n : String} {pvTerm term : UInt64} {preVotes : Nat} {e : Electorate}
      {s : ElectionState} (hph : c.phase n = .asking (.preVote pvTerm preVotes) [] none)
      (hq : hasQuorum preVotes cfg.members.length = true)
      (hstart : (c.electorate.states n).startCandidacy π n = some (s, term))
      (hcall : c.electorate.step π (n, .startCandidacy) = some e) :
      Move cfg π c (.finish n)
        { c.setPhase n (.asking (.vote term 1) (cfg.peers n) none) with electorate := e }
  | candidatePanic {n : String} {pvTerm : UInt64} {preVotes : Nat} {e : Electorate}
      (hph : c.phase n = .asking (.preVote pvTerm preVotes) [] none)
      (hq : hasQuorum preVotes cfg.members.length = true)
      (hcall : c.electorate.step π (n, .startCandidacy) = some e) :
      Move cfg π c (.finish n) { c.setPhase n .halted with electorate := e }
  | noPreVotes {n : String} {pvTerm : UInt64} {preVotes : Nat}
      (hph : c.phase n = .asking (.preVote pvTerm preVotes) [] none) :
      Move cfg π c (.finish n) (c.setPhase n .polling)
  | win {n : String} {term : UInt64} {votes : Nat}
      (hph : c.phase n = .asking (.vote term votes) [] none)
      (hq : hasQuorum votes cfg.members.length = true) :
      Move cfg π c (.finish n) (c.setPhase n (.won term))
  | noVotes {n : String} {term : UInt64} {votes : Nat}
      (hph : c.phase n = .asking (.vote term votes) [] none) :
      Move cfg π c (.finish n) (c.setPhase n .polling)
  | wake {n : String} {pvTerm : UInt64} (hph : c.phase n = .jitter) :
      Move cfg π c (.wake n) (c.setPhase n (.asking (.preVote pvTerm 1) (cfg.peers n) none))
  | wakePanic {n : String} (hph : c.phase n = .jitter) :
      Move cfg π c (.wake n)
        { c.setPhase n .halted with
          electorate := { c.electorate with
            poisoned := Function.update c.electorate.poisoned n true } }
  | promote {n : String} {term : UInt64} {e : Electorate} (hph : c.phase n = .won term)
      (hcall : c.electorate.step π (n, .becomeLeader) = some e) :
      Move cfg π c (.promote n) { c.setPhase n .sequencing with electorate := e }

theorem endRound_move {cfg : Config} {π : Profile} {c c' : Cluster} {n : String} {r : Round}
    (hph : c.phase n = .asking r [] none) (h : endRound cfg π c n r = some c') :
    Move cfg π c (.finish n) c' := by
  cases r with
  | discover best =>
    cases best with
    | none =>
      simp only [endRound, Option.some.injEq] at h
      subst h
      exact .contest hph
    | some b =>
      obtain ⟨term, leader⟩ := b
      simp only [endRound] at h
      split at h
      · obtain ⟨e, he, rfl⟩ := Option.map_eq_some_iff.mp h
        exact .repoint hph he
      · simp only [Option.some.injEq] at h
        subst h
        exact .contest hph
  | preVote pvTerm preVotes =>
    simp only [endRound] at h
    split at h
    · rename_i hq
      obtain ⟨e, he, rfl⟩ := Option.map_eq_some_iff.mp h
      cases hstart : (c.electorate.states n).startCandidacy π n with
      | none => exact .candidatePanic hph hq he
      | some p =>
        obtain ⟨s, term⟩ := p
        exact .candidate hph hq hstart he
    · simp only [Option.some.injEq] at h
      subst h
      exact .noPreVotes hph
  | vote term votes =>
    simp only [endRound, Option.some.injEq] at h
    subst h
    split
    · rename_i hq
      exact .win hph hq
    · exact .noVotes hph

theorem sync_move {cfg : Config} {π : Profile} {c c' : Cluster} {n : String} {ok : Bool}
    (h : step cfg π c (.sync n ok) = some c') : Move cfg π c (.sync n ok) c' := by
  simp only [step] at h
  split at h
  · rename_i hph
    -- A poll that changes the counter only is a move to the phase the node is in.
    have hstay : c.setPhase n .polling = c := by
      simp only [setPhase, ← hph, Function.update_eq_self]
    split at h
    · simp only [Option.some.injEq] at h
      subst h
      exact Move.sync hph (Or.inr (Or.inl rfl))
    · simp only [Option.some.injEq] at h
      subst h
      split
      · exact Move.sync hph (Or.inr (Or.inr rfl))
      · rename_i k _ _
        have hmove : Move cfg π c (.sync n ok)
            { c.setPhase n .polling with
              misses := Function.update c.misses n (UInt32.ofNat k) } :=
          Move.sync hph (Or.inl rfl)
        rw [hstay] at hmove
        exact hmove
  · simp at h

/-- **Every step is one of the moves.** -/
theorem step_move {cfg : Config} {π : Profile} {c c' : Cluster} {a : Act}
    (h : step cfg π c a = some c') : Move cfg π c a c' := by
  cases a with
  | sync n ok => exact sync_move h
  | rpc n call =>
    simp only [step] at h
    split at h
    · rename_i hin
      obtain ⟨e, he, rfl⟩ := Option.map_eq_some_iff.mp h
      exact .arrive hin he
    · simp at h
  | straggle req =>
    obtain ⟨sender, m, q⟩ := req
    simp only [step] at h
    split at h
    · rename_i hmem
      obtain ⟨⟨e, v⟩, he, rfl⟩ := Option.map_eq_some_iff.mp h
      exact .stray hmem he
    · simp at h
  | serve n =>
    simp only [step] at h
    split at h
    · rename_i hph
      obtain ⟨⟨e, v⟩, he, rfl⟩ := Option.map_eq_some_iff.mp h
      exact .serve hph he
    · simp at h
  | deliver n =>
    simp only [step] at h
    split at h
    · rename_i r m todo v hph
      split at h
      · rename_i hcount
        simp only [Option.some.injEq] at h
        subst h
        exact .count hph hcount
      · rename_i hcount
        obtain ⟨e, he, rfl⟩ := Option.map_eq_some_iff.mp h
        exact .observe hph hcount he
    · simp at h
  | lose n =>
    simp only [step] at h
    split at h
    · rename_i hph
      simp only [Option.some.injEq] at h
      subst h
      exact .loseAnswer hph
    · rename_i hph
      simp only [Option.some.injEq] at h
      subst h
      exact .loseRequest hph
    · simp at h
  | finish n =>
    simp only [step] at h
    split at h
    · rename_i hph
      exact endRound_move hph h
    · simp at h
  | wake n =>
    simp only [step] at h
    split at h
    · rename_i hph
      split at h
      · simp at h
      · split at h
        · simp only [Option.some.injEq] at h
          subst h
          exact .wakePanic hph
        · simp only [Option.some.injEq] at h
          subst h
          exact .wake hph
    · simp at h
  | promote n =>
    simp only [step] at h
    split at h
    · rename_i hph
      obtain ⟨e, he, rfl⟩ := Option.map_eq_some_iff.mp h
      exact .promote hph he
    · simp at h

/-- `n` has the pre-votes it needs and its next step is `start_candidacy`. -/
def aboutToStand (cfg : Config) (c : Cluster) (n : String) : Bool :=
  match c.phase n with
  | .asking (.preVote _ preVotes) [] none => hasQuorum preVotes cfg.members.length
  | _ => false

/-- Seen from the electorate, a step is one call, or nothing but a panic. Only the end of a
    pre-vote round stands for election. -/
theorem step_electorate {cfg : Config} {π : Profile} {c c' : Cluster} {a : Act}
    (h : step cfg π c a = some c') :
    (c'.electorate.states = c.electorate.states ∧ c'.electorate.votes = c.electorate.votes) ∨
    ∃ n call, c.electorate.step π (n, call) = some c'.electorate ∧
      (call = .startCandidacy → a = .finish n ∧ c.aboutToStand cfg n = true) := by
  cases step_move h with
  | @arrive n call e hin hcall =>
    refine Or.inr ⟨n, call, hcall, ?_⟩
    rintro rfl
    simp [Call.incoming] at hin
  | @stray sender m q e v hmem hans =>
    rcases Electorate.answer_cases hans with ⟨-, rfl, -⟩ | ⟨t, -, rfl, -⟩ | ⟨t, -, hcall, -⟩
    · exact Or.inl ⟨rfl, rfl⟩
    · exact Or.inl ⟨rfl, rfl⟩
    · exact Or.inr ⟨m, _, hcall, by simp⟩
  | @serve n m r todo e v hph hans =>
    rcases Electorate.answer_cases hans with ⟨-, rfl, -⟩ | ⟨t, -, rfl, -⟩ | ⟨t, -, hcall, -⟩
    · exact Or.inl ⟨rfl, rfl⟩
    · exact Or.inl ⟨rfl, rfl⟩
    · exact Or.inr ⟨m, _, hcall, by simp⟩
  | @observe n m r r' todo v term e hph hcount hcall => exact Or.inr ⟨n, _, hcall, by simp⟩
  | @repoint n leader term e hph hcall => exact Or.inr ⟨n, _, hcall, by simp⟩
  | @candidate n pvTerm term preVotes e s hph hq hstart hcall =>
    exact Or.inr ⟨n, _, hcall, fun _ => ⟨rfl, by simp [aboutToStand, hph, hq]⟩⟩
  | @candidatePanic n pvTerm preVotes e hph hq hcall =>
    exact Or.inr ⟨n, _, hcall, fun _ => ⟨rfl, by simp [aboutToStand, hph, hq]⟩⟩
  | @promote n term e hph hcall => exact Or.inr ⟨n, _, hcall, by simp⟩
  | _ => exact Or.inl ⟨rfl, rfl⟩

end Cluster

end Node
end Himsha
