import Mathlib.Data.Finset.Lattice.Fold
import Mathlib.Order.Lattice.Nat
import Himsha.Proof.Leaders

/-!
# A minority does not inflate its term

The pre-vote is there so that a partitioned node never bumps its term. The argument is about the
whole group `G` that is cut off, since its nodes still answer each other. Every term that moves
between them, in a reply, in a leader discovery or in a request that arrives late, is bounded by
the largest term of the group when it was cut off (`Confined`); and a pre-vote round of one of
them counts at most one pre-vote per member of `G`, which is not a quorum.

What a node of `G` learned *before* the cut is not bounded by the group. That is why a leader
discovery must not be under way either: it may hold the answer of a node outside, and its
`observe_leader` then adopts a term nobody in `G` has.
-/

set_option autoImplicit false

namespace Himsha
namespace Proof

open Lib Node

/-! ## Requests carry terms their sender has reached -/

/-- No candidacy of the run wraps. -/
def NoWrapping (cfg : Config) (π : Profile) (c : Cluster) (a : Act) : Prop :=
  ∀ n, a = .finish n → c.aboutToStand cfg n = true → NoWrap π (c.electorate.states n) .startCandidacy

/-- A phase that asks for votes does so in a term of at most `t₀`. -/
def Sent (t₀ : UInt64) (ph : Phase) : Prop :=
  ∀ r todo answer t, ph = .asking r todo answer → r.query = .requestVote t → t ≤ t₀

structure SentInv (c : Cluster) : Prop where
  asked : ∀ n, Sent (c.electorate.states n).currentTerm (c.phase n)
  strays : ∀ sender m t, (sender, m, .requestVote t) ∈ c.strays →
    t ≤ (c.electorate.states sender).currentTerm

theorem Sent.quiet {t₀ : UInt64} {ph : Phase}
    (h : ∀ r todo answer, ph = .asking r todo answer → ∀ t, r.query ≠ .requestVote t) :
    Sent t₀ ph :=
  fun r todo answer t hph hq => absurd hq (h r todo answer hph t)

theorem termsGrow_cluster {cfg : Config} {π : Profile} {c c' : Cluster} {a : Act}
    (hok : NoWrapping cfg π c a) (hs : c.step cfg π a = some c') :
    TermsGrow c.electorate c'.electorate := by
  rcases Cluster.step_electorate hs with ⟨hstates, -⟩ | ⟨n, call, hcall, hstand⟩
  · intro m
    rw [hstates]
    exact UInt64.le_refl _
  · refine termsGrow_step (fun hc => ?_) hcall
    obtain ⟨ha, habout⟩ := hstand hc
    exact hok n ha habout rfl

theorem sentInv_boot (cfg : Config) : SentInv (Cluster.boot cfg) where
  asked := by
    intro n
    apply Sent.quiet
    intro r todo answer hph
    simp only [Cluster.boot] at hph
    split at hph
    · simp at hph
    · split at hph <;> simp at hph
  strays := fun sender m t h => absurd h (by simp [Cluster.boot])

theorem sentInv_step {cfg : Config} {π : Profile} {c c' : Cluster} {a : Act}
    (hok : NoWrapping cfg π c a) (h : SentInv c) (hs : c.step cfg π a = some c') :
    SentInv c' := by
  have hgrow := termsGrow_cluster hok hs
  have hstrays : ∀ sender m t, (sender, m, .requestVote t) ∈ c.strays →
      t ≤ (c'.electorate.states sender).currentTerm := fun sender m t hm =>
    UInt64.le_trans (h.strays sender m t hm) (hgrow sender)
  have hasked : ∀ n, Sent (c'.electorate.states n).currentTerm (c.phase n) :=
    fun n r todo answer t hph hq => UInt64.le_trans (h.asked n r todo answer t hph hq) (hgrow n)
  have hupdate : ∀ {n : String} {ph : Phase}, Sent (c'.electorate.states n).currentTerm ph →
      ∀ m, Sent (c'.electorate.states m).currentTerm (Function.update c.phase n ph m) := by
    intro n ph hph m
    by_cases hmn : m = n
    · subst hmn
      rw [Function.update_self]
      exact hph
    · rw [Function.update_of_ne hmn]
      exact hasked m
  -- A phase that goes on asking the same is bounded as it was.
  have hsame : ∀ {n : String} {r r' : Round} {todo todo' : List String}
      {answer answer' : Option Answer}, c.phase n = .asking r todo answer → r'.query = r.query →
      Sent (c'.electorate.states n).currentTerm (.asking r' todo' answer') := by
    rintro n r r' todo todo' answer answer' hph hquery _ _ _ t ⟨⟩ hq
    exact hasked n r todo answer t hph (hquery ▸ hq)
  cases Cluster.step_move hs with
  | arrive hin hcall => exact ⟨hasked, hstrays⟩
  | stray hmem hans =>
    exact ⟨hasked, fun sender m t hm => hstrays sender m t (List.mem_of_mem_erase hm)⟩
  | sync hph hnext =>
    refine ⟨hupdate (Sent.quiet ?_), hstrays⟩
    rcases hnext with rfl | rfl | rfl
    · simp
    · simp
    · rintro _ _ _ ⟨⟩ t
      simp [Round.query]
  | serve hph hans => exact ⟨hupdate (hsame hph rfl), hstrays⟩
  | count hph hcount => exact ⟨hupdate (hsame hph (Round.count_query hcount)), hstrays⟩
  | observe hph hcount hcall => exact ⟨hupdate (hsame hph (Round.count_query hcount)), hstrays⟩
  | loseAnswer hph => exact ⟨hupdate (hsame hph rfl), hstrays⟩
  | loseRequest hph =>
    refine ⟨hupdate (hsame hph rfl), fun sender m t hm => ?_⟩
    rcases List.mem_cons.mp hm with heq | hm
    · simp only [Prod.mk.injEq] at heq
      obtain ⟨rfl, -, hq⟩ := heq
      exact hasked sender _ _ _ t hph hq.symm
    · exact hstrays sender m t hm
  | candidate hph hq hstart hcall =>
    refine ⟨hupdate ?_, hstrays⟩
    rintro _ _ _ t ⟨⟩ hquery
    simp only [Round.query, Query.requestVote.injEq] at hquery
    subst hquery
    obtain ⟨hst, -⟩ := ElectionState.startCandidacy_eq_some hstart
    rw [Electorate.step_startCandidacy hstart hcall]
    simp only [Function.update_self, hst]
    exact UInt64.le_refl _
  | wake hph =>
    refine ⟨hupdate (Sent.quiet ?_), hstrays⟩
    rintro _ _ _ ⟨⟩ t
    simp [Round.query]
  | _ => exact ⟨hupdate (Sent.quiet (by simp)), hstrays⟩

/-! ## The group that is cut off -/

/-- No RPC crosses the border of `G`. -/
def Inside (G : Finset String) (c : Cluster) : Act → Prop
  | .rpc n _ => n ∉ G
  | .straggle (sender, m, _) => sender ∈ G ↔ m ∈ G
  | .serve n => ∀ m ∈ (c.phase n).asked, (n ∈ G ↔ m ∈ G)
  | _ => True

instance (G : Finset String) (c : Cluster) : ∀ a, Decidable (Inside G c a)
  | .rpc n _ => inferInstanceAs (Decidable (n ∉ G))
  | .straggle (sender, m, _) => inferInstanceAs (Decidable (sender ∈ G ↔ m ∈ G))
  | .serve n => inferInstanceAs (Decidable (∀ m ∈ (c.phase n).asked, (n ∈ G ↔ m ∈ G)))
  | .sync _ _ | .deliver _ | .lose _ | .finish _ | .wake _ | .promote _ => isTrue trivial

/-- An answer that reveals no term above `M`. -/
def AnswerBelow (M : Nat) (v : Answer) : Prop :=
  ∀ t, v.term = some t → t.toNat ≤ M

/-- A pre-vote round can still reach at most one pre-vote per member of `G`, and only members
    of `G` have answered it. -/
def PreVotesBelow (G : Finset String) (M k : Nat) (todo : List String)
    (answer : Option Answer) : Prop :=
  k + (todo.filter (· ∈ G)).length ≤ G.card ∧
    ∀ v, answer = some v → AnswerBelow M v ∧ ∀ m, todo.head? = some m → m ∈ G

/-- What a node of `G` can be doing: no vote round, and nothing that knows a term above `M`. -/
def PhaseBelow (G : Finset String) (M : Nat) : Phase → Prop
  | .asking (.discover best) _ answer =>
      (∀ t l, best = some (t, l) → t.toNat ≤ M) ∧ ∀ v, answer = some v → AnswerBelow M v
  | .asking (.preVote _ k) todo answer => PreVotesBelow G M k todo answer
  | .asking (.vote _ _) _ _ => False
  | _ => True

structure Confined (G : Finset String) (M : Nat) (c : Cluster) : Prop where
  terms : ∀ n ∈ G, (c.electorate.states n).currentTerm.toNat ≤ M
  phases : ∀ n ∈ G, PhaseBelow G M (c.phase n)
  strays : ∀ sender ∈ G, ∀ m t, (sender, m, .requestVote t) ∈ c.strays → t.toNat ≤ M

/-- With fewer members than a quorum, a bounded pre-vote round cannot win. -/
theorem Confined.not_stand {cfg : Config} {G : Finset String} {M : Nat} {c : Cluster}
    (hsmall : G.card < quorum cfg.members.length) (h : Confined G M c) {n : String}
    (hn : n ∈ G) : c.aboutToStand cfg n = false := by
  have hbelow := h.phases n hn
  unfold Cluster.aboutToStand
  split
  · rename_i k hph
    rw [hph] at hbelow
    obtain ⟨hk, -⟩ := hbelow
    rw [Bool.eq_false_iff]
    intro hq
    obtain ⟨-, hquorum⟩ := hasQuorum_iff.mp hq
    unfold quorum at hsmall
    simp only [List.filter_nil, List.length_nil] at hk
    omega
  · rfl

/-- The node itself and its peers in `G` are at most the members of `G`. -/
theorem preVotes_start {cfg : Config} {G : Finset String} {M : Nat} {n : String} (hn : n ∈ G) :
    PreVotesBelow G M 1 (cfg.peers n) none := by
  refine ⟨?_, by simp⟩
  have hnd : ((cfg.peers n).filter (· ∈ G)).Nodup := (cfg.nodup.filter _).filter _
  have hsub : ((cfg.peers n).filter (· ∈ G)).toFinset ⊆ G.erase n := by
    intro m hm
    simp only [Config.peers, List.mem_toFinset, List.mem_filter, decide_eq_true_eq] at hm
    exact Finset.mem_erase.mpr ⟨hm.1.2, hm.2⟩
  have hcard := Finset.card_le_card hsub
  rw [List.toFinset_card_of_nodup hnd, Finset.card_erase_of_mem hn] at hcard
  have hpos := Finset.card_pos.mpr ⟨n, hn⟩
  omega

/-- Popping the head, whether or not it granted: it can have granted only as a member of `G`. -/
theorem PreVotesBelow.pop {G : Finset String} {M k k' : Nat} {m : String} {todo : List String}
    {answer : Option Answer} (h : PreVotesBelow G M k (m :: todo) answer)
    (hk : k' ≤ k ∨ (k' = k + 1 ∧ m ∈ G)) : PreVotesBelow G M k' todo none := by
  obtain ⟨hle, -⟩ := h
  refine ⟨?_, by simp⟩
  simp only [List.filter_cons] at hle
  rcases hk with hk | ⟨rfl, hm⟩
  · split at hle
    · simp only [List.length_cons] at hle
      omega
    · omega
  · simp only [hm, decide_true, if_true, List.length_cons] at hle
    omega

theorem betterLeader_below {M : Nat} {best : Option (UInt64 × String)} {v : Answer}
    (hbest : ∀ t l, best = some (t, l) → t.toNat ≤ M) (hv : AnswerBelow M v) :
    ∀ t l, betterLeader best v = some (t, l) → t.toNat ≤ M := by
  have hterm : (v.term.getD 0).toNat ≤ M := by
    cases ht : v.term with
    | none => exact Nat.zero_le M
    | some t => exact hv t ht
  intro t l h
  unfold betterLeader at h
  split at h
  · exact hbest t l h
  · split at h
    · simp only [Option.some.injEq, Prod.mk.injEq] at h
      rw [← h.1]
      exact hterm
    · simp only at h
      split at h
      · simp only [Option.some.injEq, Prod.mk.injEq] at h
        rw [← h.1]
        exact hterm
      · exact hbest t l h

/-- A delivered answer leaves a bounded round bounded, and the term it makes the node observe
    is bounded too. -/
theorem PhaseBelow.count {G : Finset String} {M : Nat} {r r' : Round} {m : String}
    {todo : List String} {v : Answer} {obs : Option UInt64}
    (h : PhaseBelow G M (.asking r (m :: todo) (some v))) (hcount : r.count v = (r', obs)) :
    PhaseBelow G M (.asking r' todo none) ∧ ∀ t, obs = some t → t.toNat ≤ M := by
  cases r with
  | discover best =>
    simp only [Round.count, Prod.mk.injEq] at hcount
    obtain ⟨rfl, rfl⟩ := hcount
    exact ⟨⟨betterLeader_below h.1 (h.2 v rfl), by simp⟩, by simp⟩
  | vote t k => exact absurd h id
  | preVote t k =>
    obtain ⟨hv, hm⟩ := h.2 v rfl
    simp only [Round.count] at hcount
    split at hcount
    · simp only [Prod.mk.injEq] at hcount
      obtain ⟨rfl, rfl⟩ := hcount
      exact ⟨h.pop (Or.inr ⟨rfl, hm m rfl⟩), by simp⟩
    · simp only [Prod.mk.injEq] at hcount
      obtain ⟨rfl, rfl⟩ := hcount
      exact ⟨h.pop (Or.inl (Nat.le_refl k)), hv⟩

theorem PhaseBelow.skip {G : Finset String} {M : Nat} {r : Round} {m : String}
    {todo : List String} {answer : Option Answer}
    (h : PhaseBelow G M (.asking r (m :: todo) answer)) : PhaseBelow G M (.asking r todo none) := by
  cases r with
  | discover best => exact ⟨h.1, by simp⟩
  | vote t k => exact absurd h id
  | preVote t k => exact h.pop (Or.inl (Nat.le_refl k))

/-- The term a call carries. -/
def carried : Call → Nat
  | .considerVote t _ | .considerPreVote t | .observeTerm t | .observeLeader t _ => t.toNat
  | .startCandidacy | .becomeLeader => 0

/-- Other than by a candidacy, a term only ever becomes the one the call carries. -/
theorem call_term_le {π : Profile} {n : String} {s s' : ElectionState} {c : Call}
    {cast : Option Vote} (hc : c ≠ .startCandidacy) (h : s.call π n c = some (s', cast)) :
    s'.currentTerm.toNat ≤ max s.currentTerm.toNat (carried c) := by
  cases c with
  | startCandidacy => exact absurd rfl hc
  | considerVote t candidate =>
    simp only [ElectionState.call, Option.some.injEq, Prod.mk.injEq] at h
    obtain ⟨rfl, -⟩ := h
    rcases s.considerVote_cases t candidate with
      ⟨-, heq⟩ | ⟨-, -, heq⟩ | ⟨_, -, -, heq⟩ | ⟨-, heq⟩ <;> rw [heq] <;>
      simp [carried, ElectionState.enterTerm]
  | considerPreVote t =>
    simp only [ElectionState.call, Option.some.injEq, Prod.mk.injEq] at h
    obtain ⟨rfl, -⟩ := h
    exact Nat.le_max_left _ _
  | observeTerm t =>
    simp only [ElectionState.call, Option.some.injEq, Prod.mk.injEq] at h
    obtain ⟨rfl, -⟩ := h
    unfold ElectionState.observeTerm
    split <;> simp [carried, ElectionState.enterTerm]
  | observeLeader t leader =>
    simp only [ElectionState.call, Option.some.injEq, Prod.mk.injEq] at h
    obtain ⟨rfl, -⟩ := h
    unfold ElectionState.observeLeader
    split <;> simp [carried]
  | becomeLeader =>
    simp only [ElectionState.call, Option.some.injEq, Prod.mk.injEq] at h
    obtain ⟨rfl, -⟩ := h
    exact Nat.le_max_left _ _

/-- A call at a node of `G` that carries a bounded term, or any call outside `G`. -/
theorem terms_below_step {π : Profile} {G : Finset String} {M : Nat} {e e' : Electorate}
    {x : String} {c : Call} (h : ∀ n ∈ G, (e.states n).currentTerm.toNat ≤ M)
    (hs : e.step π (x, c) = some e')
    (hx : x ∈ G → c ≠ .startCandidacy ∧ carried c ≤ M) :
    ∀ n ∈ G, (e'.states n).currentTerm.toNat ≤ M := by
  intro n hn
  obtain ⟨-, ⟨-, rfl⟩ | ⟨s, cast, hcall, rfl⟩⟩ := Electorate.step_cases hs
  · exact h n hn
  · by_cases hnx : n = x
    · subst hnx
      simp only [Function.update_self]
      obtain ⟨hc, hle⟩ := hx hn
      have := call_term_le hc hcall
      have := h n hn
      omega
    · simp only [Function.update_of_ne hnx]
      exact h n hn

theorem phases_below_update {G : Finset String} {M : Nat} {phase : String → Phase} {x : String}
    {ph : Phase} (h : ∀ n ∈ G, PhaseBelow G M (phase n)) (hx : x ∈ G → PhaseBelow G M ph) :
    ∀ n ∈ G, PhaseBelow G M (Function.update phase x ph n) := by
  intro n hn
  by_cases hnx : n = x
  · subst hnx
    rw [Function.update_self]
    exact hx hn
  · rw [Function.update_of_ne hnx]
    exact h n hn

theorem confined_step {cfg : Config} {π : Profile} {G : Finset String} {M : Nat} {c c' : Cluster}
    {a : Act} (hsmall : G.card < quorum cfg.members.length) (hok : Inside G c a)
    (h : Confined G M c) (hs : c.step cfg π a = some c') : Confined G M c' := by
  cases Cluster.step_move hs with
  | @arrive n call e hin hcall =>
    exact ⟨terms_below_step h.terms hcall fun hn => absurd hn hok, h.phases, h.strays⟩
  | @stray sender m q e v hmem hans =>
    have hstrays : ∀ s ∈ G, ∀ m' t, (s, m', .requestVote t) ∈ c.strays.erase (sender, m, q) →
        t.toNat ≤ M := fun s hs' m' t hm => h.strays s hs' m' t (List.mem_of_mem_erase hm)
    rcases Electorate.answer_cases hans with
      ⟨-, rfl, -⟩ | ⟨t, -, rfl, -⟩ | ⟨t, rfl, hcall, -⟩
    · exact ⟨h.terms, h.phases, hstrays⟩
    · exact ⟨h.terms, h.phases, hstrays⟩
    · refine ⟨terms_below_step h.terms hcall fun hm => ⟨by simp, ?_⟩, h.phases, hstrays⟩
      exact h.strays sender (hok.mpr hm) m t hmem
  | @sync n ok ms ph hph hnext =>
    refine ⟨h.terms, phases_below_update h.phases fun _ => ?_, h.strays⟩
    rcases hnext with rfl | rfl | rfl
    · trivial
    · trivial
    · exact ⟨by simp, by simp⟩
  | @serve n m r todo e v hph hans =>
    have hborder := hok m (by simp [Phase.asked, hph])
    rcases Electorate.answer_cases hans with
      ⟨hq, rfl, rfl⟩ | ⟨t, hq, rfl, rfl⟩ | ⟨t, hq, hcall, -⟩
    · refine ⟨h.terms, phases_below_update h.phases fun hn => ?_, h.strays⟩
      have hbelow := h.phases n hn
      rw [hph] at hbelow
      cases r with
      | discover best =>
        refine ⟨hbelow.1, ?_⟩
        rintro _ ⟨⟩ _ ⟨⟩
        exact h.terms m (hborder.mp hn)
      | preVote t k => simp [Round.query] at hq
      | vote t k => simp [Round.query] at hq
    · refine ⟨h.terms, phases_below_update h.phases fun hn => ?_, h.strays⟩
      have hbelow := h.phases n hn
      rw [hph] at hbelow
      cases r with
      | discover best => simp [Round.query] at hq
      | preVote t' k =>
        refine ⟨hbelow.1, ?_⟩
        rintro _ ⟨⟩
        refine ⟨?_, ?_⟩
        · rintro _ ⟨⟩
          exact h.terms m (hborder.mp hn)
        · rintro _ ⟨⟩
          exact hborder.mp hn
      | vote t k => simp [Round.query] at hq
    · -- No node of `G` is in a vote round, so asker and asked are outside.
      have hout : n ∉ G := by
        intro hn
        have hbelow := h.phases n hn
        rw [hph] at hbelow
        cases r with
        | discover best => simp [Round.query] at hq
        | preVote t' k => simp [Round.query] at hq
        | vote t' k => exact hbelow
      exact ⟨terms_below_step h.terms hcall fun hm => absurd (hborder.mpr hm) hout,
        phases_below_update h.phases fun hn => absurd hn hout, h.strays⟩
  | @count n m r r' todo v hph hcount =>
    refine ⟨h.terms, phases_below_update h.phases fun hn => ?_, h.strays⟩
    have hbelow := h.phases n hn
    rw [hph] at hbelow
    exact (hbelow.count hcount).1
  | @observe n m r r' todo v term e hph hcount hcall =>
    have hbelow : n ∈ G → PhaseBelow G M (.asking r (m :: todo) (some v)) :=
      fun hn => hph ▸ h.phases n hn
    exact ⟨terms_below_step h.terms hcall fun hn =>
        ⟨by simp, ((hbelow hn).count hcount).2 term rfl⟩,
      phases_below_update h.phases fun hn => ((hbelow hn).count hcount).1, h.strays⟩
  | @loseAnswer n m r todo v hph =>
    refine ⟨h.terms, phases_below_update h.phases fun hn => ?_, h.strays⟩
    have hbelow := h.phases n hn
    rw [hph] at hbelow
    exact hbelow.skip
  | @loseRequest n m r todo hph =>
    have hbelow : n ∈ G → PhaseBelow G M (.asking r (m :: todo) none) :=
      fun hn => hph ▸ h.phases n hn
    refine ⟨h.terms, phases_below_update h.phases fun hn => (hbelow hn).skip, ?_⟩
    intro s hs' m' t hm
    rcases List.mem_cons.mp hm with heq | hm
    · simp only [Prod.mk.injEq] at heq
      obtain ⟨rfl, -, hq⟩ := heq
      have := hbelow hs'
      cases r with
      | discover best => simp [Round.query] at hq
      | preVote t' k => simp [Round.query] at hq
      | vote t' k => exact absurd this id
    · exact h.strays s hs' m' t hm
  | @repoint n leader term e hph hcall =>
    refine ⟨terms_below_step h.terms hcall fun hn => ⟨by simp, ?_⟩,
      phases_below_update h.phases fun _ => trivial, h.strays⟩
    have hbelow := h.phases n hn
    rw [hph] at hbelow
    exact hbelow.1 term leader rfl
  | @candidate n pvTerm term preVotes e s hph hq hstart hcall =>
    have hout : n ∉ G := fun hn =>
      by
      simpa [Cluster.aboutToStand, hph, hq] using h.not_stand hsmall hn
    exact ⟨terms_below_step h.terms hcall fun hn => absurd hn hout,
      phases_below_update h.phases fun hn => absurd hn hout, h.strays⟩
  | @candidatePanic n pvTerm preVotes e hph hq hcall =>
    have hout : n ∉ G := fun hn =>
      by
      simpa [Cluster.aboutToStand, hph, hq] using h.not_stand hsmall hn
    exact ⟨terms_below_step h.terms hcall fun hn => absurd hn hout,
      phases_below_update h.phases fun hn => absurd hn hout, h.strays⟩
  | @wake n pvTerm hph =>
    exact ⟨h.terms, phases_below_update h.phases fun hn => preVotes_start hn, h.strays⟩
  | @promote n term e hph hcall =>
    exact ⟨terms_below_step h.terms hcall fun _ => ⟨by simp, Nat.zero_le M⟩,
      phases_below_update h.phases fun _ => trivial, h.strays⟩
  | _ => exact ⟨h.terms, phases_below_update h.phases fun _ => trivial, h.strays⟩

/-! ## Runs -/

/-- The largest term in the group. -/
def maxTerm (G : Finset String) (c : Cluster) : Nat :=
  G.sup fun n => (c.electorate.states n).currentTerm.toNat

/-- The phases of `elect`, from its staggering sleep to its return. -/
def inElect : Phase → Bool
  | .jitter | .asking (.preVote _ _) _ _ | .asking (.vote _ _) _ _ => true
  | _ => false

def inDiscovery : Phase → Bool
  | .asking (.discover _) _ _ => true
  | _ => false

/-- No step of the run is a `start_candidacy` at a node of `G`. -/
def NobodyStands (cfg : Config) (G : Finset String) (c : Cluster) (a : Act) : Prop :=
  ∀ n ∈ G, a = .finish n → c.aboutToStand cfg n = false

/-- The largest term of the group bounds everything its resting nodes can learn. -/
theorem SentInv.confined {G : Finset String} {c : Cluster} (h : SentInv c)
    (hrest : ∀ n ∈ G, inElect (c.phase n) = false ∧ inDiscovery (c.phase n) = false) :
    Confined G (maxTerm G c) c := by
  have hmax : ∀ n ∈ G, (c.electorate.states n).currentTerm.toNat ≤ maxTerm G c := fun n hn =>
    Finset.le_sup (f := fun n => (c.electorate.states n).currentTerm.toNat) hn
  refine ⟨hmax, fun n hn => ?_, fun sender hs m t hm => ?_⟩
  · obtain ⟨helect, hdisc⟩ := hrest n hn
    cases hph : c.phase n with
    | asking r todo answer =>
      rw [hph] at helect hdisc
      cases r <;> simp [inElect, inDiscovery] at helect hdisc
    | _ => trivial
  · exact Nat.le_trans (UInt64.le_iff_toNat_le.mp (h.strays sender m t hm)) (hmax sender hs)

/-- A confined group's terms do not go back either: none of its nodes stands, and nothing else
    lowers a term. -/
theorem Confined.grow {cfg : Config} {π : Profile} {G : Finset String} {M : Nat} {c c' : Cluster}
    {a : Act} (hsmall : G.card < quorum cfg.members.length) (h : Confined G M c)
    (hs : c.step cfg π a = some c') {n : String} (hn : n ∈ G) :
    (c.electorate.states n).currentTerm.toNat ≤ (c'.electorate.states n).currentTerm.toNat := by
  rcases Cluster.step_electorate hs with ⟨hstates, -⟩ | ⟨x, call, hcall, hstand⟩
  · rw [hstates]
  · by_cases hx : n = x
    · subst hx
      have hnw : NoWrap π (c.electorate.states n) call := by
        intro hc
        rw [h.not_stand hsmall hn] at hstand
        exact absurd (hstand hc).2 (by simp)
      exact UInt64.le_iff_toNat_le.mp (termsGrow_step hnw hcall n)
    · obtain ⟨-, ⟨-, heq⟩ | ⟨s, cast, -, heq⟩⟩ := Electorate.step_cases hcall
      · rw [heq]
      · simp only [heq, Function.update_of_ne hx, Nat.le_refl]

/-- **A minority keeps its term.** From a point on at which no node of `G` is electing or
    discovering a leader, and after which no RPC crosses the border of `G`, no node of `G` calls
    `start_candidacy` and the largest term of `G` stays what it was. -/
theorem minority_keeps_term (cfg : Config) (π : Profile) (G : Finset String)
    (hsmall : G.card < quorum cfg.members.length) (before after : List Act) (c c' : Cluster)
    (hrun : run (Cluster.step cfg π) (Cluster.boot cfg) before = some c)
    (hnw : Meets (Cluster.step cfg π) (NoWrapping cfg π) (Cluster.boot cfg) before)
    (hrest : ∀ n ∈ G, inElect (c.phase n) = false ∧ inDiscovery (c.phase n) = false)
    (hrun' : run (Cluster.step cfg π) c after = some c')
    (hin : Meets (Cluster.step cfg π) (Inside G) c after) :
    Meets (Cluster.step cfg π) (NobodyStands cfg G) c after ∧ maxTerm G c' = maxTerm G c := by
  have hsent : SentInv c :=
    run_invariant (I := SentInv) (fun _ _ _ hok h hs => sentInv_step hok h hs) hnw
      (sentInv_boot cfg) hrun
  have hconf := hsent.confined hrest
  refine ⟨Meets.of_invariant (I := Confined G (maxTerm G c))
    (fun _ _ _ hok h hs => confined_step hsmall hok h hs)
    (fun _ _ _ h n hn _ => h.not_stand hsmall hn) hin hconf, ?_⟩
  have hend : Confined G (maxTerm G c) c' ∧ ∀ n ∈ G,
      (c.electorate.states n).currentTerm.toNat ≤ (c'.electorate.states n).currentTerm.toNat := by
    refine run_invariant (I := fun d => Confined G (maxTerm G c) d ∧ ∀ n ∈ G,
      (c.electorate.states n).currentTerm.toNat ≤ (d.electorate.states n).currentTerm.toNat)
      (fun _ _ _ hok h hs => ⟨confined_step hsmall hok h.1 hs, fun n hn => ?_⟩) hin
      ⟨hconf, fun _ _ => Nat.le_refl _⟩ hrun'
    exact Nat.le_trans (h.2 n hn) (h.1.grow hsmall hs hn)
  apply Nat.le_antisymm
  · exact Finset.sup_le fun n hn => hend.1.terms n hn
  · exact Finset.sup_mono_fun fun n hn => hend.2 n hn

/-- Five members, of which two are cut off. -/
def quintet : Config where
  members := ["P", "A", "B", "C", "D"]
  nodup := by decide
  primary := "P"
  primary_mem := by decide
  follow := fun _ => "P"
  maxMisses := fun _ => some 1

/-- `B` finds no leader, gets the pre-vote of `A`, and gives up with two of five. -/
def givesUp : List Act :=
  [.sync "B" false, .lose "B", .lose "B", .lose "B", .lose "B", .finish "B", .wake "B",
    .lose "B", .serve "B", .deliver "B", .lose "B", .lose "B", .finish "B"]

/-- `A` and `B` are cut off with `A` in term `1`. -/
theorem minority_keeps_term_pair :
    ∃ c c', run (Cluster.step quintet .release) (Cluster.boot quintet)
        [.rpc "A" (.considerVote 1 "C")] = some c ∧
      run (Cluster.step quintet .release) c givesUp = some c' ∧
      maxTerm {"A", "B"} c = 1 ∧ maxTerm {"A", "B"} c' = maxTerm {"A", "B"} c := by
  refine ⟨_, _, rfl, rfl, by decide, ?_⟩
  refine (minority_keeps_term quintet .release {"A", "B"} (by decide)
    [.rpc "A" (.considerVote 1 "C")] givesUp _ _ rfl ?_ (by decide) rfl
    (by decide)).2
  exact ⟨fun n hn => absurd hn (by simp), fun _ _ => trivial⟩

/-- `A` is elected in term `1` with the vote of the primary `P`; `B`, which still follows `P` and
    is in term `0`, asks `A` who leads and has the answer in hand. -/
def discovered : List Act :=
  [.sync "A" false, .lose "A", .lose "A", .finish "A", .wake "A", .lose "A", .serve "A",
    .deliver "A", .finish "A", .serve "A", .deliver "A", .lose "A", .finish "A", .promote "A",
    .sync "B" false, .lose "B", .serve "B", .deliver "B"]

/-- Cut off at that point, `B` re-points to `A` and enters term `1` without another RPC. -/
theorem discovery_raises_term :
    ¬ ∀ (cfg : Config) (π : Profile) (G : Finset String), (∀ n ∈ G, n ∈ cfg.members) →
      G.card < quorum cfg.members.length →
      ∀ (before after : List Act) (c c' : Cluster),
        run (Cluster.step cfg π) (Cluster.boot cfg) before = some c →
        (∀ n ∈ G, inElect (c.phase n) = false) →
        run (Cluster.step cfg π) c after = some c' →
        Meets (Cluster.step cfg π) (Inside G) c after →
        Meets (Cluster.step cfg π) (NobodyStands cfg G) c after ∧ maxTerm G c' = maxTerm G c := by
  intro h
  have hsame := (h trio .dev {"B"} (by decide) (by decide) discovered [.finish "B"] _ _ rfl
    (by decide) rfl (by decide)).2
  revert hsame
  decide

end Proof
end Himsha
