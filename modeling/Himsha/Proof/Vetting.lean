import Himsha.Proof.Ledger

/-!
# What a transaction has to pass to get into a block

There is one way into a block: a call, the queue, a batch. Only the first two checks of the call
are about the transaction itself, and nothing later looks at it again, so what they found has to
hold on the way. The blockhash is found among the blocks that are stored then; these stay, and the
block that takes the transaction gets a slot that was drawn after them.
-/

set_option autoImplicit false

namespace Himsha
namespace Proof

open Himsha.Lib Himsha.Runtime Himsha.Node

/-- Signed by all that it declares, made for this network, and made after a block below `bound`. -/
structure Vetted (g : Gate) (st : NodeState) (bound : Nat) (tx : RuntimeTransaction) : Prop where
  signed : tx.verifySignatures g.verify = true
  network : tx.message.chainId = g.chainId
  recent : ∃ j block, j < bound ∧ st.blocks.lookup j = some block ∧
    block.blockhash = tx.message.recentBlockhash

/-- The phases of a call that has passed the two checks. -/
def Passing : CallPhase → Prop
  | .admitted | .unincluded | .unsubmitted | .preflighted | .accepted => True
  | .received | .answered _ | .crashed => False

/-- What the producer holds, and the slot it is for: for a batch, one that is yet to be drawn. -/
def taken (s : Sequencer) : List RuntimeTransaction × Nat :=
  match s.producer with
  | .draining batch => (batch, s.world.state.slot + 1)
  | .executing d todo => (d.included ++ todo, d.slot)
  | .failing d tx _ todo | .recording d tx _ todo => (d.included ++ tx :: todo, d.slot)
  | .sleeping | .indexing _ _ | .marking _ _ _ | .stopped => ([], 0)

/-- All that is on its way, and all in the blocks above `start`. -/
structure AllVetted (g : Gate) (start : Nat) (s : Sequencer) : Prop where
  calls : ∀ c ∈ s.calls, Passing c.phase → Vetted g s.world.state (s.world.state.slot + 1) c.tx
  queue : ∀ tx ∈ s.queue, Vetted g s.world.state (s.world.state.slot + 1) tx
  hand : ∀ tx ∈ (taken s).1, Vetted g s.world.state (taken s).2 tx
  blocks : ∀ j block, start < j → s.world.state.blocks.lookup j = some block →
    ∀ tx ∈ block.transactions, Vetted g s.world.state j tx

section
variable {g : Gate} {st st' : NodeState} {tx : RuntimeTransaction} {n n' : Nat}

theorem Vetted.mono (h : Vetted g st n tx) (hext : Extends st st') (hle : n ≤ n') :
    Vetted g st' n' tx := by
  obtain ⟨j, block, hj, hblock, hhash⟩ := h.recent
  exact ⟨h.signed, h.network, j, block, by omega, hext.blocks j block hblock, hhash⟩

/-- The window is made of stored blocks. -/
theorem mem_recentBlockhashes {age : Nat} {hash : Blob 32}
    (h : hash ∈ st.recentBlockhashes age) :
    ∃ j block, j < st.slot + 1 ∧ st.blocks.lookup j = some block ∧ block.blockhash = hash := by
  unfold NodeState.recentBlockhashes at h
  obtain ⟨j, hj, hhash⟩ := List.mem_filterMap.mp h
  obtain ⟨block, hblock, rfl⟩ := Option.map_eq_some_iff.mp hhash
  rw [List.mem_range'_1] at hj
  exact ⟨j, block, by omega, hblock, rfl⟩

/-- **The two checks.** -/
theorem vetted_of_checks (h : (do checkSignatures g tx; checkReplayWindow g st tx) = .ok ()) :
    Vetted g st (st.slot + 1) tx := by
  unfold checkSignatures checkReplayWindow RuntimeTransaction.checkChainAndBlockhash at h
  split at h
  · rename_i hsigned
    split at h
    · cases h
    · rename_i hchain
      split at h
      · cases h
      · rename_i hwindow
        exact ⟨hsigned, not_not.mp hchain, mem_recentBlockhashes (not_not.mp hwindow)⟩
  · cases h

end

/-! ## Calls -/

section
variable {ex : Executor} {g : Gate} {start : Nat} {s s' : Sequencer}

theorem passing_afterCheck {check : Except RpcError Unit} {next : CallPhase}
    (h : Passing (Sequencer.afterCheck check next)) : check = .ok () := by
  unfold Sequencer.afterCheck at h
  split at h
  · rfl
  · exact h.elim

/-- A call that is on its way was so before, or has just passed the checks. -/
theorem serve_passing {c : SendCall} {phase : CallPhase}
    (hserve : s.serve ex g c = some (s', phase)) (hpass : Passing phase) :
    Passing c.phase ∨ Vetted g s.world.state (s.world.state.slot + 1) c.tx := by
  unfold Sequencer.serve at hserve
  cases hphase : c.phase with
  | admitted | unincluded | unsubmitted | preflighted | accepted => exact .inl trivial
  | received =>
    simp only [hphase, Option.some.injEq, Prod.mk.injEq] at hserve
    obtain ⟨-, rfl⟩ := hserve
    exact .inr (vetted_of_checks (passing_afterCheck hpass))
  | answered reply | crashed => simp [hphase] at hserve

/-- Where the ledger is the same and nothing new is on its way. -/
theorem AllVetted.same (h : AllVetted g start s)
    (hsame : SameLedger s.world.state s'.world.state) (hproducer : s'.producer = s.producer)
    (hcalls : ∀ c ∈ s'.calls, Passing c.phase → c ∈ s.calls)
    (hqueue : ∀ tx ∈ s'.queue, tx ∈ s.queue) : AllVetted g start s' := by
  have hext := hsame.toExtends
  have hhand : taken s' = taken s := by
    unfold taken
    rw [hproducer, hsame.slot]
  constructor
  · intro c hc hpass
    exact (h.calls c (hcalls c hc hpass) hpass).mono hext (by rw [hsame.slot])
  · intro tx htx
    exact (h.queue tx (hqueue tx htx)).mono hext (by rw [hsame.slot])
  · intro tx htx
    rw [hhand] at htx ⊢
    exact (h.hand tx htx).mono hext (Nat.le_refl _)
  · intro j block hj hblock tx htx
    rw [hsame.blocks] at hblock
    exact (h.blocks j block hj hblock tx htx).mono hext (Nat.le_refl _)

/-- **A statement of a call.** -/
theorem serve_vetted {c : SendCall} {phase : CallPhase} {i : Nat} (h : AllVetted g start s)
    (hc : s.calls[i]? = some c) (hserve : s.serve ex g c = some (s', phase)) :
    AllVetted g start { s' with calls := s'.calls.set i { c with phase } } := by
  have hmem : c ∈ s.calls := List.mem_of_getElem? hc
  -- What the call itself may go on with.
  have hcall : Passing phase → Vetted g s.world.state (s.world.state.slot + 1) c.tx := by
    intro hpass
    rcases serve_passing hserve hpass with hbefore | hvetted
    · exact h.calls c hmem hbefore
    · exact hvetted
  have hstep : ∀ {t : Sequencer}, SameLedger s.world.state t.world.state →
      t.producer = s.producer → t.calls = s.calls →
      (∀ tx ∈ t.queue, tx ∈ s.queue ∨ tx = c.tx ∧ Passing c.phase) →
      AllVetted g start { t with calls := t.calls.set i { c with phase } } := by
    intro t hsame hproducer hcalls hqueue
    have hext := hsame.toExtends
    have hslot : s.world.state.slot + 1 ≤ t.world.state.slot + 1 := by rw [hsame.slot]
    have hrest : AllVetted g start { t with calls := [], queue := [] } :=
      h.same hsame hproducer (by simp) (by simp)
    constructor
    · intro c' hc' hpass
      rw [hcalls] at hc'
      rcases List.mem_or_eq_of_mem_set hc' with hold | rfl
      · exact (h.calls c' hold hpass).mono hext hslot
      · exact (hcall hpass).mono hext hslot
    · intro tx htx
      rcases hqueue tx htx with hold | ⟨rfl, hpass⟩
      · exact (h.queue tx hold).mono hext hslot
      · exact (h.calls c hmem hpass).mono hext hslot
    · exact hrest.hand
    · exact hrest.blocks
  rcases serve_cases hserve with ⟨-, -, rfl | rfl⟩ | ⟨-, -, rfl⟩ | ⟨hphase, -, rfl | rfl⟩
  · exact hstep (.refl _) rfl rfl fun tx htx => .inl htx
  · exact hstep (.of_chain (apply_sameChain s.world)) rfl rfl fun tx htx => .inl htx
  · exact hstep ⟨rfl, rfl, rfl, rfl⟩ rfl rfl fun tx htx => .inl htx
  · exact hstep (.refl _) rfl rfl fun tx htx => .inl htx
  · refine hstep (.refl _) rfl rfl fun tx htx => ?_
    rcases List.mem_append.mp htx with hold | hnew
    · exact .inl hold
    · refine .inr ⟨List.mem_singleton.mp hnew, ?_⟩
      rw [hphase]
      trivial

/-! ## The producer -/

/-- The producer takes from the queue and from what it holds, and writes what it holds. -/
theorem AllVetted.produced (h : AllVetted g start s) (hext : Extends s.world.state s'.world.state)
    (hcalls : s'.calls = s.calls) (hqueue : ∀ tx ∈ s'.queue, tx ∈ s.queue)
    (hhand : ∀ tx ∈ (taken s').1, Vetted g s.world.state (taken s').2 tx)
    (hblocks : ∀ j block, s'.world.state.blocks.lookup j = some block →
      s.world.state.blocks.lookup j = some block ∨
        ∀ tx ∈ block.transactions, Vetted g s.world.state j tx) : AllVetted g start s' := by
  have hslot : s.world.state.slot + 1 ≤ s'.world.state.slot + 1 := Nat.succ_le_succ hext.slot
  constructor
  · intro c hc hpass
    exact (h.calls c (hcalls ▸ hc) hpass).mono hext hslot
  · intro tx htx
    exact (h.queue tx (hqueue tx htx)).mono hext hslot
  · intro tx htx
    exact (hhand tx htx).mono hext (Nat.le_refl _)
  · intro j block hj hblock tx htx
    rcases hblocks j block hblock with hold | hnew
    · exact (h.blocks j block hj hold tx htx).mono hext (Nat.le_refl _)
    · exact (hnew tx htx).mono hext (Nat.le_refl _)

/-- Where no block is written, there is none that is new. -/
theorem blocks_kept {t : Sequencer} {P : Nat → Block → Prop}
    (h : t.world.state.blocks = s.world.state.blocks) : ∀ j block,
      t.world.state.blocks.lookup j = some block →
        s.world.state.blocks.lookup j = some block ∨ P j block := by
  intro j block hblock
  exact .inl (h ▸ hblock)

theorem execute_vetted {d : Draft} {tx : RuntimeTransaction} {todo : List RuntimeTransaction}
    (h : AllVetted g start s) (hp : s.producer = .executing d (tx :: todo))
    (hext : Extends s.world.state (s.execute ex d tx todo).world.state) :
    AllVetted g start (s.execute ex d tx todo) := by
  have hsame : SameLedger s.world.state (ex.apply s.world tx .commit).2.state :=
    .of_chain (apply_sameChain s.world)
  have hhand := h.hand
  unfold taken at hhand
  rw [hp] at hhand
  unfold Sequencer.execute at hext ⊢
  cases happ : ex.apply s.world tx .commit with
  | mk result r =>
    rw [happ] at hsame hext
    cases result with
    | ok u =>
      refine h.produced hext rfl (fun _ ht => ht) (fun tx' htx' => hhand tx' ?_)
        (blocks_kept hsame.blocks)
      simpa [taken, or_assoc] using htx'
    | error e =>
      cases e with
      | error e =>
        exact h.produced hext rfl (fun _ ht => ht) hhand (blocks_kept hsame.blocks)
      | panic =>
        exact h.produced hext rfl (by simp) (by simp [taken]) (blocks_kept hsame.blocks)

/-- **A statement of the producer.** -/
theorem produce_vetted {now : UInt64} (h : AllVetted g start s) (hinv : LedgerInv s)
    (hstep : s.produce ex now = some s') : AllVetted g start s' := by
  obtain ⟨-, hext⟩ := produce_ledger hinv hstep
  have hhand := h.hand
  unfold taken at hhand
  unfold Sequencer.produce at hstep
  cases hp : s.producer with
  | sleeping =>
    simp only [hp, Option.some.injEq] at hstep
    subst hstep
    exact h.produced hext rfl (fun _ ht => ht) (by simp [taken]) (blocks_kept rfl)
  | draining batch =>
    rw [hp] at hhand
    simp only [hp] at hstep
    split at hstep
    · rename_i tx queue hqueue
      obtain rfl := Option.some.inj hstep
      refine h.produced hext rfl (fun tx' htx' => ?_) (fun tx' htx' => ?_) (blocks_kept rfl)
      · rw [hqueue]
        exact List.mem_cons_of_mem _ htx'
      · rcases List.mem_append.mp htx' with hold | hnew
        · exact hhand tx' hold
        · exact h.queue tx' (by rw [hqueue]; exact List.mem_singleton.mp hnew ▸ List.mem_cons_self ..)
    · split at hstep
      · obtain rfl := Option.some.inj hstep
        exact h.produced hext rfl (fun _ ht => ht) (by simp [taken]) (blocks_kept rfl)
      · obtain rfl := Option.some.inj hstep
        -- The slot of the block is the one that the batch was waiting for.
        exact h.produced hext rfl (fun _ ht => ht) hhand (blocks_kept rfl)
  | executing d todo =>
    cases todo with
    | cons tx todo =>
      simp only [hp, Option.some.injEq] at hstep
      subst hstep
      exact execute_vetted h hp hext
    | nil =>
      rw [hp] at hhand
      simp only [hp, Option.some.injEq] at hstep
      subst hstep
      refine h.produced hext rfl (fun _ ht => ht) (by simp [taken]) fun j block hblock => ?_
      by_cases hj : j = d.slot
      · subst hj
        obtain rfl := Option.some.inj ((Finmap.lookup_insert _).symm.trans hblock)
        exact .inr fun tx htx => hhand tx (List.mem_append_left _ htx)
      · exact .inl ((Finmap.lookup_insert_of_ne _ hj).symm.trans hblock)
  | failing d tx error todo =>
    rw [hp] at hhand
    simp only [hp] at hstep
    split at hstep
    · obtain rfl := Option.some.inj hstep
      refine h.produced hext rfl (fun _ ht => ht) (fun tx' htx' => hhand tx' ?_) (blocks_kept rfl)
      rcases List.mem_append.mp htx' with hin | htodo
      · exact List.mem_append_left _ hin
      · exact List.mem_append_right _ (List.mem_cons_of_mem _ htodo)
    · obtain rfl := Option.some.inj hstep
      exact h.produced hext rfl (fun _ ht => ht) hhand (blocks_kept rfl)
  | recording d tx error todo =>
    rw [hp] at hhand
    simp only [hp, Option.some.injEq] at hstep
    subst hstep
    refine h.produced hext rfl (fun _ ht => ht) (fun tx' htx' => hhand tx' ?_) (blocks_kept rfl)
    rcases List.mem_append.mp htx' with hin | htodo
    · exact List.mem_append_left _ hin
    · exact List.mem_append_right _ (List.mem_cons_of_mem _ htodo)
  | indexing slot todo =>
    cases todo with
    | cons tx todo | nil =>
      simp only [hp, Option.some.injEq] at hstep
      subst hstep
      exact h.produced hext rfl (fun _ ht => ht) (by simp [taken]) (blocks_kept rfl)
  | marking slot tx todo =>
    simp only [hp, Option.some.injEq] at hstep
    subst hstep
    exact h.produced hext rfl (fun _ ht => ht) (by simp [taken]) (blocks_kept rfl)
  | stopped => simp [hp] at hstep

theorem incident_vetted {boot : ElectionState} {i : Incident} (h : AllVetted g start s)
    (hinv : LedgerInv s) (hstep : s.incident ex g boot i = some s') : AllVetted g start s' := by
  cases i with
  | crash =>
    simp only [Sequencer.incident, Option.some.injEq] at hstep
    subst hstep
    -- All that is not in a block is lost.
    exact ⟨by simp [Sequencer.reopened], by simp [Sequencer.reopened],
      by simp [taken, Sequencer.reopened], h.blocks⟩
  | act a =>
    cases a with
    | submit tx =>
      simp only [Sequencer.incident, Sequencer.step, Option.some.injEq] at hstep
      subst hstep
      refine h.same (.refl _) rfl (fun c hc hpass => ?_) fun _ ht => ht
      rcases List.mem_append.mp hc with hold | hnew
      · exact hold
      · rw [List.mem_singleton.mp hnew] at hpass
        exact hpass.elim
    | serve i =>
      obtain ⟨c, s₁, phase, hc, hserve, rfl⟩ := step_serve hstep
      exact serve_vetted h hc hserve
    | produce now => exact produce_vetted h hinv hstep
    | election c =>
      obtain ⟨election, -, rfl⟩ := Option.map_eq_some_iff.mp hstep
      exact h.same (.refl _) rfl (fun c hc _ => hc) fun _ ht => ht

end

/-! ## Runs -/

/-- Nothing is on its way in a node that has just been opened. -/
theorem Booted.allVetted {g : Gate} {s : Sequencer} (h : Booted s) (hcalls : s.calls = [])
    (hqueue : s.queue = []) : AllVetted g s.world.state.slot s := by
  refine ⟨by simp [hcalls], by simp [hqueue], ?_, fun j block hj hblock => ?_⟩
  · unfold taken
    rw [h.producer]
    simp
  · rw [h.ledger.fresh j hj] at hblock
    cases hblock

theorem run_vetted {ex : Executor} {g : Gate} {boot : ElectionState} {start : Nat}
    {s s' : Sequencer} {incidents : List Incident} (hinv : LedgerInv s)
    (h : AllVetted g start s)
    (hrun : Lib.run (Sequencer.incident ex g boot) s incidents = some s') :
    AllVetted g start s' := by
  have hstep : ∀ t i t', LedgerInv t ∧ AllVetted g start t → t.incident ex g boot i = some t' →
      LedgerInv t' ∧ AllVetted g start t' :=
    fun t i t' ht h => ⟨(incident_ledger ht.1 h).1, incident_vetted ht.2 ht.1 h⟩
  exact (run_keeps hstep ⟨hinv, h⟩ hrun).2

/-- **What gets into a block.** In every run of a node that starts with nothing in flight, crashed
    at whatever statements: each transaction of a block that was sealed in it is signed by every
    key it declares, is made for this network, and names the hash of a block below it that is
    stored still. -/
theorem blocks_vetted (ex : Executor) (g : Gate) (boot : ElectionState) (s₀ s : Sequencer)
    (incidents : List Incident) (hbooted : Booted s₀) (hcalls : s₀.calls = [])
    (hqueue : s₀.queue = [])
    (hrun : Lib.run (Sequencer.incident ex g boot) s₀ incidents = some s) (j : Nat) (block : Block)
    (hnew : s₀.world.state.slot < j) (hblock : s.world.state.blocks.lookup j = some block)
    (tx : RuntimeTransaction) (htx : tx ∈ block.transactions) :
    (∀ k ∈ tx.message.signers, ∃ sig ∈ tx.signatures, g.verify sig tx.messageHash k = true) ∧
      tx.message.chainId = g.chainId ∧
      ∃ i parent, i < j ∧ s.world.state.blocks.lookup i = some parent ∧
        parent.blockhash = tx.message.recentBlockhash := by
  have hvetted := run_vetted hbooted.inv (hbooted.allVetted hcalls hqueue) hrun
  have hfound := hvetted.blocks j block hnew hblock tx htx
  exact ⟨fun k hk => RuntimeTransaction.verifySignatures_mem hfound.signed hk, hfound.network,
    hfound.recent⟩

/-- A payment is put in a block, and the node crashes after it. -/
theorem blocks_vetted_payment : ∃ s,
    Lib.run (Sequencer.incident (.bare .dev) payingGate {}) payingNode
        (settledPayment ++ [.crash]) = some s ∧
      ∃ block, s.world.state.blocks.lookup 1 = some block ∧ payment ∈ block.transactions ∧
        ∃ sig ∈ payment.signatures,
          payingGate.verify sig payment.messageHash (.repeated 1) = true := by
  have hcheck : (Lib.run (Sequencer.incident (.bare .dev) payingGate {}) payingNode
      (settledPayment ++ [.crash])).any (fun s => (s.world.state.blocks.lookup 1).any
        fun block => payment ∈ block.transactions) = true := by
    decide +kernel
  obtain ⟨s, hrun, hthen⟩ := (Option.any_eq_true _ _).mp hcheck
  obtain ⟨block, hblock, htx⟩ := (Option.any_eq_true _ _).mp hthen
  have hpayment := of_decide_eq_true htx
  obtain ⟨hsigned, -, -⟩ := blocks_vetted (.bare .dev) payingGate {} _ s _ payingNode_booted rfl
    rfl hrun 1 block (by decide) hblock payment hpayment
  exact ⟨s, hrun, block, hblock, hpayment, hsigned (.repeated 1) (by decide)⟩

end Proof
end Himsha
