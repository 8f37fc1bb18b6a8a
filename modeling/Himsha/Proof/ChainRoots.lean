import Himsha.Proof.Ledger

/-!
# What the roots in the blocks are roots of

The producer takes the root when it has applied the block, from the accounts it then has. The
accounts are those of the chain, so the root in a block can be recomputed from the blocks alone:
it is the root of the table that the chain up to that block replays to.
-/

set_option autoImplicit false

namespace Himsha
namespace Proof

open Himsha.Lib Himsha.Runtime Himsha.Programs Himsha.Vm Himsha.Node

/-- The root of a table, whatever else is in the database. -/
def rootOf (t : Accounts) : Blob 32 := NodeState.computeStateRoot { accounts := t }

theorem computeStateRoot_eq (s : NodeState) : s.computeStateRoot = rootOf s.accounts :=
  computeStateRoot_congr rfl

/-- The root in a stored block is the root of what the chain up to it replays to. -/
def Rooted (m : Machine) (genesis : Accounts) (blocks : Table Nat Block) : Prop :=
  ∀ n block t, blocks.lookup (n + 1) = some block → replayTo m genesis blocks (n + 1) = some t →
    block.stateRoot = rootOf t

section
variable {m : Machine} {genesis : Accounts} {st : NodeState} {n : Nat} {t : Accounts}

/-- A replay goes through stored blocks only. -/
theorem replayTo_stored {blocks : Table Nat Block} : ∀ {n : Nat} {t : Accounts},
    replayTo m genesis blocks n = some t →
      ∀ k, 0 < k → k ≤ n → ∃ block, blocks.lookup k = some block := by
  intro n
  induction n with
  | zero => exact fun _ k hpos hle => absurd hle (by omega)
  | succ n ih =>
    intro t ht k hpos hle
    obtain ⟨u, hu, hrest⟩ := Option.bind_eq_some_iff.mp ht
    rcases Nat.lt_or_eq_of_le hle with hlt | rfl
    · exact ih hu k hpos (by omega)
    · obtain ⟨block, hblock, -⟩ := Option.bind_eq_some_iff.mp hrest
      exact ⟨block, hblock⟩

/-- Blocks that are added do not change what was replayed. -/
theorem replayTo_mono {blocks blocks' : Table Nat Block}
    (hext : ∀ k block, blocks.lookup k = some block → blocks'.lookup k = some block) : ∀ {n : Nat} {t : Accounts},
      replayTo m genesis blocks n = some t → replayTo m genesis blocks' n = some t := by
  intro n
  induction n with
  | zero => exact fun h => h
  | succ n ih =>
    intro t ht
    obtain ⟨u, hu, hrest⟩ := Option.bind_eq_some_iff.mp ht
    obtain ⟨block, hblock, hrun⟩ := Option.bind_eq_some_iff.mp hrest
    rw [replayTo, ih hu, Option.bind_some, hext _ _ hblock, Option.bind_some]
    exact hrun

/-- A chain that replays to its end replays to each of its blocks. -/
theorem replayTo_le {blocks : Table Nat Block} : ∀ {n : Nat} {t : Accounts},
    replayTo m genesis blocks n = some t → ∀ k ≤ n, ∃ u, replayTo m genesis blocks k = some u := by
  intro n
  induction n with
  | zero =>
    intro t ht k hk
    obtain rfl : k = 0 := Nat.le_zero.mp hk
    exact ⟨t, ht⟩
  | succ n ih =>
    intro t ht k hk
    rcases Nat.lt_or_eq_of_le hk with hlt | rfl
    · obtain ⟨u, hu, -⟩ := Option.bind_eq_some_iff.mp ht
      exact ih hu k (by omega)
    · exact ⟨t, ht⟩

/-- In a chain with nothing above its end, every block after the first has the root of what is
    replayed to it. -/
theorem Chained.rooted (h : Chained m genesis st n t) (hrooted : Rooted m genesis st.blocks)
    {k : Nat} {block : Block} (hk : st.blocks.lookup (k + 1) = some block) :
    ∃ u, replayTo m genesis st.blocks (k + 1) = some u ∧ block.stateRoot = rootOf u := by
  have hle : k + 1 ≤ n := by
    by_contra hgt
    rw [h.fresh (k + 1) (by omega)] at hk
    cases hk
  obtain ⟨u, hu⟩ := replayTo_le h.replays (k + 1) hle
  exact ⟨u, hu, hrooted k block u hk hu⟩

/-- A block saved on top of the chain, with the root of the accounts that it leaves. -/
theorem Rooted.saveBlock {block : Block} (hrooted : Rooted m genesis st.blocks)
    (hchain : Chained m genesis st n t)
    (hrun : Lib.run (replayStep m) t (Follower.instructionsOf block) = some st.accounts)
    (hroot : block.stateRoot = rootOf st.accounts) :
    Rooted m genesis (st.saveBlock (n + 1) block).blocks := by
  have hsaved := saveBlock_chained block hchain hrun
  have hlookup : ∀ k, k ≠ n + 1 →
      (st.saveBlock (n + 1) block).blocks.lookup k = st.blocks.lookup k :=
    fun k hk => Finmap.lookup_insert_of_ne _ hk
  intro k b u hb hu
  by_cases hk : k = n
  · subst hk
    obtain rfl : block = b := Option.some.inj ((Finmap.lookup_insert _).symm.trans hb)
    obtain rfl : st.accounts = u := Option.some.inj (hsaved.replays.symm.trans hu)
    exact hroot
  · rw [hlookup (k + 1) (by omega)] at hb
    -- Below the new block nothing changed, and above it nothing is stored.
    have hle : k + 1 ≤ n := by
      by_contra hgt
      rw [hchain.fresh (k + 1) (by omega)] at hb
      cases hb
    rw [replayTo_congr fun j hj => hlookup j (by omega)] at hu
    exact hrooted k b u hb hu

end

section
variable {ex : Executor} {g : Gate} {genesis : Accounts} {s s' : Sequencer}

/-- The end of a block is the only statement of the producer that writes to the blocks. -/
theorem produce_blocks {now : UInt64} (h : s.produce ex now = some s') :
    s'.world.state.blocks = s.world.state.blocks ∨
      ∃ d, s.producer = .executing d [] ∧ s'.world.state = s.world.state.saveBlock d.slot
        (.newWithRoot d.slot (d.slot - 1) d.included d.timestamp s.world.state.computeStateRoot) := by
  have hexecute : ∀ d tx todo,
      (s.execute ex d tx todo).world.state.blocks = s.world.state.blocks := by
    intro d tx todo
    have hsame : SameLedger s.world.state (ex.apply s.world tx .commit).2.state :=
      .of_chain (apply_sameChain s.world)
    unfold Sequencer.execute
    dsimp only
    split <;> exact hsame.blocks
  unfold Sequencer.produce at h
  cases hp : s.producer with
  | executing d todo =>
    cases todo with
    | nil =>
      simp only [hp, Option.some.injEq] at h
      subst h
      exact .inr ⟨d, rfl, rfl⟩
    | cons tx todo =>
      simp only [hp, Option.some.injEq] at h
      subst h
      exact .inl (hexecute d tx todo)
  | draining batch =>
    simp only [hp] at h
    split at h
    · rw [← Option.some.inj h]
      exact .inl rfl
    · split at h
      · rw [← Option.some.inj h]
        exact .inl rfl
      · rw [← Option.some.inj h]
        exact .inl rfl
  | failing d tx error todo =>
    simp only [hp] at h
    split at h
    · rw [← Option.some.inj h]
      exact .inl rfl
    · rw [← Option.some.inj h]
      exact .inl rfl
  | indexing slot todo =>
    cases todo with
    | nil | cons tx todo =>
      simp only [hp, Option.some.injEq] at h
      subst h
      exact .inl rfl
  | sleeping | recording d tx error todo | marking slot tx todo =>
    simp only [hp, Option.some.injEq] at h
    subst h
    exact .inl rfl
  | stopped => simp [hp] at h

/-- What holds of the node between its statements. -/
structure ChainInv (m : Machine) (genesis : Accounts) (s : Sequencer) : Prop where
  durable : Durable m genesis s
  rooted : Rooted m genesis s.world.state.blocks

theorem produce_rooted {now : UInt64} (hinv : ChainInv ex.machine genesis s)
    (h : s.produce ex now = some s') : Rooted ex.machine genesis s'.world.state.blocks := by
  rcases produce_blocks h with hsame | ⟨d, hp, hsave⟩
  · rw [hsame]
    exact hinv.rooted
  · have hdurable := hinv.durable
    unfold Durable at hdurable
    rw [hp] at hdurable
    obtain ⟨hslot, ⟨n, t, hn, hchain, hrun⟩, -⟩ := hdurable
    rw [hsave, hslot, hn]
    exact hinv.rooted.saveBlock hchain hrun (computeStateRoot_eq _)

theorem incident_durable {boot : ElectionState} {i : Incident}
    (hdurable : Durable ex.machine genesis s) (hok : CrashesAtRest s i)
    (h : s.incident ex g boot i = some s') : Durable ex.machine genesis s' := by
  cases i with
  | crash =>
    simp only [Sequencer.incident, Option.some.injEq] at h
    subst h
    exact reopened_durable hdurable hok
  | act a => exact step_durable hdurable h

/-- **Every statement keeps the roots**, and so does a crash between blocks. -/
theorem incident_chainInv {boot : ElectionState} {i : Incident}
    (hinv : ChainInv ex.machine genesis s) (hok : CrashesAtRest s i)
    (h : s.incident ex g boot i = some s') : ChainInv ex.machine genesis s' := by
  refine ⟨incident_durable hinv.durable hok h, ?_⟩
  cases i with
  | crash =>
    simp only [Sequencer.incident, Option.some.injEq] at h
    subst h
    exact hinv.rooted
  | act a =>
    cases a with
    | submit tx =>
      obtain rfl := Option.some.inj h
      exact hinv.rooted
    | serve i =>
      obtain ⟨c, s₁, phase, -, hserve, rfl⟩ := step_serve h
      have hblocks := (serve_sameDb hserve).1.blocks
      exact hblocks ▸ hinv.rooted
    | produce now => exact produce_rooted hinv h
    | election c =>
      obtain ⟨election, -, rfl⟩ := Option.map_eq_some_iff.mp h
      exact hinv.rooted

end

/-- There is a chain in the database at every statement, if not always up to the slot. -/
theorem Durable.chain {m : Machine} {genesis : Accounts} {s : Sequencer}
    (h : Durable m genesis s) : ∃ n t, Chained m genesis s.world.state n t := by
  unfold Durable at h
  cases hp : s.producer with
  | sleeping | draining batch | indexing slot todo | marking slot tx todo =>
    rw [hp] at h
    exact ⟨_, _, h.1⟩
  | executing d todo | failing d tx error todo | recording d tx error todo =>
    rw [hp] at h
    obtain ⟨-, ⟨n, t, -, hchain, -⟩, -⟩ := h
    exact ⟨n, t, hchain⟩
  | stopped =>
    rw [hp] at h
    obtain ⟨txs, n, t, -, hchain, -⟩ := h
    exact ⟨n, t, hchain⟩

theorem run_durable {ex : Executor} {g : Gate} {boot : ElectionState} {genesis : Accounts}
    {s s' : Sequencer} {incidents : List Incident} (h : Durable ex.machine genesis s)
    (hmeets : Meets (Sequencer.incident ex g boot) CrashesAtRest s incidents)
    (hrun : Lib.run (Sequencer.incident ex g boot) s incidents = some s') :
    Durable ex.machine genesis s' :=
  run_invariant (fun _ _ _ hok hI h => incident_durable hI hok h) hmeets h hrun

theorem run_chainInv {ex : Executor} {g : Gate} {boot : ElectionState} {genesis : Accounts}
    {s s' : Sequencer} {incidents : List Incident} (hinv : ChainInv ex.machine genesis s)
    (hmeets : Meets (Sequencer.incident ex g boot) CrashesAtRest s incidents)
    (hrun : Lib.run (Sequencer.incident ex g boot) s incidents = some s') :
    ChainInv ex.machine genesis s' :=
  run_invariant (fun _ _ _ hok hI h => incident_chainInv hI hok h) hmeets hinv hrun

/-- **The blocks account for the state.** In every run of a node, of any calls and batches, in which
    it has crashed between blocks only: from the genesis table, the stored blocks replay to every
    block that is stored, and the state root in it is the root of the table they replay to. -/
theorem blocks_rooted (ex : Executor) (g : Gate) (boot : ElectionState) (genesis : Accounts)
    (s₀ s : Sequencer) (incidents : List Incident) (hready : Ready ex.machine genesis s₀)
    (hrooted : Rooted ex.machine genesis s₀.world.state.blocks)
    (hmeets : Meets (Sequencer.incident ex g boot) CrashesAtRest s₀ incidents)
    (hrun : Lib.run (Sequencer.incident ex g boot) s₀ incidents = some s) (n : Nat) (block : Block)
    (hblock : s.world.state.blocks.lookup (n + 1) = some block) :
    ∃ t, replayTo ex.machine genesis s.world.state.blocks (n + 1) = some t ∧
      block.stateRoot = rootOf t := by
  have hinv := run_chainInv ⟨hready.durable, hrooted⟩ hmeets hrun
  obtain ⟨k, u, hchain⟩ := hinv.durable.chain
  exact hchain.rooted hinv.rooted hblock

theorem payingNode_rooted (m : Machine) (genesis : Accounts) :
    Rooted m genesis payingNode.world.state.blocks := by
  intro n block t hblock
  have hnone : payingNode.world.state.blocks.lookup (n + 1) = none :=
    Finmap.lookup_insert_of_ne _ (Nat.succ_ne_zero n)
  rw [hnone] at hblock
  cases hblock

/-- A message is put in a block of a node with one account, and the node crashes after it. -/
theorem blocks_rooted_restart : ∃ s,
    Lib.run (Sequencer.incident (.bare .dev) payingGate {}) payingNode sentBeforeCrash = some s ∧
      ∃ block t, s.world.state.blocks.lookup 1 = some block ∧
        replayTo (Executor.bare .dev).machine payingNode.world.state.accounts
          s.world.state.blocks 1 = some t ∧ block.stateRoot = rootOf t := by
  have hcheck : (Lib.run (Sequencer.incident (.bare .dev) payingGate {}) payingNode
      sentBeforeCrash).any (fun s => (s.world.state.blocks.lookup 1).isSome) = true := by
    decide +kernel
  have hmeets : Meets (Sequencer.incident (.bare .dev) payingGate {}) CrashesAtRest payingNode
      sentBeforeCrash := by
    decide +kernel
  obtain ⟨s, hrun, hthen⟩ := (Option.any_eq_true _ _).mp hcheck
  obtain ⟨block, hblock⟩ := Option.isSome_iff_exists.mp hthen
  obtain ⟨t, ht, hroot⟩ := blocks_rooted (.bare .dev) payingGate {} _ _ s _ payingNode_ready
    (payingNode_rooted _ _) hmeets hrun 0 block hblock
  exact ⟨s, hrun, block, t, hblock, ht, hroot⟩

end Proof
end Himsha
