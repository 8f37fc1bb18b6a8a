import Himsha.Node.Anchoring
import Himsha.Proof.Ledger

/-!
# Anchors say what the chain says

A root is broadcast after its block is saved, and blocks stay. So whatever gets to Bitcoin is about
a stored block, also where the node crashes before it writes down that it anchored; and the record
that is served as the latest is one of the broadcasts, for the highest slot that was written down.
-/

set_option autoImplicit false

namespace Himsha
namespace Proof

open Himsha.Lib Himsha.Runtime Himsha.Node

/-- A block is stored at the slot, with this root. -/
def Rooting (st : NodeState) (slot : Nat) (root : Blob 32) : Prop :=
  ∃ block, st.blocks.lookup slot = some block ∧ block.stateRoot = root

/-- The slot is one of those that are anchored. -/
def Due (interval slot : Nat) : Prop := 0 < interval ∧ slot % interval = 0

/-- What stays true of a root while the chain grows. -/
def Lasting (Known : NodeState → Nat → Blob 32 → Prop) : Prop :=
  ∀ ⦃st st' slot root⦄, Extends st st' → Known st slot root → Known st' slot root

/-- The transaction was broadcast, and commits to a root that is known to be that of the slot. -/
structure Committed (Known : NodeState → Nat → Blob 32 → Prop) (interval : Nat) (s : AnchoringNode)
    (btcTxid : String) (slot : Nat) (root : Blob 32) : Prop where
  published : (btcTxid, anchorPayload slot root) ∈ s.published
  known : Known s.node.world.state slot root
  due : Due interval slot

/-- What holds of an anchoring node between its statements. -/
structure AnchorInv (Known : NodeState → Nat → Blob 32 → Prop) (interval : Nat)
    (s : AnchoringNode) : Prop where
  ledger : LedgerInv s.node
  current : ∀ slot root, s.current = some (slot, root) → Known s.node.world.state slot root
  publishing : ∀ slot root, s.phase = .publishing slot root →
    Known s.node.world.state slot root ∧ Due interval slot
  recording : ∀ slot root btcTxid, s.phase = .recording slot root btcTxid →
    Committed Known interval s btcTxid slot root
  published : ∀ p ∈ s.published, ∃ slot root, p.2 = anchorPayload slot root ∧
    Known s.node.world.state slot root ∧ Due interval slot
  records : ∀ slot rec, s.anchors.records.lookup slot = some rec → rec.slot = slot ∧
    Committed Known interval s rec.btcTxid slot rec.stateRoot
  /-- The tip is the highest slot that is recorded. -/
  tip : ∀ slot rec, s.anchors.records.lookup slot = some rec → ∃ top, s.anchors.tip = some top ∧
    slot ≤ top
  tipRecorded : ∀ top, s.anchors.tip = some top → (s.anchors.records.lookup top).isSome

section
variable {Known : NodeState → Nat → Blob 32 → Prop} {interval slot : Nat} {root : Blob 32}
  {btcTxid : String} {s s' : AnchoringNode}

theorem rooting_lasting : Lasting Rooting := by
  rintro st st' slot root hext ⟨block, hblock, hroot⟩
  exact ⟨block, hext.blocks slot block hblock, hroot⟩

theorem Committed.mono (hlast : Lasting Known) (h : Committed Known interval s btcTxid slot root)
    (hext : Extends s.node.world.state s'.node.world.state)
    (hpublished : ∀ p ∈ s.published, p ∈ s'.published) :
    Committed Known interval s' btcTxid slot root :=
  ⟨hpublished _ h.published, hlast hext h.known, h.due⟩

/-- **A statement of the node**, or a crash: what was said of the roots is still so. -/
theorem AnchorInv.node (hlast : Lasting Known) (h : AnchorInv Known interval s)
    (hledger : LedgerInv s'.node) (hext : Extends s.node.world.state s'.node.world.state)
    (hanchors : s'.anchors = s.anchors) (hpublished : s'.published = s.published)
    (hcurrent : ∀ slot root, s'.current = some (slot, root) → Known s'.node.world.state slot root)
    (hpublishing : ∀ slot root, s'.phase = .publishing slot root →
      s.phase = .publishing slot root ∨ Known s.node.world.state slot root ∧ Due interval slot)
    (hrecording : ∀ slot root btcTxid, s'.phase = .recording slot root btcTxid →
      s.phase = .recording slot root btcTxid) : AnchorInv Known interval s' := by
  have hmem : ∀ p ∈ s.published, p ∈ s'.published := fun p hp => hpublished ▸ hp
  constructor
  · exact hledger
  · exact hcurrent
  · intro slot root hphase
    rcases hpublishing slot root hphase with hbefore | ⟨hroot, hdue⟩
    · obtain ⟨hroot, hdue⟩ := h.publishing slot root hbefore
      exact ⟨hlast hext hroot, hdue⟩
    · exact ⟨hlast hext hroot, hdue⟩
  · intro slot root btcTxid hphase
    exact (h.recording slot root btcTxid (hrecording slot root btcTxid hphase)).mono hlast hext hmem
  · intro p hp
    obtain ⟨slot, root, hpayload, hroot, hdue⟩ := h.published p (hpublished ▸ hp)
    exact ⟨slot, root, hpayload, hlast hext hroot, hdue⟩
  · intro slot rec hrec
    obtain ⟨hslot, hcommitted⟩ := h.records slot rec (hanchors ▸ hrec)
    exact ⟨hslot, hcommitted.mono hlast hext hmem⟩
  · rw [hanchors]
    exact h.tip
  · rw [hanchors]
    exact h.tipRecorded

/-- **A broadcast.** -/
theorem AnchorInv.publish (hlast : Lasting Known) (h : AnchorInv Known interval s)
    (hphase : s.phase = .publishing slot root) {phase : AnchorPhase}
    (hnext : phase = .done ∨ phase = .recording slot root btcTxid) :
    AnchorInv Known interval { s with
      phase, published := s.published ++ [(btcTxid, anchorPayload slot root)] } := by
  obtain ⟨hroot, hdue⟩ := h.publishing slot root hphase
  have hold : ∀ {id : String} {n : Nat} {r : Blob 32}, Committed Known interval s id n r →
      Committed Known interval { s with
        phase, published := s.published ++ [(btcTxid, anchorPayload slot root)] } id n r :=
    fun hcommitted => hcommitted.mono hlast (.refl _) fun p hp => List.mem_append_left _ hp
  constructor
  · exact h.ledger
  · exact h.current
  · rintro n r rfl
    rcases hnext with hnext | hnext <;> cases hnext
  · rintro n r id rfl
    rcases hnext with hnext | hnext
    · cases hnext
    · cases hnext
      exact ⟨List.mem_append_right _ (List.mem_singleton_self _), hroot, hdue⟩
  · intro p hp
    rcases List.mem_append.mp hp with hp | hp
    · exact h.published p hp
    · rw [List.mem_singleton.mp hp]
      exact ⟨slot, root, rfl, hroot, hdue⟩
  · intro n rec hrec
    obtain ⟨hslot, hcommitted⟩ := h.records n rec hrec
    exact ⟨hslot, hold hcommitted⟩
  · exact h.tip
  · exact h.tipRecorded

/-- Where a record is written, the tip is the highest slot again. -/
theorem recordAnchor_tip (slot : Nat) (root : Blob 32) (btcTxid : String) {a : Anchors}
    (htip : ∀ slot rec, a.records.lookup slot = some rec → ∃ top, a.tip = some top ∧ slot ≤ top)
    (hrecorded : ∀ top, a.tip = some top → (a.records.lookup top).isSome) :
    (∀ n rec, (a.recordAnchor slot root btcTxid).records.lookup n = some rec →
      ∃ top, (a.recordAnchor slot root btcTxid).tip = some top ∧ n ≤ top) ∧
    ∀ top, (a.recordAnchor slot root btcTxid).tip = some top →
      ((a.recordAnchor slot root btcTxid).records.lookup top).isSome := by
  have hlookup : ∀ n, (a.recordAnchor slot root btcTxid).records.lookup n =
      if n = slot then some ⟨slot, root, btcTxid⟩ else a.records.lookup n := by
    intro n
    by_cases hn : n = slot
    · subst hn
      rw [if_pos rfl]
      exact Finmap.lookup_insert _
    · rw [if_neg hn]
      exact Finmap.lookup_insert_of_ne _ hn
  by_cases hle : a.tip.getD 0 ≤ slot
  · have hnew : (a.recordAnchor slot root btcTxid).tip = some slot := if_pos hle
    refine ⟨fun n rec hrec => ⟨slot, hnew, ?_⟩, fun top htop => ?_⟩
    · rw [hlookup] at hrec
      split at hrec
      · omega
      · obtain ⟨top, htop, hn⟩ := htip n rec hrec
        rw [htop, Option.getD_some] at hle
        omega
    · obtain rfl : slot = top := Option.some.inj (hnew.symm.trans htop)
      rw [hlookup, if_pos rfl]
      rfl
  · have hsame : (a.recordAnchor slot root btcTxid).tip = a.tip := if_neg hle
    obtain ⟨top, htop⟩ : ∃ top, a.tip = some top := by
      cases htop : a.tip with
      | none =>
        rw [htop] at hle
        exact absurd (Nat.zero_le _) hle
      | some top => exact ⟨top, rfl⟩
    rw [htop, Option.getD_some] at hle
    refine ⟨fun n rec hrec => ⟨top, hsame.trans htop, ?_⟩, fun top' htop' => ?_⟩
    · rw [hlookup] at hrec
      split at hrec
      · omega
      · obtain ⟨top', htop', hn⟩ := htip n rec hrec
        obtain rfl : top = top' := Option.some.inj (htop.symm.trans htop')
        exact hn
    · rw [hlookup]
      split
      · rfl
      · exact hrecorded top' (hsame.symm.trans htop')

/-- **The record.** -/
theorem AnchorInv.record (h : AnchorInv Known interval s)
    (hphase : s.phase = .recording slot root btcTxid) : AnchorInv Known interval { s with
      phase := .done, anchors := s.anchors.recordAnchor slot root btcTxid } := by
  obtain ⟨htip, hrecorded⟩ := recordAnchor_tip slot root btcTxid h.tip h.tipRecorded
  constructor
  · exact h.ledger
  · exact h.current
  · exact fun _ _ hdone => by cases hdone
  · exact fun _ _ _ hdone => by cases hdone
  · exact h.published
  · intro n rec hrec
    by_cases hn : n = slot
    · subst hn
      obtain rfl := Option.some.inj ((Finmap.lookup_insert _).symm.trans hrec)
      obtain ⟨hpublished, hblock, hdue⟩ := h.recording n root btcTxid hphase
      exact ⟨rfl, hpublished, hblock, hdue⟩
    · obtain ⟨hslot, hpublished, hblock, hdue⟩ :=
        h.records n rec ((Finmap.lookup_insert_of_ne _ hn).symm.trans hrec)
      exact ⟨hslot, hpublished, hblock, hdue⟩
  · exact htip
  · exact hrecorded

/-! ## Steps -/

variable {ex : Executor} {g : Gate} {boot : ElectionState} {indexer : Bool}

/-- Where neither of the two variables changes. -/
theorem AnchorInv.moved (hlast : Lasting Known) (h : AnchorInv Known interval s) {node : Sequencer}
    (hledger : LedgerInv node) (hext : Extends s.node.world.state node.world.state) :
    AnchorInv Known interval { s with node } :=
  h.node hlast hledger hext rfl rfl (fun slot root hc => hlast hext (h.current slot root hc))
    (fun _ _ hp => .inl hp) fun _ _ _ hp => hp

/-- What is known of the root of a block that the producer has just saved. -/
def KnowsSaved (ex : Executor) (Known : NodeState → Nat → Blob 32 → Prop) (node : Sequencer) :
    Prop :=
  ∀ ⦃now node' d⦄, node.produce ex now = some node' → node.producer = .executing d [] →
    Known node'.world.state d.slot node.world.state.computeStateRoot

/-- It is stored in the block. -/
theorem rooting_saved (node : Sequencer) : KnowsSaved ex Rooting node := by
  intro now node' d hstep hp
  unfold Sequencer.produce at hstep
  simp only [hp, Option.some.injEq] at hstep
  subst hstep
  exact ⟨_, Finmap.lookup_insert _, rfl⟩

/-- **A statement of the producer.** What is known when it has saved a block is known of the root
    that it goes on to publish. -/
theorem afterProduce_inv (hlast : Lasting Known) {node : Sequencer} {now : UInt64}
    (hsaved : KnowsSaved ex Known s.node) (h : AnchorInv Known interval s)
    (hstep : s.node.produce ex now = some node) :
    AnchorInv Known interval (s.afterProduce interval indexer node) := by
  obtain ⟨hledger, hext⟩ := produce_ledger h.ledger hstep
  unfold AnchoringNode.afterProduce
  split
  · rename_i d hp
    refine h.node hlast hledger hext rfl rfl (fun slot root hc => ?_) (fun _ _ hp => .inl hp)
      fun _ _ _ hp => hp
    obtain ⟨rfl, rfl⟩ := Prod.mk.inj (Option.some.inj hc)
    exact hsaved hstep hp
  · split
    · rename_i slot root hcurrent
      refine h.node hlast hledger hext rfl rfl (fun n r hc => hlast hext (h.current n r hc))
        (fun n r hp => ?_) fun n r id hp => ?_
      · dsimp only at hp
        split at hp
        · rename_i hdue
          cases hp
          simp only [AnchoringNode.due, Bool.and_eq_true, decide_eq_true_eq, beq_iff_eq] at hdue
          exact .inr ⟨h.current slot root hcurrent, hdue.1⟩
        · cases hp
      · dsimp only at hp
        split at hp <;> cases hp
    · exact h.moved hlast hledger hext
  · exact h.moved hlast hledger hext

/-- **Every statement** of the node, of the anchoring, and every crash. -/
theorem step_anchorInv (hlast : Lasting Known) {a : AnchorAction}
    (hsaved : KnowsSaved ex Known s.node) (h : AnchorInv Known interval s)
    (hstep : s.step ex g boot interval indexer a = some s') : AnchorInv Known interval s' := by
  cases a with
  | node i =>
    cases i with
    | crash =>
      simp only [AnchoringNode.step] at hstep
      obtain ⟨node, hnode, rfl⟩ := Option.map_eq_some_iff.mp hstep
      obtain ⟨hledger, hext⟩ := incident_ledger h.ledger hnode
      exact h.node hlast hledger hext rfl rfl (fun _ _ hc => by cases hc) (fun _ _ hp => by cases hp)
        fun _ _ _ hp => by cases hp
    | act a =>
      cases a with
      | produce now =>
        simp only [AnchoringNode.step] at hstep
        split at hstep
        · obtain ⟨node, hnode, rfl⟩ := Option.map_eq_some_iff.mp hstep
          exact afterProduce_inv hlast hsaved h hnode
        · cases hstep
      | submit tx | serve c | election c =>
        simp only [AnchoringNode.step] at hstep
        obtain ⟨node, hnode, rfl⟩ := Option.map_eq_some_iff.mp hstep
        obtain ⟨hledger, hext⟩ := incident_ledger h.ledger hnode
        exact h.moved hlast hledger hext
  | publish b =>
    simp only [AnchoringNode.step] at hstep
    split at hstep
    · rename_i slot root hphase
      obtain rfl := Option.some.inj hstep
      cases b with
      | refused =>
        exact h.node hlast h.ledger (.refl _) rfl rfl h.current (fun _ _ hp => by cases hp)
          fun _ _ _ hp => by cases hp
      | unanswered txid => exact h.publish hlast hphase (.inl rfl)
      | sent txid => exact h.publish hlast hphase (.inr rfl)
    · cases hstep
  | record =>
    simp only [AnchoringNode.step] at hstep
    split at hstep
    · rename_i slot root txid hphase
      obtain rfl := Option.some.inj hstep
      exact h.record hphase
    · cases hstep

end

/-! ## Runs -/

/-- **What is on Bitcoin is in the chain.** In every run of an anchoring node from one that has
    anchored nothing, crashed at whatever statements and whatever becomes of its broadcasts: every
    payload that was broadcast reads back as a slot that is due and the state root of the block
    that is stored there. The latest anchor is the record of the highest recorded slot, there is
    none exactly if nothing is recorded, and its transaction was broadcast with its root. -/
theorem anchors_hold (ex : Executor) (g : Gate) (boot : ElectionState) (interval : Nat)
    (indexer : Bool) (s₀ s : AnchoringNode) (actions : List AnchorAction)
    (hbooted : Booted s₀.node) (hfresh : s₀ = { node := s₀.node })
    (hrun : Lib.run (AnchoringNode.step ex g boot interval indexer) s₀ actions = some s)
    (hslot : s.node.world.state.slot < 2 ^ 64) :
    (∀ p ∈ s.published, ∃ slot root block, parseAnchorPayload p.2 = some (slot, root) ∧
      0 < interval ∧ slot % interval = 0 ∧
      s.node.world.state.blocks.lookup slot = some block ∧ block.stateRoot = root) ∧
    (s.anchors.latestAnchor = none ↔ s.anchors.records = ∅) ∧
    ∀ rec, s.anchors.latestAnchor = some rec →
      (rec.btcTxid, anchorPayload rec.slot rec.stateRoot) ∈ s.published ∧
      ∀ slot other, s.anchors.records.lookup slot = some other → slot ≤ rec.slot := by
  have hstart : AnchorInv Rooting interval s₀ := by
    rw [hfresh]
    exact ⟨hbooted.inv, by simp, by simp, by simp, by simp, by simp, by simp, by simp⟩
  have hinv : AnchorInv Rooting interval s :=
    run_keeps (fun _ _ _ hI h => step_anchorInv rooting_lasting (rooting_saved _) hI h) hstart hrun
  refine ⟨fun p hp => ?_, ⟨fun hnone => ?_, fun hempty => ?_⟩, fun rec hrec => ?_⟩
  · obtain ⟨slot, root, hpayload, ⟨block, hblock, hroot⟩, hpos, hmod⟩ := hinv.published p hp
    have hle : slot ≤ s.node.world.state.slot := by
      by_contra hgt
      rw [hinv.ledger.1.fresh slot (Nat.lt_of_not_le hgt)] at hblock
      cases hblock
    refine ⟨slot, root, block, ?_, hpos, hmod, hblock, hroot⟩
    rw [hpayload, parseAnchorPayload_anchorPayload root (by omega)]
  · refine Finmap.ext_lookup fun slot => ?_
    rw [Finmap.lookup_empty]
    by_contra hsome
    obtain ⟨rec, hrec⟩ := Option.ne_none_iff_exists'.mp hsome
    obtain ⟨top, htop, -⟩ := hinv.tip slot rec hrec
    have hfound := hinv.tipRecorded top htop
    rw [Anchors.latestAnchor, htop, Option.bind_some] at hnone
    rw [hnone] at hfound
    cases hfound
  · rw [Anchors.latestAnchor, hempty]
    cases s.anchors.tip <;> rfl
  · obtain ⟨top, htop, hlookup⟩ := Option.bind_eq_some_iff.mp hrec
    obtain ⟨hslot', hcommitted⟩ := hinv.records top rec hlookup
    subst hslot'
    refine ⟨hcommitted.published, fun slot other hother => ?_⟩
    obtain ⟨top', htop', hle⟩ := hinv.tip slot other hother
    obtain rfl := Option.some.inj (htop.symm.trans htop')
    exact hle

/-- A block is made and its root broadcast; the answer gets lost, and the node crashes. The next
    block is anchored and recorded. -/
def anchoredTwice : List AnchorAction :=
  (settledPayment ++ [Incident.act (.produce 0)]).map .node ++
    [.publish (.unanswered "a"), .node .crash] ++
    (sentBeforeCrash.dropLast ++ [Incident.act (.produce 0)]).map .node ++
    [.publish (.sent "b"), .record]

theorem anchors_hold_twice : ∃ s,
    Lib.run (AnchoringNode.step (.bare .dev) payingGate {} 1 true) { node := payingNode }
        anchoredTwice = some s ∧
      s.published.map Prod.fst = ["a", "b"] ∧
      (∀ p ∈ s.published, ∃ slot root block, parseAnchorPayload p.2 = some (slot, root) ∧
        0 < 1 ∧ slot % 1 = 0 ∧ s.node.world.state.blocks.lookup slot = some block ∧
        block.stateRoot = root) ∧
      s.anchors.latestAnchor.map (·.slot) = some 2 := by
  have hcheck : (Lib.run (AnchoringNode.step (.bare .dev) payingGate {} 1 true)
      { node := payingNode } anchoredTwice).any (fun s => s.node.world.state.slot = 2 ∧
        s.published.map Prod.fst = ["a", "b"] ∧ s.anchors.latestAnchor.map (·.slot) = some 2) =
      true := by
    decide +kernel
  obtain ⟨s, hrun, hthen⟩ := (Option.any_eq_true _ _).mp hcheck
  obtain ⟨hslot, hpublished, hlatest⟩ := of_decide_eq_true hthen
  have hhold := anchors_hold (.bare .dev) payingGate {} 1 true { node := payingNode } s _
    payingNode_booted rfl hrun (by omega)
  exact ⟨s, hrun, hpublished, hhold.1, hlatest⟩

end Proof
end Himsha
