import Himsha.Node.Sequencer

/-!
# State roots on Bitcoin

When a block is indexed, the loop of `block_producer.rs` may go on to commit its state root to
Bitcoin: `anchor_state_root` of `bitcoin_indexer.rs` broadcasts a transaction with an `OP_RETURN`
output, and `record_anchor` of `state.rs` writes down what came of it. These are two more
statements of the producer, and a crash can come between them. The payload is here; how Bitcoin
Core funds, signs and relays the transaction is not, so what comes back from it is an input of the
step.
-/

set_option autoImplicit false

namespace Himsha
namespace Node

open Himsha.Lib Himsha.Runtime

/-- `ANCHOR_MAGIC`, which is `b"HMS1"`. -/
def anchorMagic : List UInt8 := [0x48, 0x4d, 0x53, 0x31]

/-- The `OP_RETURN` payload committing a state root: `magic ‖ slot_le ‖ root`. -/
def anchorPayload (slot : Nat) (root : Blob 32) : List UInt8 :=
  anchorMagic ++ leBytes 8 slot ++ root.bytes

/-- Parse an `OP_RETURN` payload back, if it is an anchor. -/
def parseAnchorPayload (payload : List UInt8) : Option (Nat × Blob 32) :=
  if h : payload.length = anchorMagic.length + 8 + 32 then
    if payload.take 4 = anchorMagic then
      some (leNat ((payload.drop 4).take 8), ⟨payload.drop 12, by
        rw [List.length_drop, h]
        rfl⟩)
    else none
  else none

namespace Anchors

structure AnchorRecord where
  slot : Nat
  stateRoot : Blob 32
  btcTxid : String
deriving DecidableEq

end Anchors

/-- The table of anchors, and the highest anchored slot under its key in `META`. -/
structure Anchors where
  records : Table Nat Anchors.AnchorRecord := ∅
  tip : Option Nat := none

namespace Anchors

/-- Record a state root committed to Bitcoin, in one commit of the database. -/
def recordAnchor (a : Anchors) (slot : Nat) (stateRoot : Blob 32) (btcTxid : String) : Anchors where
  records := a.records.insert slot ⟨slot, stateRoot, btcTxid⟩
  tip := if a.tip.getD 0 ≤ slot then some slot else a.tip

/-- The most recently anchored state root. -/
def latestAnchor (a : Anchors) : Option AnchorRecord := a.tip.bind a.records.lookup

end Anchors

/-- What becomes of a transaction that is to be broadcast. -/
inductive Broadcast where
  /-- Not funded, not signed, or refused. -/
  | refused
  /-- On the network, but the answer got lost. -/
  | unanswered (txid : String)
  | sent (txid : String)

/-- The statement of the loop after a block. -/
inductive AnchorPhase where
  | done
  /-- `anchor_state_root`. -/
  | publishing (slot : Nat) (stateRoot : Blob 32)
  /-- `record_anchor`. -/
  | recording (slot : Nat) (stateRoot : Blob 32) (btcTxid : String)

/-- A node that anchors. -/
structure AnchoringNode where
  node : Sequencer
  anchors : Anchors := {}
  /-- `slot` and `state_root` in the loop, once the block is saved. -/
  current : Option (Nat × Blob 32) := none
  phase : AnchorPhase := .done
  /-- What was broadcast, in order: the txids, and the payloads. -/
  published : List (String × List UInt8) := []

inductive AnchorAction where
  /-- A statement of the node, or a crash. -/
  | node (i : Incident)
  | publish (b : Broadcast)
  | record

namespace AnchoringNode

/-- The loop goes on to the anchor at every `interval`th slot, if there is an indexer. -/
def due (interval : Nat) (indexer : Bool) (slot : Nat) : Bool :=
  decide (0 < interval) && slot % interval == 0 && indexer

/-- A statement of the producer, seen from the two variables. -/
def afterProduce (interval : Nat) (indexer : Bool) (s : AnchoringNode) (node : Sequencer) :
    AnchoringNode :=
  match s.node.producer with
  | .executing d [] =>
      { s with node, current := some (d.slot, s.node.world.state.computeStateRoot) }
  | .indexing _ [] =>
      match s.current with
      | some (slot, stateRoot) =>
          { s with
            node
            phase := if due interval indexer slot then .publishing slot stateRoot else .done }
      | none => { s with node }
  | _ => { s with node }

def step (ex : Executor) (g : Gate) (boot : ElectionState) (interval : Nat) (indexer : Bool)
    (s : AnchoringNode) : AnchorAction → Option AnchoringNode
  | .node .crash => (s.node.incident ex g boot .crash).map fun node =>
      { s with node, current := none, phase := .done }
  | .node (.act (.produce now)) =>
      match s.phase with
      | .done => (s.node.incident ex g boot (.act (.produce now))).map
          (s.afterProduce interval indexer)
      | _ => none
  | .node i => (s.node.incident ex g boot i).map fun node => { s with node }
  | .publish b =>
      match s.phase with
      | .publishing slot stateRoot =>
          let payload := anchorPayload slot stateRoot
          some (match b with
            | .refused => { s with phase := .done }
            | .unanswered txid =>
                { s with phase := .done, published := s.published ++ [(txid, payload)] }
            | .sent txid =>
                { s with
                  phase := .recording slot stateRoot txid
                  published := s.published ++ [(txid, payload)] })
      | _ => none
  | .record =>
      match s.phase with
      | .recording slot stateRoot txid =>
          some { s with phase := .done, anchors := s.anchors.recordAnchor slot stateRoot txid }
      | _ => none

end AnchoringNode

/-! ## The payload -/

@[simp] theorem anchorMagic_length : anchorMagic.length = 4 := rfl

/-- **What is on Bitcoin can be read back.** The slot is a `u64`. -/
theorem parseAnchorPayload_anchorPayload {slot : Nat} (root : Blob 32) (h : slot < 2 ^ 64) :
    parseAnchorPayload (anchorPayload slot root) = some (slot, root) := by
  have hlen : (anchorPayload slot root).length = anchorMagic.length + 8 + 32 := by
    simp [anchorPayload, root.length_eq]
  have hslot : leNat (leBytes 8 slot) = slot := leNat_leBytes 8 slot (by simpa using h)
  have hroot : (anchorPayload slot root).drop 12 = root.bytes := by
    unfold anchorPayload
    exact List.drop_left' (by simp)
  have hmiddle : ((anchorPayload slot root).drop 4).take 8 = leBytes 8 slot := by
    unfold anchorPayload
    rw [List.append_assoc, List.drop_left' anchorMagic_length]
    exact List.take_left' (by simp)
  have hmagic : (anchorPayload slot root).take 4 = anchorMagic := by
    unfold anchorPayload
    rw [List.append_assoc]
    exact List.take_left' anchorMagic_length
  unfold parseAnchorPayload
  rw [dif_pos hlen, if_pos hmagic, hmiddle, hslot]
  exact congrArg some (Prod.ext rfl (Blob.ext hroot))

end Node
end Himsha
