import Mathlib.Logic.Function.Basic
import Himsha.Node.Follower
import Himsha.Node.Sequencer

/-!
# A primary and its followers

The primary works on its own, statement by statement; a follower polls it, one round at a time.
What a follower gets to see in a round is what the primary answers, request by request: a request
can fail, and the primary goes on between two of them.

When the primary is gone, a follower takes its place, between two of its rounds: `main` then starts
a producer on the replica. The followers poll the new primary from there on, and nobody polls the
old one.
-/

set_option autoImplicit false

namespace Himsha
namespace Node

open Himsha.Lib Himsha.Runtime

structure Network where
  primary : Sequencer
  /-- The followers, by a number. -/
  replicas : Nat → Replica

/-- What the process of a follower has in memory beside its replica, and the ids that the calls it
    has taken have marked. The queue is there from the start, and nobody reads it. -/
structure Standby where
  election : ElectionState := {}
  calls : List SendCall := []
  queue : List RuntimeTransaction := []
  pending : List (Blob 32) := []

def NodeState.markPending (s : NodeState) (txids : List (Blob 32)) : NodeState :=
  txids.foldl (fun s txid => s.setTxStatus txid .pending) s

/-- The process of a follower once its task is a producer. -/
def Sequencer.promoted (effects : List Effect) (r : Replica) (b : Standby) : Sequencer where
  world := { state := r.state.markPending b.pending, effects, poisoned := r.poisoned }
  election := b.election
  calls := b.calls
  queue := b.queue

inductive NetworkAction where
  /-- A statement of the primary, or its crash. -/
  | primary (i : Incident)
  /-- A round of a follower, with what it was answered. -/
  | poll (n : Nat) (p : Follower.Poll)
  /-- The primary is gone, and a follower is the primary. -/
  | promote (n : Nat) (b : Standby)

/-- The answers of a primary on which the database is `st` when the last of them is given: a block
    that is served is a stored one. The slot that is answered does not matter, nor do the requests
    that fail or come too early. -/
def Truthful (st : NodeState) (p : Follower.Poll) : Prop :=
  ∀ k block, p.block k = .ok (some block) → st.blocks.lookup k = some block

/-- A round in which every request is answered, and at once. -/
def Follower.Poll.of (st : NodeState) : Follower.Poll where
  target := .ok st.slot
  block := fun k => .ok (st.blocks.lookup k)

theorem truthful_of (st : NodeState) : Truthful st (.of st) := by
  intro k block h
  simpa [Follower.Poll.of] using h

/-- One step of the network. -/
def Network.step (ex : Executor) (g : Gate) (boot : ElectionState) (f : Follower) (net : Network) :
    NetworkAction → Option Network
  | .primary i => (net.primary.incident ex g boot i).map fun primary => { net with primary }
  | .poll n p => (f.poll (net.replicas n) p).map fun r =>
      { net with replicas := Function.update net.replicas n r }
  | .promote n b =>
      some { net with primary := .promoted net.primary.world.effects (net.replicas n) b }

end Node
end Himsha
