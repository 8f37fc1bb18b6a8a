import Himsha.Node.Electorate
import Himsha.Node.Rpc

/-!
# `block_producer.rs` — the producer, and the calls it runs beside

A node at work: `send_transaction` calls in flight, the queue that leads from them to the block
producer, the producer's loop, and election calls that arrive in between. Each party is cut at
its accesses to what they share. A step is one statement of one party, so a run is any
interleaving of them.

The store never fails here, and the anchoring on Bitcoin that may follow a block is left out: it
writes nothing the others read. Two things that do are left out as well. The faucet is off: with it
on, `request_airdrop` and `create_account_with_faucet` write accounts beside the blocks (`Faucet`
has the first). And no program is deployed while the node runs, so that the registry stays as it is.
`commits` is a history variable.
-/

set_option autoImplicit false

namespace Himsha
namespace Node

open Himsha.Lib Himsha.Runtime Himsha.Programs

/-- The statement a `send_transaction` call runs next. -/
inductive CallPhase where
  /-- Checks 1 and 2. -/
  | received
  /-- The read of `tx_slot`. -/
  | admitted
  /-- The read of `tx_status`. -/
  | unincluded
  /-- The preflight. -/
  | unsubmitted
  /-- The write of `Pending`. -/
  | preflighted
  /-- The send into the queue. -/
  | accepted
  | answered (reply : Except RpcError String)
  /-- The preflight panicked and took the call with it. -/
  | crashed

structure SendCall where
  tx : RuntimeTransaction
  phase : CallPhase := .received

/-- The block in the making. -/
structure Draft where
  slot : Nat
  timestamp : UInt64
  included : List RuntimeTransaction := []

/-- The statement the producer runs next. -/
inductive Producer where
  | sleeping
  | draining (batch : List RuntimeTransaction)
  | executing (draft : Draft) (todo : List RuntimeTransaction)
  /-- `apply` failed: the read of `mark_failed_unless_succeeded`. -/
  | failing (draft : Draft) (tx : RuntimeTransaction) (error : String)
      (todo : List RuntimeTransaction)
  /-- And its write. -/
  | recording (draft : Draft) (tx : RuntimeTransaction) (error : String)
      (todo : List RuntimeTransaction)
  /-- The block is saved: `index_transaction` for the rest of it. -/
  | indexing (slot : Nat) (todo : List RuntimeTransaction)
  /-- And `set_tx_status`. -/
  | marking (slot : Nat) (tx : RuntimeTransaction) (todo : List RuntimeTransaction)
  /-- A panic ended the task, and its end of the queue is closed. -/
  | stopped

/-- A transaction committed by the producer, and the place it has in its block. -/
structure Commit where
  txid : Blob 32
  slot : Nat
  position : Nat
deriving DecidableEq

structure Sequencer where
  world : World
  election : ElectionState := {}
  calls : List SendCall := []
  queue : List RuntimeTransaction := []
  producer : Producer := .sleeping
  commits : List Commit := []

inductive Action where
  /-- A `send_transaction` request arrives. -/
  | submit (tx : RuntimeTransaction)
  /-- A call runs its next statement. -/
  | serve (call : Nat)
  /-- The producer runs its next statement; the clock shows `now`. -/
  | produce (now : UInt64)
  /-- A call on the election state. -/
  | election (call : Call)

/-- `mpsc::channel(4096)`. -/
def queueCapacity : Nat := 4096

/-- The election calls of a node that produces. A candidacy and `become_leader` belong to the
    standby loop, which has ended by then. -/
def ElectionState.handle (e : ElectionState) : Call → Option ElectionState
  | .considerVote term candidate => some (e.considerVote term candidate).1
  | .considerPreVote _ => some e
  | .observeTerm term => some (e.observeTerm term)
  | .observeLeader term leader => some (e.observeLeader term leader)
  | .startCandidacy | .becomeLeader => none

/-- The producer's loop over a batch, with nothing in between: what it leaves, and the
    transactions that get into the block. `none` is a panic, which ends the task. -/
def applyBatch (ex : Executor) (slot : Nat) :
    World → List RuntimeTransaction → Option (World × List RuntimeTransaction)
  | w, [] => some (w, [])
  | w, tx :: rest =>
      match ex.apply w tx .commit with
      | (.ok (), r) =>
          (applyBatch ex slot r.toWorld rest).map fun (w, included) => (w, tx :: included)
      | (.error (.error e), r) =>
          let state := r.state.markFailedUnlessSucceeded tx.messageHash slot e.message
          applyBatch ex slot { r.toWorld with state } rest
      | (.error .panic, _) => none

namespace Sequencer

/-- A write to the database. -/
def onState (s : Sequencer) (f : NodeState → NodeState) : Sequencer :=
  { s with world := { s.world with state := f s.world.state } }

/-- Where a call goes after a check. -/
def afterCheck (check : Except RpcError Unit) (next : CallPhase) : CallPhase :=
  match check with
  | .ok () => next
  | .error e => .answered (.error e)

/-- Where a call goes after its preflight. -/
def afterPreflight : Except ExecFault Unit → CallPhase
  | .ok () => .preflighted
  | .error (.error e) => .answered (.error ⟨e.code, e.message⟩)
  | .error .panic => .crashed

/-- The send into the queue waits for room; on a closed queue it fails, which is ignored. -/
def enqueue (s : Sequencer) (tx : RuntimeTransaction) : Option Sequencer :=
  match s.producer with
  | .stopped => some s
  | _ => if s.queue.length < queueCapacity then some { s with queue := s.queue ++ [tx] } else none

/-- The next statement of a call: what it leaves of the node, and where the call goes. -/
def serve (ex : Executor) (g : Gate) (s : Sequencer) (c : SendCall) :
    Option (Sequencer × CallPhase) :=
  let txid := c.tx.messageHash
  match c.phase with
  | .received =>
      let check := do
        checkSignatures g c.tx
        checkReplayWindow g s.world.state c.tx
      some (s, afterCheck check .admitted)
  | .admitted => some (s, afterCheck (checkIncluded s.world.state txid) .unincluded)
  | .unincluded => some (s, afterCheck (checkStatus s.world.state txid) .unsubmitted)
  | .unsubmitted =>
      let (result, r) := ex.apply s.world c.tx .preflight
      some ({ s with world := r.toWorld }, afterPreflight result)
  | .preflighted => some (s.onState (·.setTxStatus txid .pending), .accepted)
  | .accepted =>
      (s.enqueue c.tx).map fun s => (s, .answered (.ok (Lending.hexEncode txid.bytes)))
  | .answered _ | .crashed => none

/-- Execute the next transaction of the batch. -/
def execute (ex : Executor) (s : Sequencer) (d : Draft) (tx : RuntimeTransaction)
    (todo : List RuntimeTransaction) : Sequencer :=
  let (result, r) := ex.apply s.world tx .commit
  let s := { s with world := r.toWorld }
  match result with
  | .ok () =>
      { s with
        producer := .executing { d with included := d.included ++ [tx] } todo
        commits := s.commits ++ [⟨tx.messageHash, d.slot, d.included.length⟩] }
  | .error (.error e) => { s with producer := .failing d tx e.message todo }
  | .error .panic => { s with producer := .stopped, queue := [] }

/-- The next statement of the producer. -/
def produce (ex : Executor) (s : Sequencer) (now : UInt64) : Option Sequencer :=
  match s.producer with
  | .sleeping => some { s with producer := .draining [] }
  | .draining batch =>
      match s.queue with
      | tx :: queue => some { s with queue, producer := .draining (batch ++ [tx]) }
      | [] =>
          if batch.isEmpty then some { s with producer := .sleeping }
          else
            let (slot, state) := s.world.state.advanceSlot
            some { s.onState fun _ => state with
              producer := .executing { slot, timestamp := now } batch }
  | .executing d (tx :: todo) => some (execute ex s d tx todo)
  | .executing d [] =>
      let stateRoot := s.world.state.computeStateRoot
      let block := Block.newWithRoot d.slot (d.slot - 1) d.included d.timestamp stateRoot
      some { s.onState (·.saveBlock d.slot block) with producer := .indexing d.slot d.included }
  | .failing d tx error todo =>
      if s.world.state.hasSucceeded tx.messageHash then
        some { s with producer := .executing d todo }
      else some { s with producer := .recording d tx error todo }
  | .recording d tx error todo =>
      some { s.onState (·.setTxStatus tx.messageHash (.failed d.slot error)) with
        producer := .executing d todo }
  | .indexing slot (tx :: todo) =>
      some { s.onState (·.indexTransaction tx.messageHash slot) with
        producer := .marking slot tx todo }
  | .indexing _ [] => some { s with producer := .sleeping }
  | .marking slot tx todo =>
      some { s.onState (·.setTxStatus tx.messageHash (.succeeded slot)) with
        producer := .indexing slot todo }
  | .stopped => none

def step (ex : Executor) (g : Gate) (s : Sequencer) : Action → Option Sequencer
  | .submit tx => some { s with calls := s.calls ++ [{ tx }] }
  | .serve i => do
      let c ← s.calls[i]?
      let (s, phase) ← s.serve ex g c
      some { s with calls := s.calls.set i { c with phase } }
  | .produce now => s.produce ex now
  | .election c => (s.election.handle c).map fun election => { s with election }

/-- A new process on the database of one that is gone. Calls, the queue, the block in the making
    and the poison of the lock were in memory; `boot` is the election state it starts with. -/
def reopened (boot : ElectionState) (s : Sequencer) : Sequencer where
  world := { s.world with poisoned := false }
  election := boot
  commits := s.commits

end Sequencer

/-- A statement of a running node, or the crash of its process between two statements. -/
inductive Incident where
  | act (a : Action)
  | crash

def Sequencer.incident (ex : Executor) (g : Gate) (boot : ElectionState) (s : Sequencer) :
    Incident → Option Sequencer
  | .act a => s.step ex g a
  | .crash => some (s.reopened boot)

end Node
end Himsha
