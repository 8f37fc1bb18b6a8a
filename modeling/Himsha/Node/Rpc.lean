import Himsha.Node.Execution

/-!
# `send_transaction`

The RPC handler, check by check. The checks read the database one after the other, so each is a
function of the state it reads; how a call of them is interleaved with the rest of the node is in
`Node/Sequencer.lean`.
-/

set_option autoImplicit false

namespace Himsha
namespace Node

open Himsha.Lib Himsha.Runtime

/-- A JSON-RPC error object. -/
structure RpcError where
  code : Int
  message : String
deriving DecidableEq, Repr

def maxBlockhashAge : Nat := 150

/-- What the handler is configured with: the signature scheme and the network. -/
structure Gate where
  verify : Verifier
  chainId : UInt64

/-- Check 1: every declared signer signed the message hash. -/
def checkSignatures (g : Gate) (tx : RuntimeTransaction) : Except RpcError Unit :=
  if tx.verifySignatures g.verify then .ok ()
  else .error ⟨-32000, "invalid transaction signature"⟩

/-- Check 2: the chain id, and a blockhash that is still recent. -/
def checkReplayWindow (g : Gate) (s : NodeState) (tx : RuntimeTransaction) :
    Except RpcError Unit :=
  (tx.checkChainAndBlockhash g.chainId (s.recentBlockhashes maxBlockhashAge)).mapError
    fun reason => ⟨-32001, reason⟩

/-- Check 3, first half: not in a block already. -/
def checkIncluded (s : NodeState) (txid : Blob 32) : Except RpcError Unit :=
  if (s.txSlot txid).isSome then .error ⟨-32002, "duplicate transaction"⟩ else .ok ()

/-- Check 3, second half: not accepted already. One that failed may be sent again. -/
def checkStatus (s : NodeState) (txid : Blob 32) : Except RpcError Unit :=
  match s.getTxStatus txid with
  | some .pending | some (.succeeded _) => .error ⟨-32002, "transaction already submitted"⟩
  | _ => .ok ()

/-- All checks before the preflight, for a call that runs alone. -/
def checkTransaction (g : Gate) (s : NodeState) (tx : RuntimeTransaction) :
    Except RpcError Unit := do
  checkSignatures g tx
  checkReplayWindow g s tx
  checkIncluded s tx.messageHash
  checkStatus s tx.messageHash

theorem checkTransaction_signatures {g : Gate} {s : NodeState} {tx : RuntimeTransaction}
    (h : checkTransaction g s tx = .ok ()) : tx.verifySignatures g.verify = true := by
  unfold checkTransaction checkSignatures at h
  split at h
  · assumption
  · exact absurd h (by simp [bind, Except.bind])

end Node
end Himsha
