import Himsha.Node.Execution

/-!
# `bitcoin_indexer.rs`

What the node reports about Bitcoin outputs, how it spends one, and how it follows the mempool.
Transaction ids are a type of the `bitcoin` crate and the answers come from a Bitcoin node, so both
are parameters: `TxidApi` and `BitcoinRpc`, and for the sync loop, which asks again and again, the
answers of each `Tick`. A call of either that fails is `outside`.
-/

set_option autoImplicit false

namespace Himsha
namespace Node

open Himsha.Lib Himsha.Runtime Himsha.Programs

/-- `bitcoin::Txid`: the internal bytes, and the text of an id. -/
structure TxidApi (Txid : Type) where
  asRef : Txid → Blob 32
  fromStr : String → Option Txid
  display : Txid → String

/-- As the crate documents it: an id is written as the hex digits of its bytes in reverse, and it is
    read from these. -/
structure TxidApi.ReversedHex {Txid : Type} (api : TxidApi Txid) : Prop where
  display : ∀ t, api.display t = Lending.hexEncode (api.asRef t).bytes.reverse
  fromStr : ∀ text t, api.fromStr text = some t ↔
    hexDecode text.toList = some (api.asRef t).bytes.reverse

/-- An output as `gettxout` returns it. -/
structure TxOut where
  value : UInt64
  scriptPubKey : List UInt8
  confirmations : UInt32

/-- An entry of `listunspent`. -/
structure Unspent (Txid : Type) where
  txid : Txid
  vout : UInt32
  amount : UInt64
  scriptPubKey : List UInt8
  confirmations : UInt32

/-- The calls of a Bitcoin node that the indexer makes. An address is its text. -/
structure BitcoinRpc (Txid : Type) where
  getTxOut : Txid → UInt32 → Option (Option TxOut)
  listUnspent : String → Option (List (Unspent Txid))
  sendToAddress : String → UInt64 → Option Txid
  createRawTransaction : List (Txid × UInt32) → List (String × UInt64) → Option (List UInt8)
  /-- Whether the signature is complete, and the transaction. -/
  signRawTransactionWithWallet : List UInt8 → Option (Bool × List UInt8)
  sendRawTransaction : List UInt8 → Option Txid

/-- An `anyhow` error of the indexer, or one of what it calls. -/
inductive IndexerError where
  | message (text : String)
  | outside
deriving DecidableEq

/-- Full UTXO data returned by the Bitcoin indexer. -/
structure UtxoInfo where
  utxoMeta : UtxoMeta
  value : UInt64
  scriptPubkey : String
  confirmations : UInt32

structure BitcoinIndexer (Txid : Type) where
  api : TxidApi Txid
  rpc : BitcoinRpc Txid
  /-- `Address::from_str` and `require_network`. -/
  address : String → Option String

namespace BitcoinIndexer

variable {Txid : Type} (ix : BitcoinIndexer Txid)

/-- `?` on a call that is not the indexer's. -/
def called {α : Type} (answer : Option α) : Except IndexerError α :=
  match answer with
  | some a => .ok a
  | none => .error .outside

def txidToBytes (txid : Txid) : Blob 32 := ix.api.asRef txid

def getUtxo (txid : String) (vout : UInt32) : Except IndexerError (Option UtxoInfo) := do
  let txidParsed ← called (ix.api.fromStr txid)
  let txOut ← called (ix.rpc.getTxOut txidParsed vout)
  return txOut.map fun o =>
    { utxoMeta := { txid := ix.txidToBytes txidParsed, vout }
      value := o.value
      scriptPubkey := Lending.hexEncode o.scriptPubKey
      confirmations := o.confirmations }

def listAddressUtxos (address : String) : Except IndexerError (List UtxoInfo) := do
  let addr ← called (ix.address address)
  let unspent ← called (ix.rpc.listUnspent addr)
  return unspent.map fun u =>
    { utxoMeta := { txid := ix.txidToBytes u.txid, vout := u.vout }
      value := u.amount
      scriptPubkey := Lending.hexEncode u.scriptPubKey
      confirmations := u.confirmations }

def broadcast (rawTxHex : String) : Except IndexerError String := do
  let raw ← called (hexDecode rawTxHex.toList)
  let txid ← called (ix.rpc.sendRawTransaction raw)
  return ix.api.display txid

def notFound (txid : String) (vout : UInt32) : IndexerError :=
  .message ("utxo " ++ txid ++ ":" ++ toString vout ++ " not found or already spent")

/-- `ok_or_else`. -/
def orElse {α : Type} (e : IndexerError) : Option α → Except IndexerError α
  | some a => .ok a
  | none => .error e

def sendPayment (recipient : String) (sats : UInt64) : Except IndexerError String := do
  let addr ← called (ix.address recipient)
  let txid ← called (ix.rpc.sendToAddress addr sats)
  return ix.api.display txid

def transferUtxo (txid : String) (vout : UInt32) (recipient : String) :
    Except IndexerError String := do
  let txidParsed ← called (ix.api.fromStr txid)
  let addr ← called (ix.address recipient)
  let out ← orElse (notFound txid vout) (← called (ix.rpc.getTxOut txidParsed vout))
  let send ← orElse (.message
    ("utxo value " ++ toString out.value ++ " below fee " ++ toString feeSats))
    (checkedSub out.value feeSats)
  let raw ← called (ix.rpc.createRawTransaction [(txidParsed, vout)] [(addr, send)])
  let (complete, signed) ← called (ix.rpc.signRawTransactionWithWallet raw)
  if !complete then
    throw (.message "wallet could not fully sign the utxo transfer")
  let txid ← called (ix.rpc.sendRawTransaction signed)
  return ix.api.display txid

/-- `settle_with_committee`: the key-spend of one output, with what the committee makes of it. -/
def settleWithCommittee (sign : Txid × UInt32 → UInt64 → String × UInt64 → Option String)
    (utxoTxid : String) (vout : UInt32) (inValue : UInt64) (recipient : String) (fee : UInt64) :
    Except IndexerError String := do
  let txid ← called (ix.api.fromStr utxoTxid)
  let send ← orElse (.message
    ("value " ++ toString inValue ++ " below fee " ++ toString fee)) (checkedSub inValue fee)
  let addr ← called (ix.address recipient)
  called (sign (txid, vout) inValue (addr, send))

def transferUtxoCommittee (sign : Txid × UInt32 → UInt64 → String × UInt64 → Option String)
    (txid : String) (vout : UInt32) (recipient : String) : Except IndexerError String := do
  let info ← orElse (notFound txid vout) (← ix.getUtxo txid vout)
  let signedHex ← ix.settleWithCommittee sign txid vout info.value recipient feeSats
  ix.broadcast signedHex

/-- An on-chain call. An invoice is not the indexer's. -/
def perform (sign : Txid × UInt32 → UInt64 → String × UInt64 → Option String) :
    Effect → Except IndexerError String
  | .payInvoice _ => .error .outside
  | .sendPayment recipient sats => ix.sendPayment recipient sats
  | .transferUtxo txid vout recipient => ix.transferUtxo txid vout recipient
  | .transferUtxoCommittee txid vout recipient =>
      ix.transferUtxoCommittee sign txid vout recipient

/-! ## Auto-sync -/

/-- Real-time mempool event emitted to subscribers. -/
inductive MempoolEvent where
  | seen (txid : String)
  | confirmed (txid : String) (blockHeight : UInt64)
  | evicted (txid : String)
deriving DecidableEq

/-- A `HashSet<String>`, in the order that its iterator takes. -/
structure TextSet where
  texts : List String
  nodup : texts.Nodup

/-- `a.difference(&b)`, in the order of `a`. -/
def TextSet.difference (a b : TextSet) : List String := a.texts.filter (· ∉ b.texts)

/-- `collect` into a hash set, whose order is the hasher's. -/
structure Collector where
  collect : List String → TextSet
  mem_collect : ∀ texts x, x ∈ (collect texts).texts ↔ x ∈ texts

/-- What one tick meets: the answers of the Bitcoin node, and the order of the set that it makes. -/
structure Tick (Txid : Type) where
  getBlockCount : Option UInt64
  getRawMempool : Option (List Txid)
  hash : Collector

/-- What `run_sync_blocking` keeps from tick to tick. -/
structure Sync where
  lastHeight : UInt64
  seen : TextSet

def Sync.initial : Sync := ⟨0, [], .nil⟩

/-- What a tick returns, what it leaves, and what it has sent. -/
structure Polled where
  result : Except IndexerError Unit
  sync : Sync
  sent : List MempoolEvent

section
variable (api : TxidApi Txid)

/-- The height is stored before the mempool is asked for, and a tick that ends there keeps it. -/
def pollOnce (tick : Tick Txid) (s : Sync) : Polled :=
  match called tick.getBlockCount with
  | .error e => ⟨.error e, s, []⟩
  | .ok height =>
    let advanced := height > s.lastHeight
    let s := if advanced then { s with lastHeight := height } else s
    match called tick.getRawMempool with
    | .error e => ⟨.error e, s, []⟩
    | .ok txids =>
      let current := tick.hash.collect (txids.map api.display)
      ⟨.ok (), { s with seen := current },
        (current.difference s.seen).map .seen ++
          (s.seen.difference current).map fun txid =>
            if advanced then .confirmed txid height else .evicted txid⟩

/-- `run_sync_blocking` after some ticks: an error is logged and the loop goes on. -/
def syncAfter (s : Sync) (ticks : List (Tick Txid)) : Sync :=
  ticks.foldl (fun s tick => (pollOnce api tick s).sync) s

/-- The events that ticks send, one tick after the other. -/
def sentFrom (s : Sync) : List (Tick Txid) → List MempoolEvent
  | [] => []
  | tick :: ticks => (pollOnce api tick s).sent ++ sentFrom (pollOnce api tick s).sync ticks

end

end BitcoinIndexer

end Node
end Himsha
