import Himsha.Node.State
import Himsha.Vm.Executor

/-!
# `execution.rs`

The one code path that runs a transaction. Instructions run in order against an overlay, so a later
one sees what an earlier one wrote; a commit persists the overlay at once. Lending settlements are
made while the transaction runs, before it is known whether it will commit.

Calls of the Bitcoin and Lightning clients are effects: they are logged, and what comes back is
given by `Outside`. Not every call pays: the Bitcoin client reads the recipient's address and looks
an output up before it asks for a payment (`Outside.sends`). A program that panics does so with the
registry locked, so from then on every attempt to take that lock panics too; `poisoned` is that
flag.

`handed` and `executed` are history variables: what each program was given, and what it gave back
with the overlay right after. Nothing reads them but statements.
-/

set_option autoImplicit false

namespace Himsha
namespace Node

open Himsha.Lib Himsha.Runtime Himsha.Programs Himsha.Vm

/-- Whether execution persists its effects or is a dry run. -/
inductive Mode where
  | preflight
  | commit
deriving DecidableEq, Repr

/-- An execution failure: a JSON-RPC error code and a message. -/
structure ExecError where
  code : Int
  message : String
deriving DecidableEq, Repr

/-- A call that does not return `Ok`: an error, or a panic that unwinds through it. -/
inductive ExecFault where
  | error (e : ExecError)
  | panic
deriving DecidableEq, Repr

/-- A call of a client that settles a loan. -/
inductive Effect where
  | payInvoice (recipient : String)
  | sendPayment (recipient : String) (sats : UInt64)
  | transferUtxo (txid : String) (vout : UInt32) (recipient : String)
  | transferUtxoCommittee (txid : String) (vout : UInt32) (recipient : String)
deriving DecidableEq, Repr

/-- What is configured outside the node, and how it answers. What is found on Bitcoin may depend on
    the payments made before, and what a payment comes to on the calls before it. -/
structure Outside where
  lightning : Bool
  bitcoin : Bool
  custody : Bool
  /-- `Address::from_str` and `require_network`: the text is an address of the network. -/
  address : String → Bool
  /-- `get_tx_out`: what an output is worth that is found unspent. -/
  txOut : List Effect → String → UInt32 → Option UInt64
  /-- The transfer is built and signed, by the wallet or by the committee. -/
  signs : List Effect → Effect → Bool
  /-- The text that a payment returns, or `none` for a failure. -/
  reply : List Effect → Effect → Option String

/-- What outlives a call of `apply`. -/
structure World where
  state : NodeState := {}
  /-- Settlement calls made so far. `Outside.paid` are those that paid. -/
  effects : List Effect := []
  /-- A program panicked while the registry was locked. -/
  poisoned : Bool := false

/-- A system-owned account that holds lamports and no data. -/
def wallet (lamports : UInt64) : StoredAccount :=
  ⟨lamports, [], ProgramIds.systemProgram, false, none, none⟩

/-- A fresh node with some wallets. -/
def World.funded (balances : List (Pubkey × UInt64)) : World where
  state :=
    { accounts := (∅ : Accounts).write (balances.map fun (k, n) => (k, wallet n))
      blocks := (∅ : Table Nat Block).insert 0 .genesis }

/-- A first-block transaction of some signers, with placeholders for their signatures. -/
def signedBy (signers : List Pubkey) (instructions : List Instruction) : RuntimeTransaction where
  version := 0
  signatures := signers.map fun _ => .zero 64
  message :=
    { signers
      instructions
      recentBlockhash := Block.genesis.blockhash
      chainId := 4
      timestamp := 0 }

/-- One instruction that ran: what it was given, what came out of it, and the overlay after. -/
structure Executed where
  instr : Instruction
  accounts : List AccountInfo
  updated : List AccountInfo
  overlay : AList fun _ : Pubkey => StoredAccount

/-- A running `apply`. -/
structure Running extends World where
  overlay : AList fun _ : Pubkey => StoredAccount := ∅
  handed : List (Instruction × List AccountInfo) := []
  executed : List Executed := []

abbrev Apply := Comp ExecFault Running

structure Executor where
  machine : Machine
  outside : Outside

/-! ## Settlement -/

/-- The characters that `trim` removes. -/
def isWhitespace (c : Char) : Bool :=
  let n := c.toNat
  (9 ≤ n && n ≤ 13) || (0x2000 ≤ n && n ≤ 0x200A) ||
    [0x20, 0x85, 0xA0, 0x1680, 0x2028, 0x2029, 0x202F, 0x205F, 0x3000].contains n

/-- BOLT-11 invoices start with an `ln` prefix. -/
def isInvoice (recipient : String) : Bool :=
  let front := recipient.toList.dropWhile isWhitespace
  let trimmed := (front.reverse.dropWhile isWhitespace).reverse
  let r := trimmed.map Char.toLower
  ["lnbc", "lntb", "lnbcrt", "lnsb"].any fun hrp => hrp.toList.isPrefixOf r

def hexValue (c : Char) : Option Nat :=
  let n := c.toNat
  if 48 ≤ n ∧ n ≤ 57 then some (n - 48)
  else if 97 ≤ n ∧ n ≤ 102 then some (n - 87)
  else if 65 ≤ n ∧ n ≤ 70 then some (n - 55)
  else none

/-- `hex::decode`. -/
def hexDecode : List Char → Option (List UInt8)
  | [] => some []
  | [_] => none
  | hi :: lo :: rest => do
      let byte := UInt8.ofNat (16 * (← hexValue hi) + (← hexValue lo))
      return byte :: (← hexDecode rest)

theorem hexEncode_cons (b : UInt8) (bytes : List UInt8) :
    (Lending.hexEncode (b :: bytes)).toList = Nat.digitChar (b.toNat / 16) ::
      Nat.digitChar (b.toNat % 16) :: (Lending.hexEncode bytes).toList := by
  unfold Lending.hexEncode
  rw [String.toList_ofList, String.toList_ofList]
  rfl

/-- The two digits of a byte. -/
def high (b : UInt8) : Fin 16 := ⟨b.toNat / 16, Nat.div_lt_of_lt_mul b.toNat_lt⟩

def low (b : UInt8) : Fin 16 := ⟨b.toNat % 16, Nat.mod_lt _ (by decide)⟩

theorem high_low (b : UInt8) : 16 * (high b).val + (low b).val = b.toNat := Nat.div_add_mod _ _

theorem hexValue_digit (d : Fin 16) : hexValue (Nat.digitChar d) = some d.val := by
  revert d
  decide

/-- What `hex::encode` writes, `hex::decode` reads. -/
theorem hexDecode_hexEncode (bytes : List UInt8) :
    hexDecode (Lending.hexEncode bytes).toList = some bytes := by
  induction bytes with
  | nil => rfl
  | cons b bytes ih =>
    have hhigh : hexValue (Nat.digitChar (b.toNat / 16)) = some (high b).val :=
      hexValue_digit (high b)
    have hlow : hexValue (Nat.digitChar (b.toNat % 16)) = some (low b).val :=
      hexValue_digit (low b)
    have hbyte : UInt8.ofNat (16 * (high b).val + (low b).val) = b := by
      rw [high_low]
      exact UInt8.ofNat_toNat
    rw [hexEncode_cons, hexDecode, hhigh, hlow, ih]
    change some (UInt8.ofNat (16 * (high b).val + (low b).val) :: bytes) = some (b :: bytes)
    rw [hbyte]

/-- The 32 bytes that a returned transaction id stands for. -/
def parseTxid (text : String) : Option (Blob 32) := do
  let raw ← hexDecode text.toList
  if h : raw.length = 32 then some ⟨raw, h⟩ else none

theorem parseTxid_hexEncode (txid : Blob 32) :
    parseTxid (Lending.hexEncode txid.bytes) = some txid := by
  unfold parseTxid
  rw [hexDecode_hexEncode]
  exact dif_pos txid.length_eq

/-- The on-chain call for a settlement. -/
def settlementCall (custody : Bool) (s : Lending.Settlement) : Effect :=
  match s.kind with
  | .repayment => .sendPayment s.recipient s.amount
  | .returnInscription | .seizeInscription =>
      let txid := Lending.hexEncode s.utxo.txid.bytes
      if custody then .transferUtxoCommittee txid s.utxo.vout s.recipient
      else .transferUtxo txid s.utxo.vout s.recipient

/-- The flat fee of a transfer. -/
def feeSats : UInt64 := 500

namespace Outside

/-- Whether a call gets as far as what pays. `pay_invoice` posts the invoice as it is.
    `send_payment` reads the address first; `transfer_utxo` and `transfer_utxo_committee` read the
    id and the address, look the output up and take the fee, and have the transfer signed. -/
def sends (o : Outside) (past : List Effect) (call : Effect) : Bool :=
  match call with
  | .payInvoice _ => true
  | .sendPayment recipient _ => o.address recipient
  | .transferUtxo txid vout recipient | .transferUtxoCommittee txid vout recipient =>
      (parseTxid txid).isSome && o.address recipient &&
        ((o.txOut past txid vout).bind (checkedSub · feeSats)).isSome && o.signs past call

/-- The payments after some calls. -/
def paidAfter (o : Outside) (past : List Effect) (calls : List Effect) : List Effect :=
  calls.foldl (fun past call => if o.sends past call then past ++ [call] else past) past

/-- The calls that paid. -/
def paid (o : Outside) (calls : List Effect) : List Effect := o.paidAfter [] calls

/-- What a call returns, given the calls before it: nothing where it fails before it pays. -/
def answer (o : Outside) (calls : List Effect) (call : Effect) : Option String :=
  if o.sends (o.paid calls) call then o.reply calls call else none

end Outside

/-- Settle one directive. A failure is logged and dropped. -/
def settleOne (o : Outside) (himshaTxid : Blob 32) (w : World) (s : Lending.Settlement) : World :=
  if s.kind = .repayment ∧ isInvoice s.recipient = true then
    if o.lightning then { w with effects := w.effects ++ [.payInvoice s.recipient] } else w
  else if o.bitcoin then
    let call := settlementCall o.custody s
    let w' := { w with effects := w.effects ++ [call] }
    match (o.answer w.effects call).bind parseTxid with
    | some btc => { w' with state := w'.state.indexBtcSettlement btc himshaTxid }
    | none => w'
  else w

/-- Drain the settlements of one account. A failed write leaves its data as it was. -/
def settleAccount (o : Outside) (himshaTxid : Blob 32) (w : World) (account : AccountInfo) :
    World × AccountInfo :=
  match tryFromSlice (α := Lending.CollectionAccount) account.data with
  | none => (w, account)
  | some coll =>
      if coll.pendingSettlements.isEmpty then (w, account)
      else
        let (settlements, coll) := Lending.takeSettlements coll
        let w := settlements.foldl (settleOne o himshaTxid) w
        match account.writeData coll with
        | .ok account => (w, account)
        | .error _ => (w, account)

/-- Drain the lending program's queued settlements, account by account. -/
def settleLending (o : Outside) (himshaTxid : Blob 32) :
    World → List AccountInfo → World × List AccountInfo
  | w, [] => (w, [])
  | w, account :: rest =>
      let (w, account) := settleAccount o himshaTxid w account
      let (w, rest) := settleLending o himshaTxid w rest
      (w, account :: rest)

/-! ## `Executor::apply` -/

namespace Executor

/-- The account an instruction sees: the overlay first, then committed state, else a fresh one
    owned by the program. Signer and writable flags come from the instruction. -/
def materialise (r : Running) (programId : Pubkey) (am : AccountMeta) : AccountInfo :=
  let account := match r.overlay.lookup am.pubkey with
    | some stored => stored.intoAccount am.pubkey
    | none => match r.state.loadAccount am.pubkey with
      | some stored => stored.intoAccount am.pubkey
      | none => AccountInfo.new am.pubkey programId 0 0
  { account with isSigner := am.isSigner, isWritable := am.isWritable }

/-- Carry every slot of a result forward, in slot order. -/
def carry (overlay : AList fun _ : Pubkey => StoredAccount) (updated : List AccountInfo) :
    AList fun _ : Pubkey => StoredAccount :=
  updated.foldl (fun overlay a => overlay.insert a.key a.toStored) overlay

def programFault (e : Fault) : ExecFault :=
  match e with
  | .err e => .error ⟨-32002, e.message⟩
  | .panic => .panic

/-- Lock the registry and run the program. -/
def runProgram (ex : Executor) (tx : RuntimeTransaction) (instr : Instruction)
    (accounts : List AccountInfo) : Apply StateTransition := do
  Comp.ensure (!(← get).poisoned) .panic
  modify fun r => { r with handed := r.handed ++ [(instr, accounts)] }
  let input : ExecutionInput :=
    { accounts, instructionData := instr.data, timestamp := tx.message.timestamp }
  match executeProgram ex.machine instr.programId input [] with
  | .ok transition => return transition
  | .error (.node e) => throw (.error ⟨-32002, e.message⟩)
  | .error .panic =>
      modify fun r => { r with poisoned := true }
      throw .panic

/-- Settle what a lending instruction queued, on a commit. -/
def settled (ex : Executor) (mode : Mode) (tx : RuntimeTransaction) (instr : Instruction)
    (w : World) (updated : List AccountInfo) : World × List AccountInfo :=
  if mode = .commit ∧ instr.programId = ProgramIds.lendingProgram then
    settleLending ex.outside tx.messageHash w updated
  else (w, updated)

/-- One round of the loop over the instructions. -/
def applyInstruction (ex : Executor) (mode : Mode) (tx : RuntimeTransaction)
    (instr : Instruction) : Apply Unit := do
  let accounts := instr.accounts.map (materialise (← get) instr.programId)
  Comp.ofExcept ((rejectDuplicateWritable accounts).mapError programFault)
  let transition ← runProgram ex tx instr accounts
  Comp.ofExcept (transition.verify.mapError fun reason =>
    .error ⟨-32004, "invalid execution receipt: " ++ reason⟩)
  let r : Running ← get
  let (w, updated) := settled ex mode tx instr r.toWorld transition.updatedAccounts
  let overlay := carry r.overlay updated
  set { r with
    toWorld := w
    overlay
    executed := r.executed ++ [Executed.mk instr accounts updated overlay] }

def applyInstructions (ex : Executor) (mode : Mode) (tx : RuntimeTransaction) :
    List Instruction → Apply Unit
  | [] => return ()
  | instr :: rest => do
      applyInstruction ex mode tx instr
      applyInstructions ex mode tx rest

/-- Persist the overlay. -/
def persist : Apply Unit := do
  let r ← get
  match r.state.saveAccountsAtomic (r.overlay.entries.map fun e => (e.1, e.2)) with
  | some state => set { r with state }
  | none => throw (.error ⟨-32001, "invalid data"⟩)

/-- Execute every instruction of `tx` in order. -/
def run (ex : Executor) (tx : RuntimeTransaction) (mode : Mode) : Apply Unit := do
  applyInstructions ex mode tx tx.message.instructions
  if mode = .commit then persist

/-- `Executor::apply`: the result, and everything the call left behind. -/
def apply (ex : Executor) (w : World) (tx : RuntimeTransaction) (mode : Mode) :
    Except ExecFault Unit × Running :=
  Comp.exec (run ex tx mode) { toWorld := w }

/-- A node with the built-ins only: nothing deployed, and nothing configured outside. -/
def bare (π : Profile) : Executor where
  machine :=
    { profile := π
      hasher := .sorted
      registry := fun _ => none
      prove := fun _ _ _ => .error "" }
  outside :=
    { lightning := false
      bitcoin := false
      custody := false
      address := fun _ => false
      txOut := fun _ _ _ => none
      signs := fun _ _ => false
      reply := fun _ _ => none }

/-! ## What a successful round did -/

section
variable {ex : Executor} {mode : Mode} {tx : RuntimeTransaction} {instr : Instruction}
  {r r' : Running}

theorem runProgram_returns {accounts : List AccountInfo} {t : StateTransition}
    (h : Comp.Returns (runProgram ex tx instr accounts) r t r') :
    r.poisoned = false ∧
      executeProgram ex.machine instr.programId ⟨accounts, instr.data, tx.message.timestamp⟩ [] =
        .ok t ∧
      r' = { r with handed := r.handed ++ [(instr, accounts)] } := by
  unfold runProgram at h
  obtain ⟨_, _, hget, h₁⟩ := Comp.returns_bind.mp h
  obtain ⟨rfl, rfl⟩ := Comp.returns_get.mp hget
  obtain ⟨_, _, hens, h₂⟩ := Comp.returns_bind.mp h₁
  obtain ⟨hlock, rfl⟩ := Comp.returns_ensure.mp hens
  obtain ⟨_, _, hmod, h₃⟩ := Comp.returns_bind.mp h₂
  rw [Comp.returns_modify.mp hmod] at h₃
  refine ⟨by simpa using hlock, ?_⟩
  dsimp only at h₃
  split at h₃
  · rename_i hexec
    obtain ⟨rfl, rfl⟩ := Comp.returns_pure.mp h₃
    exact ⟨hexec, rfl⟩
  · exact absurd h₃ Comp.returns_throw
  · obtain ⟨_, _, -, h₄⟩ := Comp.returns_bind.mp h₃
    exact absurd h₄ Comp.returns_throw

/-- **Inversion of a round that succeeded**: the duplicate guard accepted the accounts, the
    program returned, and the overlay carries what came out of it. -/
theorem applyInstruction_returns (h : Comp.Returns (applyInstruction ex mode tx instr) r () r') :
    let accounts := instr.accounts.map (materialise r instr.programId)
    ∃ t w updated,
      rejectDuplicateWritable accounts = .ok () ∧
      executeProgram ex.machine instr.programId ⟨accounts, instr.data, tx.message.timestamp⟩ [] =
        .ok t ∧
      settled ex mode tx instr r.toWorld t.updatedAccounts = (w, updated) ∧
      r' = {
        toWorld := w
        overlay := carry r.overlay updated
        handed := r.handed ++ [(instr, accounts)]
        executed := r.executed ++ [⟨instr, accounts, updated, carry r.overlay updated⟩] } := by
  intro accounts
  unfold applyInstruction at h
  obtain ⟨_, _, hget, h₁⟩ := Comp.returns_bind.mp h
  obtain ⟨rfl, rfl⟩ := Comp.returns_get.mp hget
  obtain ⟨_, _, hguard, h₂⟩ := Comp.returns_bind.mp h₁
  obtain ⟨hdup, rfl⟩ := Comp.returns_ofExcept.mp hguard
  obtain ⟨t, _, hrun, h₃⟩ := Comp.returns_bind.mp h₂
  obtain ⟨-, hexec, rfl⟩ := runProgram_returns hrun
  obtain ⟨_, _, hver, h₄⟩ := Comp.returns_bind.mp h₃
  obtain ⟨-, rfl⟩ := Comp.returns_ofExcept.mp hver
  obtain ⟨_, _, hget', h₅⟩ := Comp.returns_bind.mp h₄
  obtain ⟨rfl, rfl⟩ := Comp.returns_get.mp hget'
  refine ⟨t, _, _, ?_, hexec, rfl, Comp.returns_set.mp h₅⟩
  change (rejectDuplicateWritable accounts).mapError programFault = _ at hdup
  cases hd : rejectDuplicateWritable accounts with
  | ok u => rfl
  | error e =>
    rw [hd] at hdup
    simp [Except.mapError] at hdup

/-- What a round that succeeds preserves, the whole loop preserves. -/
theorem applyInstructions_invariant {I : Running → Prop}
    (hstep : ∀ instr r r', I r → Comp.Returns (applyInstruction ex mode tx instr) r () r' → I r') :
    ∀ {instrs : List Instruction} {r r' : Running}, I r →
      Comp.Returns (applyInstructions ex mode tx instrs) r () r' → I r' := by
  intro instrs
  induction instrs with
  | nil =>
    intro r r' hI h
    obtain ⟨-, rfl⟩ := Comp.returns_pure.mp h
    exact hI
  | cons instr rest ih =>
    intro r r' hI h
    obtain ⟨_, m, hhead, htail⟩ := Comp.returns_bind.mp h
    exact ih (hstep instr r m hI hhead) htail

/-- A successful commit: the loop ran to its end, and its overlay was saved. -/
theorem apply_commit_ok {w : World} (h : (apply ex w tx .commit).1 = .ok ()) :
    ∃ m state, Comp.Returns (applyInstructions ex .commit tx tx.message.instructions)
        { toWorld := w } () m ∧
      m.state.saveAccountsAtomic (m.overlay.entries.map fun e => (e.1, e.2)) = some state ∧
      (apply ex w tx .commit).2 = { m with state } := by
  cases hap : apply ex w tx .commit with
  | mk res r' =>
    rw [hap] at h
    simp only at h
    subst h
    have hrun : Comp.Returns (run ex tx .commit) { toWorld := w } () r' := hap
    obtain ⟨_, m, hloop, hrest⟩ := Comp.returns_bind.mp hrun
    rw [if_pos rfl] at hrest
    obtain ⟨_, _, hget, hsave⟩ := Comp.returns_bind.mp hrest
    obtain ⟨rfl, rfl⟩ := Comp.returns_get.mp hget
    split at hsave
    · rename_i state hstate
      exact ⟨_, state, hloop, hstate, Comp.returns_set.mp hsave⟩
    · exact absurd hsave Comp.returns_throw

theorem applyInstructions_handed : ∀ {instrs : List Instruction} {r r' : Running},
    Comp.Returns (applyInstructions ex mode tx instrs) r () r' →
      r'.handed.map Prod.fst = r.handed.map Prod.fst ++ instrs := by
  intro instrs
  induction instrs with
  | nil =>
    intro r r' h
    obtain ⟨-, rfl⟩ := Comp.returns_pure.mp h
    simp
  | cons instr rest ih =>
    intro r r' h
    obtain ⟨_, m, hhead, htail⟩ := Comp.returns_bind.mp h
    obtain ⟨t, w, updated, -, -, -, rfl⟩ := applyInstruction_returns hhead
    rw [ih htail]
    simp

/-- In a transaction that succeeds, in either mode, every instruction is handed to its program. -/
theorem apply_ok_handed {w : World} (h : (apply ex w tx mode).1 = .ok ()) :
    (apply ex w tx mode).2.handed.map Prod.fst = tx.message.instructions := by
  cases mode with
  | commit =>
    obtain ⟨m, state, hloop, -, heq⟩ := apply_commit_ok h
    rw [heq]
    simpa using applyInstructions_handed hloop
  | preflight =>
    cases hap : apply ex w tx .preflight with
    | mk res r' =>
      rw [hap] at h
      simp only at h
      subst h
      have hrun : Comp.Returns (run ex tx .preflight) { toWorld := w } () r' := hap
      obtain ⟨_, m, hloop, hrest⟩ := Comp.returns_bind.mp hrun
      rw [if_neg (by simp)] at hrest
      obtain ⟨-, rfl⟩ := Comp.returns_pure.mp hrest
      simpa using applyInstructions_handed hloop

end

/-! ## Evaluation

A receipt commits to the accounts that come with it, so a call comes to the same without the checks
of the receipts, and that way it is evaluated without a hash. -/

section
variable {ex : Executor} {mode : Mode} {tx : RuntimeTransaction}

/-- `applyInstruction` without the check of the receipt. -/
def evalInstruction (ex : Executor) (mode : Mode) (tx : RuntimeTransaction)
    (instr : Instruction) : Apply Unit := do
  let accounts := instr.accounts.map (materialise (← get) instr.programId)
  Comp.ofExcept ((rejectDuplicateWritable accounts).mapError programFault)
  let transition ← runProgram ex tx instr accounts
  let r : Running ← get
  let (w, updated) := settled ex mode tx instr r.toWorld transition.updatedAccounts
  let overlay := carry r.overlay updated
  set { r with
    toWorld := w
    overlay
    executed := r.executed ++ [Executed.mk instr accounts updated overlay] }

def evalInstructions (ex : Executor) (mode : Mode) (tx : RuntimeTransaction) :
    List Instruction → Apply Unit
  | [] => return ()
  | instr :: rest => do
      evalInstruction ex mode tx instr
      evalInstructions ex mode tx rest

def eval (ex : Executor) (w : World) (tx : RuntimeTransaction) (mode : Mode) :
    Except ExecFault Unit × Running :=
  Comp.exec (do
    evalInstructions ex mode tx tx.message.instructions
    if mode = .commit then persist) { toWorld := w }

theorem applyInstruction_eval (instr : Instruction) (r : Running) :
    Comp.exec (applyInstruction ex mode tx instr) r =
      Comp.exec (evalInstruction ex mode tx instr) r := by
  unfold applyInstruction evalInstruction
  refine Comp.exec_bind_congr fun _ _ _ => Comp.exec_bind_congr fun _ _ _ => ?_
  refine Comp.exec_bind_congr fun t m hrun => ?_
  obtain ⟨-, hexec, -⟩ := runProgram_returns hrun
  rw [executeProgram_verify hexec]
  rfl

theorem applyInstructions_eval (instrs : List Instruction) : ∀ r : Running,
    Comp.exec (applyInstructions ex mode tx instrs) r =
      Comp.exec (evalInstructions ex mode tx instrs) r := by
  induction instrs with
  | nil => exact fun _ => rfl
  | cons instr rest ih =>
    intro r
    rw [applyInstructions, evalInstructions, Comp.exec_bind, applyInstruction_eval,
      ← Comp.exec_bind]
    exact Comp.exec_bind_congr fun _ m _ => ih m

theorem apply_eval (w : World) : ex.apply w tx mode = ex.eval w tx mode := by
  unfold apply eval run
  rw [Comp.exec_bind, Comp.exec_bind, applyInstructions_eval]

end

/-! ## What programs are handed -/

@[simp] theorem materialise_key (r : Running) (programId : Pubkey) (am : AccountMeta) :
    (materialise r programId am).key = am.pubkey := by
  unfold materialise
  cases r.overlay.lookup am.pubkey with
  | some stored => rfl
  | none => cases r.state.loadAccount am.pubkey <;> rfl

@[simp] theorem materialise_isSigner (r : Running) (programId : Pubkey) (am : AccountMeta) :
    (materialise r programId am).isSigner = am.isSigner := rfl

@[simp] theorem materialise_isWritable (r : Running) (programId : Pubkey) (am : AccountMeta) :
    (materialise r programId am).isWritable = am.isWritable := rfl

/-- The accounts handed to a program are the ones its instruction names, with its flags. -/
def HandedAsNamed (tx : RuntimeTransaction) (r : Running) : Prop :=
  ∀ p ∈ r.handed, p.1 ∈ tx.message.instructions ∧
    p.2.map (fun a => (a.key, a.isSigner, a.isWritable)) =
      p.1.accounts.map fun am => (am.pubkey, am.isSigner, am.isWritable)

theorem runProgram_keeps (ex : Executor) (tx : RuntimeTransaction) {instr : Instruction}
    (hmem : instr ∈ tx.message.instructions) {r : Running} :
    Comp.Keeps (HandedAsNamed tx)
      (runProgram ex tx instr (instr.accounts.map (materialise r instr.programId))) := by
  unfold runProgram
  refine .bind .get fun _ => .bind .ensure fun _ => .bind (.modify ?_) fun _ => ?_
  · intro s hs p hp
    rcases List.mem_append.mp hp with hp | hp
    · exact hs p hp
    · rw [List.mem_singleton] at hp
      subst hp
      exact ⟨hmem, by simp [List.map_map, Function.comp_def]⟩
  · dsimp only
    split
    · exact .pure
    · exact .throw
    · exact .bind (.modify fun _ hs => hs) fun _ => .throw

theorem applyInstruction_keeps (ex : Executor) (mode : Mode) (tx : RuntimeTransaction)
    {instr : Instruction} (hmem : instr ∈ tx.message.instructions) :
    Comp.Keeps (HandedAsNamed tx) (applyInstruction ex mode tx instr) := by
  unfold applyInstruction
  refine .bind .get fun _ => .bind .ofExcept fun _ => .bind (runProgram_keeps ex tx hmem) fun _ =>
    .bind .ofExcept fun _ => .bind_get fun r hr => ?_
  exact hr

theorem applyInstructions_keeps (ex : Executor) (mode : Mode) (tx : RuntimeTransaction) :
    ∀ instrs : List Instruction, (∀ instr ∈ instrs, instr ∈ tx.message.instructions) →
      Comp.Keeps (HandedAsNamed tx) (applyInstructions ex mode tx instrs)
  | [], _ => .pure
  | instr :: rest, hsub =>
      .bind (applyInstruction_keeps ex mode tx (hsub instr (by simp)))
        fun _ => applyInstructions_keeps ex mode tx rest fun i hi => hsub i (by simp [hi])

/-- However a transaction ends, each program was handed the accounts its instruction names. -/
theorem handedAsNamed (ex : Executor) (w : World) (tx : RuntimeTransaction) (mode : Mode) :
    HandedAsNamed tx (apply ex w tx mode).2 := by
  have hkeeps : Comp.Keeps (HandedAsNamed tx) (run ex tx mode) := by
    unfold run
    refine .bind (applyInstructions_keeps ex mode tx _ fun _ h => h) fun _ => ?_
    split
    · refine .bind_get fun r hr => ?_
      split
      · exact hr
      · exact hr
    · exact .pure
  exact hkeeps { toWorld := w } fun p hp => absurd hp (by simp)

end Executor

end Node
end Himsha
