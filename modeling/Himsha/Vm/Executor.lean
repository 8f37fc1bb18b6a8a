import Himsha.Runtime.Transaction
import Himsha.Vm.Dispatch

/-!
# `executor.rs`, `registry.rs` and `receipt.rs`

Built-ins run natively, everything else goes through the prover, which is outside this repository
and so a parameter: from a registered program, its id and the input it gives the accounts the
guest returned and the journal, or the text of the step that failed. What the node does with that
answer is in `execute`.

A receipt binds the accounts it was made for by their hash. On the native path the node recomputes
the hash it just made, so that check never fails (`executeProgram_verify`).
-/

set_option autoImplicit false

namespace Himsha
namespace Vm

open Himsha.Lib Himsha.Runtime Himsha.Programs

structure RegisteredProgram where
  elf : List UInt8
  imageId : Blob 32

/-- Program ids to their bytecode. -/
abbrev ProgramRegistry := Pubkey → Option RegisteredProgram

structure ExecutionInput where
  accounts : List AccountInfo
  instructionData : List UInt8
  timestamp : UInt64

structure ExecutionReceipt where
  programId : Pubkey
  imageId : Blob 32
  /-- SHA-256 of the journal, or of the encoded accounts on the native path. -/
  journalHash : Blob 32
  proofBytes : List UInt8
  verified : Bool

structure StateTransition where
  receipt : ExecutionReceipt
  updatedAccounts : List AccountInfo
  newUtxos : List UtxoMeta
  bitcoinTxid : Option (Blob 32)

/-- `ExecutionReceipt::journal_hash_for`. -/
def journalHashFor (accounts : List AccountInfo) : Blob 32 := sha256 ((toVec accounts).getD [])

/-- The receipt commits to the updated accounts, or comes from a verified proof. -/
def StateTransition.verify (t : StateTransition) : Except String Unit :=
  if t.receipt.verified then .ok ()
  else if journalHashFor t.updatedAccounts ≠ t.receipt.journalHash then
    .error "receipt journal_hash does not commit to the updated accounts"
  else .ok ()

inductive NodeError where
  | programNotFound (programId : Pubkey)
  | vmError (text : String)
  | serError (text : String)

/-- The `Display` text of an error. -/
def NodeError.message : NodeError → String
  | .programNotFound programId => "program not found: " ++ programId.toBase58
  | .vmError text => "VM error: " ++ text
  | .serError text => "serialization error: " ++ text

/-- How an execution can fail to return: an error, or a panic of the program. -/
inductive VmFault where
  | node (e : NodeError)
  | panic

/-- What the node runs on: the build, the hash order, the registered programs and the prover. -/
structure Machine where
  profile : Profile
  hasher : Lending.Hasher
  registry : ProgramRegistry
  prove : RegisteredProgram → Pubkey → ExecutionInput →
    Except String (List AccountInfo × List UInt8)

/-- Run a built-in natively. No invocation is in progress on the thread. -/
def executeNative (m : Machine) (programId : Pubkey) (input : ExecutionInput)
    (anchorUtxos : List UtxoMeta) : Except VmFault StateTransition :=
  match (Comp.exec (dispatch m.profile m.hasher programId input.accounts input.instructionData
      input.timestamp) {}).1 with
  | .error (.err e) => .error (.node (.vmError ("program error: " ++ e.message)))
  | .error .panic => .error .panic
  | .ok accounts =>
      match toVec accounts with
      | none => .error (.node (.serError "invalid data"))
      | some stateBytes =>
          .ok {
            receipt := {
              programId
              imageId := .zero 32
              journalHash := sha256 stateBytes
              proofBytes := []
              verified := false }
            updatedAccounts := accounts
            newUtxos := anchorUtxos
            bitcoinTxid := none }

/-- The owner gate for a deployed program, which cannot invoke others. -/
def ownerGate (programId : Pubkey) (before after : List AccountInfo) :
    Except Fault (List AccountInfo) :=
  (Comp.exec (do modify beginExecution; validateWrites programId before after) {}).1

/-- Run a program through the prover and check what came back. -/
def execute (m : Machine) (programId : Pubkey) (input : ExecutionInput)
    (anchorUtxos : List UtxoMeta) : Except VmFault StateTransition :=
  match m.registry programId with
  | none => .error (.node (.programNotFound programId))
  | some prog =>
      match m.prove prog programId input with
      | .error text => .error (.node (.vmError text))
      | .ok (updated, journal) =>
          -- The guest must return the table it was given: same keys, same order.
          if updated.map (·.key) ≠ input.accounts.map (·.key) then
            .error (.node (.vmError
              "program returned a different account table than it was given"))
          else
            let gated :=
              if isBuiltin programId then .ok updated
              else ownerGate programId input.accounts updated
            match gated with
            | .error (.err e) => .error (.node (.vmError ("owner gate: " ++ e.message)))
            | .error .panic => .error .panic
            | .ok updated =>
                .ok {
                  receipt := {
                    programId
                    imageId := prog.imageId
                    journalHash := sha256 journal
                    proofBytes := journal
                    verified := true }
                  updatedAccounts := updated
                  newUtxos := anchorUtxos
                  bitcoinTxid := none }

/-- Execute a program: built-ins natively, the rest in the prover. -/
def executeProgram (m : Machine) (programId : Pubkey) (input : ExecutionInput)
    (anchorUtxos : List UtxoMeta) : Except VmFault StateTransition :=
  if isBuiltin programId then executeNative m programId input anchorUtxos
  else execute m programId input anchorUtxos

/-- What a native execution that succeeded did. -/
theorem executeNative_eq_ok {m : Machine} {programId : Pubkey} {input : ExecutionInput}
    {anchorUtxos : List UtxoMeta} {t : StateTransition}
    (h : executeNative m programId input anchorUtxos = .ok t) :
    ∃ s', Comp.Returns (dispatch m.profile m.hasher programId input.accounts
      input.instructionData input.timestamp) {} t.updatedAccounts s' ∧ t.verify = .ok () := by
  unfold executeNative at h
  cases hexec : Comp.exec (dispatch m.profile m.hasher programId input.accounts
      input.instructionData input.timestamp) {} with
  | mk r s' =>
    rw [hexec] at h
    cases r with
    | error f => cases f <;> simp at h
    | ok accounts =>
      simp only at h
      cases hvec : toVec accounts with
      | none => simp [hvec] at h
      | some stateBytes =>
        simp only [hvec, Except.ok.injEq] at h
        subst h
        exact ⟨s', hexec, by simp [StateTransition.verify, journalHashFor, hvec]⟩

/-- What a proved execution that succeeded did: the guest returned the table it was given, a
    deployed program went through the owner gate, and the proof was verified. -/
theorem execute_eq_ok {m : Machine} {programId : Pubkey} {input : ExecutionInput}
    {anchorUtxos : List UtxoMeta} {t : StateTransition}
    (h : execute m programId input anchorUtxos = .ok t) :
    ∃ updated, updated.map (·.key) = input.accounts.map (·.key) ∧
      (if isBuiltin programId then .ok updated else ownerGate programId input.accounts updated) =
        .ok t.updatedAccounts ∧
      t.verify = .ok () := by
  unfold execute at h
  split at h
  · simp at h
  · split at h
    · simp at h
    · split at h
      · simp at h
      · rename_i updated _ _ hkeys
        dsimp only at h
        split at h
        · simp at h
        · simp at h
        · rename_i hgate
          simp only [Except.ok.injEq] at h
          subst h
          exact ⟨updated, not_not.mp hkeys, hgate, by simp [StateTransition.verify]⟩

/-- **The receipt check is never what stops a transaction.** -/
theorem executeProgram_verify {m : Machine} {programId : Pubkey} {input : ExecutionInput}
    {anchorUtxos : List UtxoMeta} {t : StateTransition}
    (h : executeProgram m programId input anchorUtxos = .ok t) : t.verify = .ok () := by
  unfold executeProgram at h
  split at h
  · exact (executeNative_eq_ok h).choose_spec.2
  · exact (execute_eq_ok h).choose_spec.2.2

end Vm
end Himsha
