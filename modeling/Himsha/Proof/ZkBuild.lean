import Himsha.Proof.ChainRoots
import Himsha.Vm.Guest

/-!
# The two builds agree

A node that runs the built-ins natively and one that proves them do the same with a chain, where
the guest was built with the checks and the hash order of the node (`Guest.Build.Alike`) and the
instructions are within its limits and ask for no buffer that its `usize` cannot count (`Suited`).
The guest has its own copy of the dispatch table and of the owner gate; the host checks that it
gives back the table it was given, which a built-in always does, and leaves the gate of a built-in
to the guest. What is left is an encoding that only the native path makes, of accounts that have
one unless they hold `2 ^ 32` bytes.
-/

set_option autoImplicit false

namespace Himsha
namespace Proof

open Himsha.Lib Himsha.Runtime Himsha.Programs Himsha.Vm Himsha.Node

/-- The space that is asked for is one that 32 bits count, and that can be allocated there. -/
def spaceFits : System.SystemInstruction → Bool
  | .createAccount _ space _ | .createAccountWithAnchor _ space _ | .allocate space =>
      space.toNat < 2 ^ 31
  | .transfer _ | .assign _ => true

/-- The run is within the limits of the prover, and a system instruction asks for no more space than
    the guest has. -/
structure Suited (b : Guest.Build) (programId : Pubkey) (input : ExecutionInput) : Prop where
  within : b.within programId input
  space : programId = ProgramIds.systemProgram → ∀ ix, tryFromSlice input.instructionData = some ix →
    spaceFits ix = true

section
variable {m : Machine} {guest : RegisteredProgram} {b : Guest.Build} {programId : Pubkey}
  {input : ExecutionInput} {anchorUtxos : List UtxoMeta} {accounts : List AccountInfo}

theorem guest_zeroed {space : UInt64} (h : space.toNat < 2 ^ 31) :
    Guest.zeroed space = zeroed space := by
  unfold Guest.zeroed zeroed
  rw [Nat.mod_eq_of_lt (by omega), if_pos h, if_pos (by omega)]

/-- Space that fits is cut nowhere. -/
theorem guest_systemRun {ix : System.SystemInstruction} (h : spaceFits ix = true) :
    Guest.systemRun accounts ix = System.run accounts ix := by
  cases ix with
  | createAccount lamports space owner =>
    rw [Guest.systemRun, System.run, guest_zeroed (of_decide_eq_true h)]
  | createAccountWithAnchor utxo space owner =>
    rw [Guest.systemRun, System.run, guest_zeroed (of_decide_eq_true h)]
  | transfer lamports => rfl
  | assign owner => rfl
  | allocate space =>
    have hfits : space.toNat < 2 ^ 31 := of_decide_eq_true h
    have hzeroed : zeroed space = .ok (List.replicate space.toNat 0) := if_pos (by omega)
    rw [Guest.systemRun, System.run, guest_zeroed hfits, hzeroed]
    refine bind_congr fun _ => bind_congr fun acc => ?_
    split
    · rename_i hgrows
      change Except.ok _ = Except.ok _
      rw [List.length_replicate, List.take_of_length_le (Nat.le_of_lt hgrows)]
    · rfl

/-- The guest runs what the node runs. -/
theorem guest_main_eq (halike : b.Alike m) (hsuited : Suited b programId input) :
    Guest.main b programId input =
      (Comp.exec (dispatch m.profile m.hasher programId input.accounts input.instructionData
        input.timestamp) {}).1.toOption := by
  have hsystem : programId = ProgramIds.systemProgram →
      Guest.systemProcess input.accounts input.instructionData =
        System.process input.accounts input.instructionData := by
    intro hprogram
    unfold Guest.systemProcess System.process
    cases hix : tryFromSlice (α := System.SystemInstruction) input.instructionData with
    | none => rfl
    | some ix => exact guest_systemRun (hsuited.space hprogram ix hix)
  have hdispatch : Guest.dispatch b.profile b.hasher programId input.accounts
      input.instructionData input.timestamp = runBuiltin m.profile m.hasher programId
        input.accounts input.instructionData input.timestamp := by
    rw [halike.profile, halike.hasher]
    unfold Guest.dispatch runBuiltin
    split
    · rename_i hprogram
      rw [hsystem hprogram]
    · rfl
  unfold Guest.main
  rw [hdispatch]
  rfl

theorem guest_main_ok_iff (halike : b.Alike m) (hsuited : Suited b programId input) :
    Guest.main b programId input = some accounts ↔
      (Comp.exec (dispatch m.profile m.hasher programId input.accounts input.instructionData
        input.timestamp) {}).1 = .ok accounts := by
  rw [guest_main_eq halike hsuited]
  cases (Comp.exec (dispatch m.profile m.hasher programId input.accounts input.instructionData
    input.timestamp) {}).1 with
  | ok a => simp [Except.toOption]
  | error e => simp [Except.toOption]

/-- A program hands back these accounts. -/
def HandsBack (r : Except VmFault StateTransition) (accounts : List AccountInfo) : Prop :=
  ∃ t, r = .ok t ∧ t.updatedAccounts = accounts

/-- The native path also encodes the accounts. -/
theorem executeNative_handsBack (halike : b.Alike m) (hsuited : Suited b programId input) :
    HandsBack (executeNative m programId input anchorUtxos) accounts ↔
      Guest.main b programId input = some accounts ∧ (toVec accounts).isSome := by
  rw [guest_main_ok_iff halike hsuited]
  unfold executeNative HandsBack
  cases (Comp.exec (dispatch m.profile m.hasher programId input.accounts input.instructionData
    input.timestamp) {}).1 with
  | error e => cases e <;> simp
  | ok a =>
    cases hvec : toVec a with
    | none =>
      simp only [hvec, reduceCtorEq, false_and, exists_false, Except.ok.injEq, false_iff, not_and]
      rintro rfl
      simp [hvec]
    | some bytes =>
      simp only [hvec, Except.ok.injEq]
      constructor
      · rintro ⟨t, rfl, rfl⟩
        exact ⟨rfl, by simp [hvec]⟩
      · rintro ⟨rfl, -⟩
        exact ⟨_, rfl, rfl⟩

/-- **A built-in, proved.** The host finds the table that it gave. -/
theorem executeProgramZk_builtin (hproves : Proves m guest b) (halike : b.Alike m)
    (hbuiltin : isBuiltin programId = true) (hsuited : Suited b programId input) :
    HandsBack (executeProgramZk m guest programId input anchorUtxos) accounts ↔
      Guest.main b programId input = some accounts := by
  have hregistered : (m.zkvm guest).registry programId = some guest := if_pos hbuiltin
  have hprove : (m.zkvm guest).prove = m.prove := rfl
  unfold executeProgramZk execute HandsBack
  rw [hregistered, hprove, ← hproves programId input hsuited.within accounts]
  dsimp only
  cases hrun : m.prove guest programId input with
  | error text => simp
  | ok result =>
    obtain ⟨updated, journal⟩ := result
    -- What is committed is about the accounts that were given.
    have hkeys : updated.map (·.key) = input.accounts.map (·.key) := by
      have hmain := (hproves programId input hsuited.within updated).mp ⟨journal, hrun⟩
      have hret := Comp.returns_of_ok ((guest_main_ok_iff halike hsuited).mp hmain)
      exact (dispatch_settles _ _ _ _ _ _ _ _ _ hret).keys
    simp only [hkeys, ne_eq, not_true_eq_false, if_false, hbuiltin, if_true, Except.ok.injEq]
    constructor
    · rintro ⟨t, rfl, rfl⟩
      exact ⟨journal, rfl⟩
    · rintro ⟨journal', heq⟩
      obtain ⟨rfl, rfl⟩ := Prod.mk.inj heq
      exact ⟨_, rfl, rfl⟩

/-- A deployed program is proved in either build, in the same way. -/
theorem executeProgramZk_deployed (hbuiltin : isBuiltin programId = false) :
    executeProgramZk m guest programId input anchorUtxos =
      executeProgram m programId input anchorUtxos := by
  have hregistry : (m.zkvm guest).registry programId = m.registry programId := by
    show (if isBuiltin programId then some guest else m.registry programId) = _
    rw [hbuiltin]
    rfl
  unfold executeProgramZk executeProgram
  rw [if_neg (by rw [hbuiltin]; simp)]
  unfold execute
  rw [hregistry]
  rfl

/-- **The two builds, on one instruction.** -/
theorem builds_handsBack (hproves : Proves m guest b) (halike : b.Alike m)
    (hsuited : isBuiltin programId = true → Suited b programId input) :
    HandsBack (executeProgram m programId input anchorUtxos) accounts ↔
      HandsBack (executeProgramZk m guest programId input anchorUtxos) accounts ∧
        (isBuiltin programId = true → (toVec accounts).isSome) := by
  cases hbuiltin : isBuiltin programId with
  | false =>
    rw [executeProgramZk_deployed hbuiltin]
    exact ⟨fun h => ⟨h, fun h => by cases h⟩, And.left⟩
  | true =>
    rw [executeProgramZk_builtin hproves halike hbuiltin (hsuited hbuiltin), executeProgram,
      if_pos hbuiltin, executeNative_handsBack halike (hsuited hbuiltin)]
    exact and_congr_right fun _ => ⟨fun h _ => h, fun h => h rfl⟩

/-! ## Chains -/

/-- One instruction of a block, in the build that proves everything. -/
def replayStepZk (m : Machine) (guest : RegisteredProgram) (t : Accounts)
    (p : RuntimeTransaction × Instruction) : Option Accounts :=
  match rejectDuplicateWritable (accountsOf t p.2) with
  | .error _ => none
  | .ok () =>
      match executeProgramZk m guest p.2.programId
          ⟨accountsOf t p.2, p.2.data, p.1.message.timestamp⟩ [] with
      | .ok transition => some (t.write (entries (kept .commit p.2 transition.updatedAccounts)))
      | .error _ => none

/-- The table after the blocks 1 to `n`, in that build. -/
def replayToZk (m : Machine) (guest : RegisteredProgram) (genesis : Accounts)
    (blocks : Table Nat Block) : Nat → Option Accounts
  | 0 => some genesis
  | n + 1 => (replayToZk m guest genesis blocks n).bind fun t =>
      (blocks.lookup (n + 1)).bind fun block =>
        Lib.run (replayStepZk m guest) t (Follower.instructionsOf block)

/-- An instruction of a block that a guest is suited for, if it runs in one. -/
def StepSuited (b : Guest.Build) (t : Accounts) (p : RuntimeTransaction × Instruction) : Prop :=
  isBuiltin p.2.programId = true →
    Suited b p.2.programId ⟨accountsOf t p.2, p.2.data, p.1.message.timestamp⟩

/-- So are all of a chain, up to the block `n`. -/
def ChainSuited (m : Machine) (b : Guest.Build) (genesis : Accounts) (blocks : Table Nat Block)
    (n : Nat) : Prop :=
  ∀ k t block, k < n → replayTo m genesis blocks k = some t → blocks.lookup (k + 1) = some block →
    Meets (replayStep m) (StepSuited b) t (Follower.instructionsOf block)

theorem replayStep_zk (hproves : Proves m guest b) (halike : b.Alike m) {t t' : Accounts}
    {p : RuntimeTransaction × Instruction} (hsuited : StepSuited b t p)
    (h : replayStep m t p = some t') : replayStepZk m guest t p = some t' := by
  unfold replayStep demand at h
  unfold replayStepZk
  cases hguard : rejectDuplicateWritable (accountsOf t p.2) with
  | error e => simp [hguard] at h
  | ok u =>
    cases hexec : executeProgram m p.2.programId
        ⟨accountsOf t p.2, p.2.data, p.1.message.timestamp⟩ [] with
    | error e => cases e <;> simp [hguard, hexec] at h
    | ok transition =>
      obtain ⟨⟨transition', hzk, hsame⟩, -⟩ :=
        (builds_handsBack hproves halike hsuited).mp ⟨_, hexec, rfl⟩
      simp only [hguard, hexec, Option.some.injEq] at h
      simp only [hzk, hsame]
      exact congrArg some h

/-- A run of one step function is a run of another that goes where it goes. -/
theorem run_mono {S A : Type} {step step' : S → A → Option S} {ok : S → A → Prop}
    (hstep : ∀ s a s', ok s a → step s a = some s' → step' s a = some s') :
    ∀ {as : List A} {s s' : S}, Meets step ok s as → Lib.run step s as = some s' →
      Lib.run step' s as = some s' := by
  intro as
  induction as with
  | nil => exact fun _ h => h
  | cons a as ih =>
    intro s s' hmeets h
    obtain ⟨u, hu, hrest⟩ := run_cons h
    rw [Lib.run, hstep s a u hmeets.1 hu, Option.bind_some]
    exact ih (hmeets.2 u hu) hrest

end

/-- A guest that is built like a node, and a prover without limits. -/
def sameBuild (π : Profile) (hasher : Lending.Hasher) : Guest.Build := ⟨π, hasher, fun _ _ => True⟩

/-- A prover that runs the guest. -/
def honest (π : Profile) (hasher : Lending.Hasher) : Machine where
  profile := π
  hasher := hasher
  registry := fun _ => none
  prove := fun _ programId input =>
    match Guest.main (sameBuild π hasher) programId input with
    | some accounts => .ok (accounts, (toVec accounts).getD [])
    | none => .error "program execution failed"

theorem honest_proves (π : Profile) (hasher : Lending.Hasher) (guest : RegisteredProgram) :
    Proves (honest π hasher) guest (sameBuild π hasher) := by
  intro programId input _ accounts
  show (∃ journal, (match Guest.main (sameBuild π hasher) programId input with
    | some accounts => Except.ok (accounts, (toVec accounts).getD [])
    | none => .error "program execution failed") = .ok (accounts, journal)) ↔
      Guest.main (sameBuild π hasher) programId input = some accounts
  cases Guest.main (sameBuild π hasher) programId input <;> simp

/-- A chain of one block, with a payment. -/
def paidChain : Table Nat Block :=
  (∅ : Table Nat Block).insert 1 (.newWithRoot 1 0 [payment] 0 (.zero 32))

theorem paidChain_suited (m : Machine) (genesis : Accounts) :
    ChainSuited m (sameBuild .dev (Executor.bare .dev).machine.hasher) genesis paidChain 1 := by
  intro k t block hk _ hblock
  obtain rfl : k = 0 := Nat.lt_one_iff.mp hk
  obtain rfl : Block.newWithRoot 1 0 [payment] 0 (.zero 32) = block := Option.some.inj hblock
  refine ⟨fun _ => ⟨trivial, fun _ ix hix => ?_⟩, fun _ _ => trivial⟩
  have hdata : tryFromSlice (System.transfer (.repeated 1) (.repeated 2) 250).data =
      some (System.SystemInstruction.transfer 250) := by
    decide
  rw [Option.some.inj (hix.symm.trans hdata)]
  rfl

end Proof
end Himsha
