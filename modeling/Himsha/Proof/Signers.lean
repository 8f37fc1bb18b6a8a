import Himsha.Node.Rpc

/-!
# Who signed what a program is told was signed

Programs take the signer flag of an account on trust. The node verifies the signatures of the keys
that a message declares, and it sets the flags from the account lists of the instructions; nothing
relates the two lists. So the flags can be trusted exactly for the transactions that declare every
key they flag.
-/

set_option autoImplicit false

namespace Himsha
namespace Proof

open Himsha.Lib Himsha.Runtime Himsha.Node Himsha.Programs

/-- Every account handed to a program as a signer is a declared signer, and its signature over
    the message hash verifies. -/
def SignersAuthentic (verify : Verifier) (tx : RuntimeTransaction)
    (handed : List (Instruction × List AccountInfo)) : Prop :=
  ∀ p ∈ handed, ∀ a ∈ p.2, a.isSigner = true →
    a.key ∈ tx.message.signers ∧ ∃ sig ∈ tx.signatures, verify sig tx.messageHash a.key = true

/-- Every account that an instruction flags as a signer is declared in the message. -/
def FlagsDeclared (tx : RuntimeTransaction) : Prop :=
  ∀ instr ∈ tx.message.instructions, ∀ am ∈ instr.accounts,
    am.isSigner = true → am.pubkey ∈ tx.message.signers

instance (tx : RuntimeTransaction) : Decidable (FlagsDeclared tx) := by
  unfold FlagsDeclared
  infer_instance

instance (verify : Verifier) (tx : RuntimeTransaction)
    (handed : List (Instruction × List AccountInfo)) :
    Decidable (SignersAuthentic verify tx handed) := by
  unfold SignersAuthentic
  infer_instance

/-- A flagged account in a handed list comes from a flagged entry of its instruction. -/
theorem handed_flag {tx : RuntimeTransaction} {r : Running}
    (h : Executor.HandedAsNamed tx r) {p : Instruction × List AccountInfo} (hp : p ∈ r.handed)
    {a : AccountInfo} (ha : a ∈ p.2) :
    ∃ am ∈ p.1.accounts, am.pubkey = a.key ∧ am.isSigner = a.isSigner := by
  have hmem : (a.key, a.isSigner, a.isWritable) ∈
      p.1.accounts.map fun am => (am.pubkey, am.isSigner, am.isWritable) := by
    rw [← (h p hp).2]
    exact List.mem_map.mpr ⟨a, ha, rfl⟩
  obtain ⟨am, ham, heq⟩ := List.mem_map.mp hmem
  simp only [Prod.mk.injEq] at heq
  exact ⟨am, ham, heq.1, heq.2.1⟩

/-- And every flagged entry of its instruction is handed on. -/
theorem flag_handed {tx : RuntimeTransaction} {r : Running}
    (h : Executor.HandedAsNamed tx r) {p : Instruction × List AccountInfo} (hp : p ∈ r.handed)
    {am : AccountMeta} (ham : am ∈ p.1.accounts) :
    ∃ a ∈ p.2, a.key = am.pubkey ∧ a.isSigner = am.isSigner := by
  have hmem : (am.pubkey, am.isSigner, am.isWritable) ∈
      p.2.map fun a => (a.key, a.isSigner, a.isWritable) := by
    rw [(h p hp).2]
    exact List.mem_map.mpr ⟨am, ham, rfl⟩
  obtain ⟨a, ha, heq⟩ := List.mem_map.mp hmem
  simp only [Prod.mk.injEq] at heq
  exact ⟨a, ha, heq.1, heq.2.1⟩

/-- **Signer flags can be trusted where they are declared, and only there.** For a transaction that
    passed the checks of the handler in some state, run in either mode in any state: if the
    message declares every key its instructions flag, every flag a program sees stands for a
    verified signature, however the run ends; and where the run succeeds, the converse holds. -/
theorem signers_authentic (ex : Executor) (g : Gate) (s : NodeState) (w : World)
    (tx : RuntimeTransaction) (mode : Mode) (hchecked : checkTransaction g s tx = .ok ()) :
    (FlagsDeclared tx → SignersAuthentic g.verify tx (ex.apply w tx mode).2.handed) ∧
    ((ex.apply w tx mode).1 = .ok () →
      (SignersAuthentic g.verify tx (ex.apply w tx mode).2.handed ↔ FlagsDeclared tx)) := by
  have hnamed := Executor.handedAsNamed ex w tx mode
  have hforth : FlagsDeclared tx →
      SignersAuthentic g.verify tx (ex.apply w tx mode).2.handed := by
    intro hdecl p hp a ha hsigner
    obtain ⟨am, ham, hkey, hflag⟩ := handed_flag hnamed hp ha
    have hmem : a.key ∈ tx.message.signers := by
      rw [← hkey]
      exact hdecl p.1 (hnamed p hp).1 am ham (hflag.trans hsigner)
    exact ⟨hmem,
      RuntimeTransaction.verifySignatures_mem (checkTransaction_signatures hchecked) hmem⟩
  refine ⟨hforth, fun hok => ⟨fun hauth instr hinstr am ham hflag => ?_, hforth⟩⟩
  -- A run that succeeds hands every instruction to its program.
  rw [← Executor.apply_ok_handed hok] at hinstr
  obtain ⟨p, hp, rfl⟩ := List.mem_map.mp hinstr
  obtain ⟨a, ha, hkey, hflag'⟩ := flag_handed hnamed hp ham
  rw [← hkey]
  exact (hauth p hp a ha (hflag'.trans hflag)).1

/-- The sender declares its key and signs. -/
def honestTransfer : RuntimeTransaction :=
  signedBy [.repeated 1] [System.transfer (.repeated 1) (.repeated 2) 250]

theorem signers_authentic_transfer :
    (Executor.apply (.bare .dev) (.funded [(.repeated 1, 1000)]) honestTransfer .commit).1 =
        .ok () ∧
      FlagsDeclared honestTransfer ∧
      SignersAuthentic (fun _ _ k => k == .repeated 1) honestTransfer
        (Executor.apply (.bare .dev) (.funded [(.repeated 1, 1000)]) honestTransfer
          .commit).2.handed := by
  have hok : (Executor.apply (.bare .dev) (.funded [(.repeated 1, 1000)]) honestTransfer
      .commit).1 = .ok () := by
    decide +kernel
  have hdecl : FlagsDeclared honestTransfer := by decide
  refine ⟨hok, hdecl, ((signers_authentic (.bare .dev) ⟨fun _ _ k => k == .repeated 1, 4⟩
    (World.funded [(.repeated 1, 1000)]).state _ _ .commit ?_).2 hok).mpr hdecl⟩
  decide

/-- The same instruction in a message that declares no signer and carries no signature. -/
def unsignedTransfer : RuntimeTransaction :=
  { honestTransfer with
    signatures := []
    message := { honestTransfer.message with signers := [] } }

/-- It passes every check, commits, and takes the money. -/
theorem unsigned_transfer_commits :
    checkTransaction ⟨fun _ _ _ => false, 4⟩ (World.funded [(.repeated 1, 1000)]).state
        unsignedTransfer = .ok () ∧
      (Executor.apply (.bare .dev) (.funded [(.repeated 1, 1000)]) unsignedTransfer .commit).1 =
        .ok () ∧
      (Executor.apply (.bare .dev) (.funded [(.repeated 1, 1000)]) unsignedTransfer
        .commit).2.state.loadAccount (.repeated 2) = some (wallet 250) ∧
      ¬ SignersAuthentic (fun _ _ _ => false) unsignedTransfer
        (Executor.apply (.bare .dev) (.funded [(.repeated 1, 1000)]) unsignedTransfer
          .commit).2.handed := by
  refine ⟨?_, ?_, ?_, ?_⟩
  · decide
  · decide +kernel
  · decide +kernel
  · decide +kernel

end Proof
end Himsha
