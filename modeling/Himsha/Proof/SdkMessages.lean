import Himsha.Lib.Encodes
import Himsha.Sdk.Message

/-!
# What a client signs

The node hashes the encoding of a message, with the length of every sequence and the two fields
that bind it to a chain; a client hashes the plain contents. So the bytes are never the same, and
the plain contents do not say where the signers end: the last of them may as well be the program
of a first instruction.
-/

set_option autoImplicit false

namespace Himsha
namespace Proof

open Himsha.Lib Himsha.Runtime Himsha.Sdk

/-! ## Encodings are longer than contents -/

/-- Encodings are at least as long as the plain bytes. -/
def Outweighs {α : Type} [Borsh α] (f : α → List UInt8) : Prop :=
  ∀ (a : α) (bs : List UInt8), Borsh.ser a = some bs → (f a).length ≤ bs.length

section
variable {α : Type} [Borsh α] {f : α → List UInt8}

theorem Outweighs.all (hf : Outweighs f) {as : List α} {bs : List UInt8}
    (h : serAll as = some bs) : (as.flatMap f).length ≤ bs.length := by
  induction as generalizing bs with
  | nil => exact Nat.zero_le _
  | cons a as ih =>
    obtain ⟨xs, hx, hrest⟩ := Option.bind_eq_some_iff.mp h
    obtain ⟨ys, hy, rfl⟩ := Option.map_eq_some_iff.mp hrest
    have hhead := hf a xs hx
    have htail := ih hy
    rw [List.flatMap_cons, List.length_append, List.length_append]
    omega

/-- A sequence has its length in front. -/
theorem Outweighs.list (hf : Outweighs f) {as : List α} {bs : List UInt8}
    (h : Borsh.ser as = some bs) : (as.flatMap f).length + 4 ≤ bs.length := by
  simp only [Borsh.ser] at h
  split at h
  · obtain ⟨ys, hy, rfl⟩ := Option.map_eq_some_iff.mp h
    have hall := hf.all hy
    rw [List.length_append, length_leBytes]
    omega
  · simp at h

end

theorem outweighs_pubkey : Outweighs fun k : Pubkey => k.bytes.bytes := by
  intro k bs h
  rw [← Option.some.inj h]

theorem outweighs_byte : Outweighs fun b : UInt8 => [b] := by
  intro b bs h
  rw [← Option.some.inj h]
  exact Nat.le_refl 1

theorem outweighs_account : Outweighs accountBytes := by
  intro a bs h
  obtain ⟨xs, ys, hx, hy, rfl⟩ := ser_pair (α := Pubkey) (β := Bool × Bool) h
  obtain ⟨us, vs, hu, hv, rfl⟩ := ser_pair hy
  have hkey : a.pubkey.bytes.bytes.length ≤ xs.length := outweighs_pubkey a.pubkey xs hx
  have hflags : us.length = 1 ∧ vs.length = 1 := by
    rw [← Option.some.inj hu, ← Option.some.inj hv]
    exact ⟨rfl, rfl⟩
  rw [accountBytes, List.length_append, List.length_append, List.length_append]
  simp only [List.length_cons, List.length_nil]
  omega

theorem outweighs_instruction : Outweighs instructionBytes := by
  intro i bs h
  obtain ⟨xs, ys, hx, hy, rfl⟩ :=
    ser_pair (α := Pubkey) (β := List AccountMeta × List UInt8) h
  obtain ⟨us, vs, hu, hv, rfl⟩ := ser_pair hy
  have hprogram : i.programId.bytes.bytes.length ≤ xs.length := outweighs_pubkey i.programId xs hx
  have haccounts := outweighs_account.list hu
  have hdata := outweighs_byte.list hv
  rw [List.flatMap_singleton'] at hdata
  rw [instructionBytes]
  simp only [List.length_append] at *
  omega

/-! ## Clients and the node -/

section
variable {library : Library} {m : HimshaMessage}

theorem length_timestampBytes {timestamp : Int} {ts : List UInt8}
    (h : library.timestampBytes timestamp = some ts) : ts.length = 8 := by
  cases library with
  | typeScript =>
    rw [← Option.some.inj h, length_leBytes]
  | python =>
    obtain ⟨-, hts⟩ := Option.ite_none_right_eq_some.mp h
    rw [← Option.some.inj hts, length_leBytes]
  | dart =>
    rw [← Option.some.inj h, length_leBytes]

/-- The message that the node hashes, for the chain and the recent block it is sent to. -/
def nodeMessage (m : HimshaMessage) (recentBlockhash : Blob 32) (chainId : UInt64) : Message where
  signers := m.signers
  instructions := m.instructions
  recentBlockhash := recentBlockhash
  chainId := chainId
  timestamp := UInt64.ofNat m.timestamp.toNat

/-- **The node hashes more bytes than a client does.** -/
theorem preimage_shorter {recentBlockhash : Blob 32} {chainId : UInt64} {bs bs' : List UInt8}
    (h : library.preimage m = some bs)
    (h' : toVec (nodeMessage m recentBlockhash chainId) = some bs') : bs.length < bs'.length := by
  obtain ⟨ts, hts, rfl⟩ := Option.map_eq_some_iff.mp h
  obtain ⟨ss, rest, hss, hrest, rfl⟩ := ser_pair (α := List Pubkey)
    (β := List Instruction × Blob 32 × UInt64 × UInt64) h'
  obtain ⟨is, rest', his, hrest', rfl⟩ := ser_pair hrest
  obtain ⟨hash, rest'', hhash, hrest'', rfl⟩ := ser_pair hrest'
  have hsigners := outweighs_pubkey.list hss
  have hinstructions := outweighs_instruction.list his
  have hlength := length_timestampBytes hts
  have hbinding : hash.length = 32 := by
    rw [← Option.some.inj hhash]
    exact recentBlockhash.length_eq
  dsimp only [nodeMessage] at hsigners hinstructions
  rw [HimshaMessage.bodyBytes]
  simp only [List.length_append]
  omega

/-- The last signer, read as the program of an instruction with no accounts and no data. -/
def lastSignerCalled (init : List Pubkey) (last : Pubkey) (instructions : List Instruction)
    (timestamp : Int) : HimshaMessage :=
  ⟨init, ⟨last, [], []⟩ :: instructions, timestamp⟩

/-- **Where the signers end is not hashed.** -/
theorem preimage_ambiguous (h : m.signers ≠ []) :
    ∃ m' ≠ m, library.preimage m' = library.preimage m := by
  obtain ⟨signers, instructions, timestamp⟩ := m
  obtain ⟨init, last, rfl⟩ := (List.eq_nil_or_concat' signers).resolve_left h
  refine ⟨lastSignerCalled init last instructions timestamp, fun hsame => ?_, ?_⟩
  · have hsigners := congrArg (·.signers.length) hsame
    simp [lastSignerCalled] at hsigners
  · have hbody : (lastSignerCalled init last instructions timestamp).bodyBytes =
        (⟨init ++ [last], instructions, timestamp⟩ : HimshaMessage).bodyBytes := by
      simp [lastSignerCalled, HimshaMessage.bodyBytes, instructionBytes]
    unfold Library.preimage
    rw [hbody]
    rfl

/-- A client and the node agree on a message: both hash it to the same, and what the client hashes
    is of no other message. -/
def AgreeOn (library : Library) (m : HimshaMessage) (recentBlockhash : Blob 32)
    (chainId : UInt64) : Prop :=
  library.hash m = some (nodeMessage m recentBlockhash chainId).hash ∧
    Function.Injective library.preimage

/-- **A client and the node agree on no message.** The bytes that they hash are never the same, and
    where there is a signer another message has the same bytes for the client. -/
theorem never_agree (library : Library) (m : HimshaMessage) (recentBlockhash : Blob 32)
    (chainId : UInt64) :
    ¬ AgreeOn library m recentBlockhash chainId ∧
    (∀ bs, library.preimage m = some bs →
      toVec (nodeMessage m recentBlockhash chainId) ≠ some bs) ∧
    (m.signers ≠ [] → ∃ m' ≠ m, library.preimage m' = library.preimage m) := by
  refine ⟨fun h => ?_, fun bs h h' => ?_, preimage_ambiguous⟩
  · obtain ⟨m', hne, hsame⟩ : ∃ m' ≠ (⟨[default], [], 0⟩ : HimshaMessage),
        library.preimage m' = library.preimage ⟨[default], [], 0⟩ := preimage_ambiguous (by simp)
    exact hne (h.2 hsame)
  · exact absurd (preimage_shorter h h') (Nat.lt_irrefl _)

end

/-- A message that one key signs. -/
def soleSigner : HimshaMessage := ⟨[.repeated 1], [], 5⟩

/-- **What is signed for the node is not what a client signs**, and the signer of one message is the
    program that another one calls. -/
theorem signed_apart :
    some (nodeMessage soleSigner (.zero 32) 1).hash ∉
      [Library.typeScript, .python, .dart].map (·.hash soleSigner) ∧
    [Library.typeScript, .python, .dart].map (·.preimage ⟨[], [⟨.repeated 1, [], []⟩], 5⟩) =
      [Library.typeScript, .python, .dart].map (·.preimage soleSigner) :=
  ⟨by decide +kernel, by decide +kernel⟩

end Proof
end Himsha
