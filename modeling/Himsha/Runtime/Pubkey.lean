import Himsha.Lib.Sha256

/-!
# `pubkey.rs` and the well-known program ids

A `Pubkey` is 32 bytes. The ids of the built-in programs are digests of fixed seeds; they are
written out here, so that comparing one costs nothing, and `builtins_fromSeed` says that they are
those digests.
-/

set_option autoImplicit false

namespace Himsha
namespace Runtime

open Lib

/-- 32-byte identifier for accounts, programs, and signers. -/
structure Pubkey where
  bytes : Blob 32
deriving DecidableEq

instance : Borsh Pubkey := .iso Pubkey.bytes Pubkey.mk fun _ => rfl

instance : Canonical Pubkey := .iso (fun _ => rfl) fun _ => rfl

instance : Sized Pubkey := .iso fun _ => rfl

instance : Inhabited Pubkey := ⟨⟨.zero 32⟩⟩

namespace Pubkey

/-- `Pubkey::from([b; 32])`. -/
def repeated (b : UInt8) : Pubkey := ⟨⟨List.replicate 32 b, by simp⟩⟩

/-- Deterministic key from a human-readable seed. -/
def fromSeed (seed : List UInt8) : Pubkey := ⟨sha256 seed⟩

def pdaBump : UInt8 := 255

/-- The bytes of an ASCII or UTF-8 string literal, `b"..."`. -/
def utf8 (s : String) : List UInt8 := s.toByteArray.data.toList

/-- Derive a program address from seeds and a program id. There is no search: the bump is
    always `pdaBump`. -/
def findProgramAddress (seeds : List (List UInt8)) (programId : Pubkey) : Pubkey × UInt8 :=
  (⟨sha256 (seeds.flatten ++ [pdaBump] ++ programId.bytes.bytes ++ utf8 "himsha::pda")⟩, pdaBump)

def base58Alphabet : List Char :=
  "123456789ABCDEFGHJKLMNPQRSTUVWXYZabcdefghijkmnopqrstuvwxyz".toList

/-- At most `fuel` base-58 digits of a number, most significant first, none for zero. -/
def base58Digits : Nat → Nat → List Char
  | 0, _ => []
  | _, 0 => []
  | fuel + 1, n => base58Digits fuel (n / 58) ++ [base58Alphabet.getD (n % 58) '1']

/-- The key as a big-endian number. -/
def beNat (k : Pubkey) : Nat := leNat k.bytes.bytes.reverse

/-- A leading zero byte is a leading `1`; 44 digits are enough for 32 bytes. -/
def toBase58 (k : Pubkey) : String :=
  let zeros := k.bytes.bytes.takeWhile (· == 0)
  String.ofList (zeros.map (fun _ => '1') ++ base58Digits 44 k.beNat)

theorem beNat_injective {a b : Pubkey} (h : a.beNat = b.beNat) : a = b := by
  have hbytes : a.bytes.bytes.reverse = b.bytes.bytes.reverse := by
    rw [← leBytes_leNat a.bytes.bytes.reverse, ← leBytes_leNat b.bytes.bytes.reverse]
    unfold beNat at h
    rw [h, List.length_reverse, List.length_reverse, a.bytes.length_eq, b.bytes.length_eq]
  cases a
  cases b
  exact congrArg Pubkey.mk (Blob.ext (List.reverse_injective hbytes))

/-- The byte order of keys, which for strings of one length is that of the numbers. -/
def Le (a b : Pubkey) : Prop := a.beNat ≤ b.beNat

instance : DecidableRel Le := fun a b => inferInstanceAs (Decidable (a.beNat ≤ b.beNat))

instance : IsTrans Pubkey Le := ⟨fun _ _ _ => Nat.le_trans⟩

instance : Std.Antisymm Le := ⟨fun _ _ h h' => beNat_injective (Nat.le_antisymm h h')⟩

instance : Std.Total Le := ⟨fun a b => Nat.le_total a.beNat b.beNat⟩

end Pubkey

namespace ProgramIds

/-- Creates and manages accounts. -/
def systemProgram : Pubkey :=
  ⟨⟨[88, 45, 52, 139, 92, 161, 176, 199, 204, 163, 116, 1, 155, 104, 146, 148,
     14, 243, 70, 30, 54, 209, 83, 71, 136, 76, 238, 116, 183, 212, 147, 31], rfl⟩⟩

/-- SPL-compatible fungible token program. -/
def tokenProgram : Pubkey :=
  ⟨⟨[241, 115, 220, 209, 62, 124, 36, 191, 124, 19, 178, 252, 64, 254, 35, 129,
     13, 107, 153, 112, 147, 50, 217, 84, 214, 1, 184, 205, 150, 12, 26, 97], rfl⟩⟩

/-- Associated token account program. -/
def ataProgram : Pubkey :=
  ⟨⟨[205, 202, 236, 155, 51, 185, 101, 7, 17, 214, 95, 54, 56, 101, 9, 54,
     131, 192, 145, 235, 85, 91, 143, 164, 208, 18, 197, 143, 209, 198, 50, 57], rfl⟩⟩

/-- Constant-product AMM. -/
def swapProgram : Pubkey :=
  ⟨⟨[55, 113, 35, 169, 227, 227, 64, 149, 72, 135, 174, 66, 195, 130, 147, 63,
     48, 4, 180, 254, 109, 154, 199, 17, 240, 127, 33, 212, 229, 191, 88, 66], rfl⟩⟩

/-- Bitcoin inscription lending. -/
def lendingProgram : Pubkey :=
  ⟨⟨[202, 86, 25, 168, 110, 244, 20, 246, 98, 9, 214, 20, 82, 243, 210, 162,
     80, 142, 184, 147, 10, 194, 216, 92, 251, 245, 132, 58, 180, 4, 253, 17], rfl⟩⟩

/-- On-chain NFT metadata. -/
def nftMetadataProgram : Pubkey :=
  ⟨⟨[144, 113, 183, 144, 132, 30, 156, 115, 141, 236, 66, 118, 46, 34, 132, 192,
     214, 248, 238, 106, 117, 60, 160, 97, 88, 104, 109, 106, 199, 219, 213, 195], rfl⟩⟩

/-- Bitcoin Runes fungible-token protocol. -/
def runesProgram : Pubkey :=
  ⟨⟨[135, 206, 11, 232, 90, 128, 212, 148, 48, 43, 224, 177, 200, 42, 210, 127,
     102, 36, 71, 146, 76, 49, 220, 232, 9, 217, 167, 247, 235, 31, 198, 196], rfl⟩⟩

/-- Over-collateralized money market. -/
def moneyMarketProgram : Pubkey :=
  ⟨⟨[158, 131, 205, 109, 30, 88, 93, 238, 190, 136, 97, 188, 43, 48, 236, 167,
     188, 152, 80, 29, 38, 38, 47, 43, 195, 85, 42, 159, 139, 25, 1, 195], rfl⟩⟩

/-- Automated yield vault. -/
def vaultProgram : Pubkey :=
  ⟨⟨[171, 41, 189, 49, 51, 20, 169, 198, 79, 96, 53, 245, 36, 53, 90, 180,
     179, 156, 192, 12, 144, 163, 18, 135, 237, 127, 147, 1, 69, 229, 126, 182], rfl⟩⟩

/-- Signed price-feed oracle. -/
def oracleProgram : Pubkey :=
  ⟨⟨[82, 70, 239, 175, 53, 167, 223, 93, 196, 44, 155, 165, 16, 233, 93, 200,
     50, 211, 175, 173, 59, 117, 28, 61, 185, 33, 220, 5, 254, 1, 121, 95], rfl⟩⟩

/-- Every program id that the node pre-registers at genesis. -/
def builtins : List Pubkey :=
  [systemProgram, tokenProgram, ataProgram, swapProgram, lendingProgram, nftMetadataProgram,
    runesProgram, moneyMarketProgram, vaultProgram, oracleProgram]

theorem builtins_fromSeed :
    builtins = ["system", "token", "ata", "swap", "lending", "nft_metadata", "runes",
      "money_market", "vault", "oracle"].map fun name =>
        Pubkey.fromSeed (Pubkey.utf8 ("himsha::" ++ name ++ "_program")) := by
  decide +kernel

end ProgramIds

end Runtime
end Himsha
