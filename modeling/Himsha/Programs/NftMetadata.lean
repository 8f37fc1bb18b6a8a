import Himsha.Runtime.Cpi

/-!
# The NFT metadata program

Human-readable metadata for a mint. Authority is compared by key only: no handler looks at a
signer flag.
-/

set_option autoImplicit false

namespace Himsha
namespace Programs
namespace NftMetadata

open Himsha.Lib Himsha.Runtime

structure Creator where
  address : Pubkey
  share : UInt8
  verified : Bool
deriving DecidableEq

instance : Borsh Creator :=
  .iso (fun c => (c.address, c.share, c.verified)) (fun (a, s, v) => ⟨a, s, v⟩) fun _ => rfl

structure Metadata where
  mint : Pubkey
  updateAuthority : Pubkey
  name : String
  symbol : String
  uri : String
  sellerFeeBasisPoints : UInt16
  creators : List Creator
  isMutable : Bool
deriving DecidableEq

instance : Borsh Metadata :=
  .iso (fun m => (m.mint, m.updateAuthority, m.name, m.symbol, m.uri, m.sellerFeeBasisPoints,
      m.creators, m.isMutable))
    (fun (m, u, n, s, r, f, c, i) => ⟨m, u, n, s, r, f, c, i⟩) fun _ => rfl

inductive MetadataInstruction where
  /-- `[0]` = metadata, `[1]` = mint, `[2]` = update authority. -/
  | create (name symbol uri : String) (sellerFeeBasisPoints : UInt16) (creators : List Creator)
  /-- `[0]` = metadata, `[1]` = update authority. -/
  | update (name uri : Option String) (sellerFeeBasisPoints : Option UInt16)
  | verifyCreator
  | makeImmutable
deriving DecidableEq

namespace MetadataInstruction

def ser : MetadataInstruction → Option (List UInt8)
  | .create name symbol uri fee creators => tag 0 (name, symbol, uri, fee, creators)
  | .update name uri fee => tag 1 (name, uri, fee)
  | .verifyCreator => tag 2 ()
  | .makeImmutable => tag 3 ()

def de : List UInt8 → Option (MetadataInstruction × List UInt8)
  | 0 :: bs => untag (fun (n, s, u, f, c) => .create n s u f c) bs
  | 1 :: bs => untag (fun (n, u, f) => .update n u f) bs
  | 2 :: bs => untag (fun () => .verifyCreator) bs
  | 3 :: bs => untag (fun () => .makeImmutable) bs
  | _ => none

instance : Borsh MetadataInstruction where
  ser := ser
  de := de
  de_ser := by
    intro ix bs h rest
    cases ix <;>
    · obtain ⟨pre, rfl, hde⟩ := untag_tag (β := MetadataInstruction) h
      simp only [List.cons_append, de, hde]

end MetadataInstruction

/-- The sum of the shares, taken in `u16`. -/
def shareSum (π : Profile) (creators : List Creator) : Option Nat :=
  creators.foldlM (fun sum c => π.plain 16 (sum + c.share.toNat)) 0

def run (π : Profile) (accounts : List AccountInfo) :
    MetadataInstruction → Outcome (List AccountInfo)
  | .create name symbol uri sellerFeeBasisPoints creators => do
      let mint ← slot accounts 1
      let authority ← slot accounts 2
      let existing : Option Metadata := tryFromSlice (← slot accounts 0).data
      require (existing.all (·.name.isEmpty)) .alreadyInitialized
      let sum ← orPanic (shareSum π creators)
      require (creators.isEmpty || sum == 100) .invalidInstruction
      store accounts 0 ({
        mint := mint.key
        updateAuthority := authority.key
        name, symbol, uri, sellerFeeBasisPoints, creators
        isMutable := true } : Metadata)
  | .update name uri sellerFeeBasisPoints => do
      let m : Metadata ← load accounts 0
      require m.isMutable .unauthorized
      require ((← slot accounts 1).key == m.updateAuthority) .unauthorized
      store accounts 0 { m with
        name := name.getD m.name
        uri := uri.getD m.uri
        sellerFeeBasisPoints := sellerFeeBasisPoints.getD m.sellerFeeBasisPoints }
  | .verifyCreator => do
      let m : Metadata ← load accounts 0
      let signer ← slot accounts 1
      store accounts 0 { m with
        creators := m.creators.map fun c : Creator =>
          if c.address == signer.key then { c with verified := true } else c }
  | .makeImmutable => do
      let m : Metadata ← load accounts 0
      require ((← slot accounts 1).key == m.updateAuthority) .unauthorized
      store accounts 0 { m with isMutable := false }

def process (π : Profile) (accounts : List AccountInfo) (data : List UInt8) :
    Outcome (List AccountInfo) := do
  let ix ← okOr .invalidInstruction (tryFromSlice data)
  run π accounts ix

end NftMetadata
end Programs
end Himsha
