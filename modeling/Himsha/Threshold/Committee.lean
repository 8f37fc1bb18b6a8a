import Himsha.Lib.Comp
import Himsha.Lib.Retry
import Himsha.Lib.Table
import Himsha.Runtime.Pubkey

/-!
# `himsha-threshold`: signing committees

A committee holds the shares of a key and signs with a quorum of them. The cryptography is in two
crates, `frost-secp256k1` and `frost-secp256k1-tr`, which offer the same functions; `Frost` is what
the committees call of either. The two committees differ in nothing but the crate.
-/

set_option autoImplicit false

namespace Himsha
namespace Threshold

open Himsha.Lib Himsha.Runtime

/-- The types and functions of a FROST crate. The last three functions are its accessors, of which
    its documentation speaks. -/
structure Frost where
  Identifier : Type
  KeyPackage : Type
  PublicKeyPackage : Type
  SecretShare : Type
  Round1Secret : Type
  Round1Package : Type
  Round2Secret : Type
  Round2Package : Type
  SigningShare : Type
  Nonces : Type
  Commitments : Type
  SigningPackage : Type
  SignatureShare : Type
  Signature : Type
  Error : Type
  Rng : Type
  identifierEq : DecidableEq Identifier
  /-- `Identifier::try_from`. -/
  tryFromU16 : UInt16 → Except Error Identifier
  /-- Of the number of shares and the threshold. -/
  generateWithDealer : UInt16 → UInt16 → Rng →
    Except Error (List (Identifier × SecretShare) × PublicKeyPackage)
  /-- `KeyPackage::try_from`. -/
  tryFromShare : SecretShare → Except Error KeyPackage
  /-- `dkg::part1`, of the number of shares and the threshold. -/
  part1 : Identifier → UInt16 → UInt16 → Rng → Except Error ((Round1Secret × Round1Package) × Rng)
  /-- `dkg::part2`. -/
  part2 : Round1Secret → Table Identifier Round1Package →
    Except Error (Round2Secret × List (Identifier × Round2Package))
  /-- `dkg::part3`. -/
  part3 : Round2Secret → Table Identifier Round1Package → Table Identifier Round2Package →
    Except Error (KeyPackage × PublicKeyPackage)
  signingShare : KeyPackage → SigningShare
  /-- `round1::commit`. -/
  commit : SigningShare → Rng → (Nonces × Commitments) × Rng
  /-- `SigningPackage::new`. -/
  newPackage : Table Identifier Commitments → List UInt8 → SigningPackage
  /-- `round2::sign`. -/
  sign : SigningPackage → Nonces → KeyPackage → Except Error SignatureShare
  aggregate : SigningPackage → Table Identifier SignatureShare → PublicKeyPackage →
    Except Error Signature
  serialize : Signature → Except Error (List UInt8)
  culprit : Error → Option Identifier
  /-- `to_string`. -/
  display : Error → String
  identifier : KeyPackage → Identifier
  minSigners : KeyPackage → UInt16
  commitments : Nonces → Commitments

instance (F : Frost) : DecidableEq F.Identifier := F.identifierEq

/-- What the documentation of the crates says of these functions. -/
structure Frost.Documented (F : Frost) : Prop where
  /-- The dealer makes as many shares as it is asked for. -/
  dealer_length : ∀ {total threshold rng shares pubkeys},
    F.generateWithDealer total threshold rng = .ok (shares, pubkeys) →
    shares.length = total.toNat
  /-- A key package is for the identifier and the threshold that its share was made for. -/
  dealer_key : ∀ {total threshold rng shares pubkeys id share kp},
    F.generateWithDealer total threshold rng = .ok (shares, pubkeys) → (id, share) ∈ shares →
    F.tryFromShare share = .ok kp → F.identifier kp = id ∧ F.minSigners kp = threshold
  /-- So is the one that a participant derives from its own secrets. -/
  dkg_key : ∀ {id total threshold rng rng' sec pkg pkgs sec2 sent pkgs' inbox kp pubkeys},
    F.part1 id total threshold rng = .ok ((sec, pkg), rng') → F.part2 sec pkgs = .ok (sec2, sent) →
    F.part3 sec2 pkgs' inbox = .ok (kp, pubkeys) →
    F.identifier kp = id ∧ F.minSigners kp = threshold
  /-- Nonces come with their commitments. -/
  commit_nonces : ∀ share rng,
    F.commitments (F.commit share rng).1.1 = (F.commit share rng).1.2
  /-- A signer signs a package that holds commitments enough, and its own among them. -/
  sign_ok : ∀ {commitments nonces kp} (message : List UInt8),
    commitments.lookup (F.identifier kp) = some (F.commitments nonces) →
    (F.minSigners kp).toNat ≤ commitments.keys.card →
    ∃ share, F.sign (F.newPackage commitments message) nonces kp = .ok share
  /-- An aggregate signature has a serialization. -/
  serialize_ok : ∀ {pkg shares pubkeys sig}, F.aggregate pkg shares pubkeys = .ok sig →
    ∃ bytes, F.serialize sig = .ok bytes

inductive ThresholdError where
  | notEnoughSigners (needed : UInt16) (got : Nat)
  | unknownSigner
  | frost (text : String)
  | robustExhausted (excluded : Nat)
deriving DecidableEq

def ThresholdError.message : ThresholdError → String
  | notEnoughSigners needed got =>
      "need at least " ++ toString needed ++ " signers, got " ++ toString got
  | unknownSigner => "unknown signer id"
  | frost text => "frost error: " ++ text
  | robustExhausted excluded =>
      "robust signing exhausted: " ++ toString excluded ++
        " signer(s) disruptive, fewer than threshold honest remain"

/-- How a call ends that does not return a value. -/
inductive Stop where
  | error (e : ThresholdError)
  | panic
deriving DecidableEq

/-- `?` on a call of the crate. -/
def called {F : Frost} {α : Type} : Except F.Error α → Except Stop α
  | .ok a => .ok a
  | .error e => .error (.error (.frost (F.display e)))

/-- `ok_or`. -/
def orError {α : Type} (e : ThresholdError) : Option α → Except Stop α
  | some a => .ok a
  | none => .error (.error e)

/-- `map[&key]`, which panics where there is no entry. -/
def index {K V : Type} [DecidableEq K] (m : Table K V) (key : K) : Except Stop V :=
  match m.lookup key with
  | some v => .ok v
  | none => .error .panic

/-- The fields of either committee. -/
structure Signers (F : Frost) where
  threshold : UInt16
  keyPackages : Table F.Identifier F.KeyPackage
  pubkeys : F.PublicKeyPackage

namespace Signers

variable {F : Frost}

/-! ## Key generation -/

/-- `generate`, via a trusted dealer. -/
def generate (threshold total : UInt16) (rng : F.Rng) : Except Stop (Signers F) := do
  let (shares, pubkeys) ← called (F.generateWithDealer total threshold rng)
  let keyPackages ← shares.foldlM (fun (keyPackages : Table F.Identifier F.KeyPackage) share => do
    return keyPackages.insert share.1 (← called (F.tryFromShare share.2))) ∅
  return { threshold, keyPackages, pubkeys }

/-- The secrets and packages of the first round, and the state of the generator. -/
structure Round1 (F : Frost) where
  secret : Table F.Identifier F.Round1Secret
  pkg : Table F.Identifier F.Round1Package
  rng : F.Rng

/-- Each participant broadcasts a commitment package. -/
def round1 (threshold total : UInt16) (r : Round1 F) (id : F.Identifier) :
    Except Stop (Round1 F) := do
  let ((sec, pkg), rng) ← called (F.part1 id total threshold r.rng)
  return { secret := r.secret.insert id sec, pkg := r.pkg.insert id pkg, rng }

/-- The secrets of the first round that are left, those of the second, and what was sent. -/
structure Round2 (F : Frost) where
  left : Table F.Identifier F.Round1Secret
  secret : Table F.Identifier F.Round2Secret
  inbox : Table F.Identifier (Table F.Identifier F.Round2Package)

/-- Each participant sends a package to every other participant. The packages of the others are
    all but its own. -/
def round2 (pkg : Table F.Identifier F.Round1Package) (r : Round2 F) (id : F.Identifier) :
    Except Stop (Round2 F) := do
  let secret ← orError .unknownSigner (r.left.lookup id)
  let (sec2, outgoing) ← called (F.part2 secret (pkg.erase id))
  let inbox ← outgoing.foldlM (fun inbox sent => do
    let box ← orError .unknownSigner (inbox.lookup sent.1)
    return inbox.insert sent.1 (box.insert id sent.2)) r.inbox
  return { left := r.left.erase id, secret := r.secret.insert id sec2, inbox }

/-- Each participant derives its key share and the shared group key. -/
def round3 (pkg : Table F.Identifier F.Round1Package) (r2 : Round2 F)
    (r : Table F.Identifier F.KeyPackage × Option F.PublicKeyPackage) (id : F.Identifier) :
    Except Stop (Table F.Identifier F.KeyPackage × Option F.PublicKeyPackage) := do
  let sec2 ← index r2.secret id
  let box ← index r2.inbox id
  let (kp, pubpkg) ← called (F.part3 sec2 (pkg.erase id) box)
  return (r.1.insert id kp, some pubpkg)

/-- `generate_dkg`, without a dealer. -/
def generateDkg (threshold total : UInt16) (rng : F.Rng) : Except Stop (Signers F) := do
  let ids ← (List.range total.toNat).mapM fun i => called (F.tryFromU16 (UInt16.ofNat (i + 1)))
  let r1 ← ids.foldlM (round1 threshold total) { secret := ∅, pkg := ∅, rng }
  let inbox := ids.foldl (fun m id => m.insert id ∅) ∅
  let r2 ← ids.foldlM (round2 r1.pkg) { left := r1.secret, secret := ∅, inbox }
  let (keyPackages, pubkeys) ← ids.foldlM (round3 r1.pkg r2) (∅, none)
  let pubkeys ← orError (.notEnoughSigners 1 0) pubkeys
  return { threshold, keyPackages, pubkeys }

/-! ## Robust signing -/

/-- The aggregate signature, how many rounds it took, and how many signers were excluded. -/
structure RobustSignature where
  signature : List UInt8
  rounds : Nat
  excluded : Nat
deriving DecidableEq

/-- What `sign_robust` keeps from pass to pass of its loop. -/
structure Session (F : Frost) where
  candidates : List F.Identifier
  excluded : Nat
  rounds : Nat
  rng : F.Rng

/-- Nonces and their commitments, and the state of the generator. -/
structure Committed (F : Frost) where
  nonces : Table F.Identifier F.Nonces
  commitments : Table F.Identifier F.Commitments
  rng : F.Rng

section
variable (K : Signers F)

/-- The body of the first loop over the quorum: nonce commitments. -/
def commitOne (c : Committed F) (id : F.Identifier) : Except Stop (Committed F) := do
  let kp ← index K.keyPackages id
  let ((n, com), rng) := F.commit (F.signingShare kp) c.rng
  return { nonces := c.nonces.insert id n, commitments := c.commitments.insert id com, rng }

def commitAll (quorum : List F.Identifier) (rng : F.Rng) : Except Stop (Committed F) :=
  quorum.foldlM K.commitOne { nonces := ∅, commitments := ∅, rng }

/-- The body of the second: shares, each over the package that its signer signs. -/
def signOne (nonces : Table F.Identifier F.Nonces) (pkg : F.Identifier → F.SigningPackage)
    (shares : Table F.Identifier F.SignatureShare) (id : F.Identifier) :
    Except Stop (Table F.Identifier F.SignatureShare) := do
  let kp ← index K.keyPackages id
  let n ← index nonces id
  return shares.insert id (← called (F.sign (pkg id) n kp))

def signAll (nonces : Table F.Identifier F.Nonces) (pkg : F.Identifier → F.SigningPackage)
    (quorum : List F.Identifier) : Except Stop (Table F.Identifier F.SignatureShare) :=
  quorum.foldlM (K.signOne nonces pkg) ∅

/-- What a disruptive signer signs instead of the message. -/
def equivocation : List UInt8 := Pubkey.utf8 "BYZANTINE-EQUIVOCATION"

variable (message : List UInt8) (disruptive : List F.Identifier)

/-- The package that a signer signs. -/
def packageOf (commitments : Table F.Identifier F.Commitments) (id : F.Identifier) :
    F.SigningPackage :=
  if id ∈ disruptive then F.newPackage commitments equivocation
  else F.newPackage commitments message

/-- The end of a pass: the shares are aggregated, and on a bad share the aggregator names the
    culprit. -/
def conclude (s : Session F) (rounds : Nat) (c : Committed F)
    (shares : Table F.Identifier F.SignatureShare) :
    Except Stop (RobustSignature ⊕ Session F) :=
  match F.aggregate (F.newPackage c.commitments message) shares K.pubkeys with
  | .ok groupSig => do
      let signature ← called (F.serialize groupSig)
      return .inl { signature, rounds, excluded := s.excluded }
  | .error e =>
    match F.culprit e with
    | some bad =>
        let candidates := s.candidates.filter (· ≠ bad)
        .ok (.inr { candidates, excluded := s.excluded + 1, rounds, rng := c.rng })
    | none => .error (.error (.frost (F.display e)))

/-- One pass of the loop of `sign_robust`: a signature, or the session that the next pass starts
    from. The number of candidates is compared as a `u16`. -/
def attempt (s : Session F) : Except Stop (RobustSignature ⊕ Session F) :=
  if s.candidates.length % 2 ^ 16 < K.threshold.toNat then
    .error (.error (.robustExhausted s.excluded))
  else do
    let rounds := s.rounds + 1
    let quorum := s.candidates.take K.threshold.toNat
    let c ← K.commitAll quorum s.rng
    let shares ← K.signAll c.nonces (packageOf message disruptive c.commitments) quorum
    K.conclude message s rounds c shares

/-- The same, as a pass of a loop that ends with what the function returns. -/
def pass (s : Session F) : Except Stop RobustSignature ⊕ Session F :=
  match K.attempt message disruptive s with
  | .ok (.inl signature) => .inl (.ok signature)
  | .ok (.inr s') => .inr s'
  | .error stop => .inl (.error stop)

/-- The session that `sign_robust` starts from: the online members of the committee. -/
def start (online : List F.Identifier) (rng : F.Rng) : Session F where
  candidates := online.filter (· ∈ K.keyPackages)
  excluded := 0
  rounds := 0
  rng := rng

end

end Signers

/-- The committee of `lib.rs`. -/
structure Committee (F : Frost) extends Signers F

/-- The committee of `taproot.rs`. -/
structure TaprootCommittee (F : Frost) extends Signers F

section
variable {F : Frost}

def Committee.generate (threshold total : UInt16) (rng : F.Rng) : Except Stop (Committee F) := do
  return ⟨← Signers.generate threshold total rng⟩

def Committee.generateDkg (threshold total : UInt16) (rng : F.Rng) :
    Except Stop (Committee F) := do
  return ⟨← Signers.generateDkg threshold total rng⟩

def TaprootCommittee.generate (threshold total : UInt16) (rng : F.Rng) :
    Except Stop (TaprootCommittee F) := do
  return ⟨← Signers.generate threshold total rng⟩

/-- What `sign_robust` returns within `n` passes of its loop, `none` where it goes on. -/
def Committee.signRobust (c : Committee F) (message : List UInt8)
    (online disruptive : List F.Identifier) (rng : F.Rng) (n : Nat) :
    Option (Except Stop Signers.RobustSignature) :=
  Retry.within (c.pass message disruptive) n (c.start online rng)

def TaprootCommittee.signRobust (c : TaprootCommittee F) (message : List UInt8)
    (online disruptive : List F.Identifier) (rng : F.Rng) (n : Nat) :
    Option (Except Stop Signers.RobustSignature) :=
  Retry.within (c.pass message disruptive) n (c.start online rng)

end

end Threshold
end Himsha
