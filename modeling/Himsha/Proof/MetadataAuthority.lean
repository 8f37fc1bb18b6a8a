import Himsha.Lib.Run
import Himsha.Proof.RecordCalls

/-!
# Who changes a metadata record

No handler of the metadata program looks at a signer flag. `metadata_writes` says what a call
writes, exactly: the checks a handler makes and the record that results. From it follows when a
change is lawful, which means signed by the update authority, or a creator's flag signed by the
creator, and of a record that is still mutable.
-/

set_option autoImplicit false

namespace Himsha
namespace Proof

open Himsha.Lib Himsha.Runtime Himsha.Programs

open NftMetadata

instance : Canonical Creator :=
  .iso (f := fun c : Creator => (c.address, c.share, c.verified))
    (g := fun (a, s, v) => ⟨a, s, v⟩) (fun _ => rfl) fun _ => rfl

instance : Canonical Metadata :=
  .iso (f := fun m : Metadata => (m.mint, m.updateAuthority, m.name, m.symbol, m.uri,
      m.sellerFeeBasisPoints, m.creators, m.isMutable))
    (g := fun (m, u, n, s, r, f, c, i) => ⟨m, u, n, s, r, f, c, i⟩) (fun _ => rfl) fun _ => rfl

instance : Reencodes MetadataInstruction where
  encodes := by
    intro bs rest ix h
    have hde : MetadataInstruction.de bs = some (ix, rest) := h
    unfold MetadataInstruction.de at hde
    split at hde
    · obtain ⟨⟨n, s, u, f, c⟩, rfl, hx⟩ := encodes_untag hde
      exact encodes_tag.mpr hx
    · obtain ⟨⟨n, u, f⟩, rfl, hx⟩ := encodes_untag hde
      exact encodes_tag.mpr hx
    · obtain ⟨x, rfl, hx⟩ := encodes_untag hde
      exact encodes_tag.mpr hx
    · obtain ⟨x, rfl, hx⟩ := encodes_untag hde
      exact encodes_tag.mpr hx
    · simp at hde

/-! ## What a call writes -/

/-- The creators come to 100 shares, if there are any. -/
def SharesOk (π : Profile) (creators : List Creator) : Prop :=
  ∃ sum, shareSum π creators = some sum ∧ (creators.isEmpty || sum == 100) = true

/-- The creators once a key has verified its own entries. -/
def verifiedBy (key : Pubkey) (creators : List Creator) : List Creator :=
  creators.map fun c => if c.address == key then { c with verified := true } else c

/-- What an instruction writes over what is held, from the accounts it is given. -/
def MetadataWrites (π : Profile) (accounts : List AccountInfo) (held : Option Metadata)
    (m' : Metadata) : MetadataInstruction → Prop
  | .create name symbol uri fee creators => ∃ mint authority, accounts[1]? = some mint ∧
      accounts[2]? = some authority ∧ (∀ m, held = some m → m.name = "") ∧ SharesOk π creators ∧
      m' = ⟨mint.key, authority.key, name, symbol, uri, fee, creators, true⟩
  | .update name uri fee => ∃ m authority, held = some m ∧ m.isMutable = true ∧
      accounts[1]? = some authority ∧ authority.key = m.updateAuthority ∧
      m' = { m with
        name := name.getD m.name
        uri := uri.getD m.uri
        sellerFeeBasisPoints := fee.getD m.sellerFeeBasisPoints }
  | .verifyCreator => ∃ m signer, held = some m ∧ accounts[1]? = some signer ∧
      m' = { m with creators := verifiedBy signer.key m.creators }
  | .makeImmutable => ∃ m authority, held = some m ∧ accounts[1]? = some authority ∧
      authority.key = m.updateAuthority ∧ m' = { m with isMutable := false }

section
variable {π : Profile} {a : AccountInfo} {rest mid : List AccountInfo}

/-- **What the program writes, exactly.** -/
theorem metadata_writes {ix : MetadataInstruction} :
    NftMetadata.run π (a :: rest) ix = .ok mid ↔
      ∃ m', MetadataWrites π (a :: rest) (tryFromSlice a.data) m' ix ∧
        store (a :: rest) 0 m' = .ok mid := by
  cases ix with
  | create name symbol uri fee creators =>
    simp only [NftMetadata.run, bind_eq_ok, slot_iff, require_eq_ok, orPanic_eq_ok,
      MetadataWrites, SharesOk]
    constructor
    · rintro ⟨mint, hmint, authority, hauthority, first, hfirst, _, hnew, sum, hsum, _, hshares,
        hstore⟩
      obtain rfl : a = first := Option.some.inj hfirst
      refine ⟨_, ⟨mint, authority, hmint, hauthority, fun m hm => ?_, ⟨sum, hsum, hshares⟩, rfl⟩,
        hstore⟩
      rw [hm, Option.all_some] at hnew
      exact String.isEmpty_iff.mp hnew
    · rintro ⟨m', ⟨mint, authority, hmint, hauthority, hnew, ⟨sum, hsum, hshares⟩, rfl⟩, hstore⟩
      refine ⟨mint, hmint, authority, hauthority, a, rfl, (), ?_, sum, hsum, (), hshares, hstore⟩
      cases hheld : (tryFromSlice a.data : Option Metadata) with
      | none => rfl
      | some m => exact String.isEmpty_iff.mpr (hnew m hheld)
  | update name uri fee =>
    simp only [NftMetadata.run, bind_eq_ok, slot_iff, require_eq_ok, load_first_iff,
      MetadataWrites]
    constructor
    · rintro ⟨m, hheld, _, hmutable, authority, hauthority, _, hkey, hstore⟩
      exact ⟨_, ⟨m, authority, hheld, hmutable, hauthority, beq_iff_eq.mp hkey, rfl⟩, hstore⟩
    · rintro ⟨m', ⟨m, authority, hheld, hmutable, hauthority, hkey, rfl⟩, hstore⟩
      exact ⟨m, hheld, (), hmutable, authority, hauthority, (), beq_iff_eq.mpr hkey, hstore⟩
  | verifyCreator =>
    simp only [NftMetadata.run, bind_eq_ok, slot_iff, load_first_iff, MetadataWrites]
    constructor
    · rintro ⟨m, hheld, signer, hsigner, hstore⟩
      exact ⟨_, ⟨m, signer, hheld, hsigner, rfl⟩, hstore⟩
    · rintro ⟨m', ⟨m, signer, hheld, hsigner, rfl⟩, hstore⟩
      exact ⟨m, hheld, signer, hsigner, hstore⟩
  | makeImmutable =>
    simp only [NftMetadata.run, bind_eq_ok, slot_iff, require_eq_ok, load_first_iff,
      MetadataWrites]
    constructor
    · rintro ⟨m, hheld, authority, hauthority, _, hkey, hstore⟩
      exact ⟨_, ⟨m, authority, hheld, hauthority, beq_iff_eq.mp hkey, rfl⟩, hstore⟩
    · rintro ⟨m', ⟨m, authority, hheld, hauthority, hkey, rfl⟩, hstore⟩
      exact ⟨m, hheld, authority, hauthority, (), beq_iff_eq.mpr hkey, hstore⟩

end

/-! ## What can be written -/

section
variable {π : Profile} {accounts : List AccountInfo}

theorem encodes_metadata {m : Metadata} : Encodes m ↔
    Encodes m.name ∧ Encodes m.symbol ∧ Encodes m.uri ∧ Encodes m.creators := by
  have hiso : Encodes m ↔ Encodes (m.mint, m.updateAuthority, m.name, m.symbol, m.uri,
      m.sellerFeeBasisPoints, m.creators, m.isMutable) := Iff.rfl
  rw [hiso]
  simp only [encodes_pair]
  exact ⟨fun h => ⟨h.2.2.1, h.2.2.2.1, h.2.2.2.2.1, h.2.2.2.2.2.2.1⟩,
    fun h => ⟨rfl, rfl, h.1, h.2.1, h.2.2.1, rfl, h.2.2.2, rfl⟩⟩

/-- A list of creators is limited by its length only. -/
theorem encodes_creators {creators : List Creator} :
    Encodes creators ↔ creators.length < 2 ^ 32 :=
  encodes_list.trans (and_iff_left fun _ _ => rfl)

theorem encodes_option {α : Type} [Borsh α] {o : Option α} (h : Encodes o) :
    ∀ x, o = some x → Encodes x := by
  rintro x rfl
  exact encodes_tag.mp h

/-- Whatever an instruction writes over a record can be encoded. -/
theorem writes_encode {held : Option Metadata} {m' : Metadata} {ix : MetadataInstruction}
    (hix : Encodes ix) (hheld : ∀ m, held = some m → Encodes m)
    (h : MetadataWrites π accounts held m' ix) : Encodes m' := by
  cases ix with
  | create name symbol uri fee creators =>
    obtain ⟨mint, authority, -, -, -, -, rfl⟩ := h
    have hall : Encodes (name, symbol, uri, fee, creators) := encodes_tag.mp hix
    simp only [encodes_pair] at hall
    exact encodes_metadata.mpr ⟨hall.1, hall.2.1, hall.2.2.1, hall.2.2.2.2⟩
  | update name uri fee =>
    obtain ⟨m, authority, hm, -, -, -, rfl⟩ := h
    have hall : Encodes (name, uri, fee) := encodes_tag.mp hix
    simp only [encodes_pair] at hall
    obtain ⟨hname, hsymbol, huri, hcreators⟩ := encodes_metadata.mp (hheld m hm)
    refine encodes_metadata.mpr ⟨?_, hsymbol, ?_, hcreators⟩
    · cases name with
      | none => exact hname
      | some n => exact encodes_option hall.1 n rfl
    · cases uri with
      | none => exact huri
      | some u => exact encodes_option hall.2.1 u rfl
  | verifyCreator =>
    obtain ⟨m, signer, hm, -, rfl⟩ := h
    obtain ⟨hname, hsymbol, huri, hcreators⟩ := encodes_metadata.mp (hheld m hm)
    refine encodes_metadata.mpr ⟨hname, hsymbol, huri, encodes_creators.mpr ?_⟩
    dsimp only
    rw [verifiedBy, List.length_map]
    exact encodes_creators.mp hcreators
  | makeImmutable =>
    obtain ⟨m, authority, hm, -, -, rfl⟩ := h
    have hall := encodes_metadata.mp (hheld m hm)
    exact encodes_metadata.mpr hall

/-! ## One call -/

/-- What is stored after a call. -/
def metadataNext (π : Profile) (stored : List UInt8) (c : RecordCall) : List UInt8 :=
  storedAfter stored (NftMetadata.process π (c.accounts stored) c.data)

/-- What is held in the account. -/
def heldMetadata (stored : List UInt8) : Option Metadata := tryFromSlice stored

/-- What a call writes, if anything. -/
def CallWrites (π : Profile) (stored : List UInt8) (c : RecordCall) (m' : Metadata) : Prop :=
  c.account.isWritable = true ∧ ∃ ix, tryFromSlice c.data = some ix ∧
    MetadataWrites π (c.accounts stored) (heldMetadata stored) m' ix

variable {stored : List UInt8} {c : RecordCall}

/-- **A call that writes a record leaves it.** -/
theorem callWrites_held {m' : Metadata} (h : CallWrites π stored c m') :
    heldMetadata (metadataNext π stored c) = some m' := by
  obtain ⟨hw, ix, hix, hwrites⟩ := h
  obtain ⟨data, hdata⟩ := (writes_encode (encodes_of_tryFromSlice hix)
    (fun m hm => encodes_of_tryFromSlice hm) hwrites).toVec
  have hstore : store (c.accounts stored) 0 m' =
      .ok ({ c.account with data } :: c.others) :=
    store_encodable (a := { c.account with data := stored }) hw hdata
  have hrun : NftMetadata.run π (c.accounts stored) ix =
      .ok ({ c.account with data } :: c.others) :=
    metadata_writes.mpr ⟨m', hwrites, hstore⟩
  have hprocess : NftMetadata.process π (c.accounts stored) c.data =
      .ok ({ c.account with data } :: c.others) := by
    unfold NftMetadata.process
    rw [hix]
    exact hrun
  unfold metadataNext
  rw [hprocess]
  exact tryFromSlice_toVec hdata

/-- **A call that writes none leaves what is stored.** -/
theorem not_callWrites_next (h : ∀ m', ¬ CallWrites π stored c m') :
    metadataNext π stored c = stored := by
  unfold metadataNext
  cases hprocess : NftMetadata.process π (c.accounts stored) c.data with
  | error e => rfl
  | ok mid =>
    obtain ⟨ix, hix, hrun⟩ := bind_eq_ok.mp hprocess
    obtain ⟨m', hwrites, hstore⟩ := metadata_writes.mp hrun
    obtain ⟨hw, -⟩ := store_first_iff.mp hstore
    exact absurd ⟨hw, ix, okOr_eq_ok.mp hix, hwrites⟩ (h m')

end

/-! ## Lawful changes -/

/-- Only flags of creators have changed, each with the signature of the creator. -/
def OnlyVerified (accounts : List AccountInfo) (m m' : Metadata) : Prop :=
  m' = { m with creators := m'.creators } ∧ List.Forall₂ (fun c c' : Creator =>
    c' = c ∨ SignedBy accounts c.address ∧ c' = { c with verified := true })
    m.creators m'.creators

/-- A record stays what it is; or it is mutable, and what changes is signed by its update
    authority, or is the flag of a creator that signs. -/
def LawfulChange (accounts : List AccountInfo) (m : Metadata) (after : Option Metadata) : Prop :=
  after = some m ∨ m.isMutable = true ∧ (SignedBy accounts m.updateAuthority ∨
    ∃ m', after = some m' ∧ OnlyVerified accounts m m')

def LawfulCall (π : Profile) (stored : List UInt8) (c : RecordCall) : Prop :=
  ∀ m, heldMetadata stored = some m →
    LawfulChange (c.accounts stored) m (heldMetadata (metadataNext π stored c))

/-- What has to be so for a call of an instruction to be lawful on a record, from what it is
    given. -/
def MetadataCare (π : Profile) (accounts : List AccountInfo) (m : Metadata) :
    MetadataInstruction → Prop
  | .create name symbol uri fee creators => ∀ mint authority, accounts[1]? = some mint →
      accounts[2]? = some authority → m.name = "" → SharesOk π creators →
      m = ⟨mint.key, authority.key, name, symbol, uri, fee, creators, true⟩ ∨
        m.isMutable = true ∧ (SignedBy accounts m.updateAuthority ∨ OnlyVerified accounts m
          ⟨mint.key, authority.key, name, symbol, uri, fee, creators, true⟩)
  | .update name uri fee => ∀ authority, accounts[1]? = some authority → m.isMutable = true →
      authority.key = m.updateAuthority →
      (name.getD m.name = m.name ∧ uri.getD m.uri = m.uri ∧
        fee.getD m.sellerFeeBasisPoints = m.sellerFeeBasisPoints) ∨
        SignedBy accounts m.updateAuthority
  | .verifyCreator => ∀ signer, accounts[1]? = some signer →
      (∀ creator ∈ m.creators, creator.address = signer.key → creator.verified = true) ∨
        m.isMutable = true ∧ (SignedBy accounts signer.key ∨ SignedBy accounts m.updateAuthority)
  | .makeImmutable => ∀ authority, accounts[1]? = some authority →
      authority.key = m.updateAuthority →
      m.isMutable = false ∨ SignedBy accounts m.updateAuthority

def CarefulCall (π : Profile) (stored : List UInt8) (c : RecordCall) : Prop :=
  c.account.isWritable = true → ∀ ix m, tryFromSlice c.data = some ix →
    heldMetadata stored = some m → MetadataCare π (c.accounts stored) m ix

section
variable {π : Profile} {accounts : List AccountInfo} {m : Metadata}

/-- Verifying changes nothing where all entries of the key are verified. -/
theorem verifiedBy_eq_self {key : Pubkey} {creators : List Creator} :
    verifiedBy key creators = creators ↔
      ∀ creator ∈ creators, creator.address = key → creator.verified = true := by
  have hid : verifiedBy key creators = creators ↔
      verifiedBy key creators = creators.map fun creator => creator := by
    rw [List.map_id']
  rw [hid, verifiedBy, List.map_inj_left]
  refine forall₂_congr fun creator _ => ?_
  by_cases hkey : creator.address = key
  · rw [if_pos (beq_iff_eq.mpr hkey)]
    constructor
    · intro h _
      rw [← h]
    · intro h
      rw [← h hkey]
  · rw [if_neg fun h => hkey (beq_iff_eq.mp h)]
    exact ⟨fun _ h => absurd h hkey, fun _ => rfl⟩

/-- What a signer verifies is its own. -/
theorem onlyVerified_verifiedBy {key : Pubkey} (hsigned : SignedBy accounts key) :
    OnlyVerified accounts m { m with creators := verifiedBy key m.creators } := by
  refine ⟨rfl, ?_⟩
  dsimp only [verifiedBy]
  rw [List.forall₂_map_right_iff, List.forall₂_same]
  intro creator _
  by_cases hkey : creator.address = key
  · rw [if_pos (beq_iff_eq.mpr hkey), hkey]
    exact .inr ⟨hsigned, rfl⟩
  · rw [if_neg fun h => hkey (beq_iff_eq.mp h)]
    exact .inl rfl

/-- What changes entries of a key without a signature is not lawful. -/
theorem verified_of_onlyVerified {key : Pubkey} (hunsigned : ¬ SignedBy accounts key)
    (h : OnlyVerified accounts m { m with creators := verifiedBy key m.creators }) :
    ∀ creator ∈ m.creators, creator.address = key → creator.verified = true := by
  have hpairs := h.2
  dsimp only [verifiedBy] at hpairs
  rw [List.forall₂_map_right_iff, List.forall₂_same] at hpairs
  intro creator hmem hkey
  rcases hpairs creator hmem with hsame | ⟨hsigned, -⟩
  · rw [if_pos (beq_iff_eq.mpr hkey)] at hsame
    rw [← hsame]
  · rw [hkey] at hsigned
    exact absurd hsigned hunsigned

/-- **A careful instruction is lawful, and no other is.** -/
theorem lawful_iff_care {m' : Metadata} {ix : MetadataInstruction}
    (hwrites : MetadataWrites π accounts (some m) m' ix) :
    LawfulChange accounts m (some m') ↔ MetadataCare π accounts m ix := by
  cases ix with
  | create name symbol uri fee creators =>
    obtain ⟨mint, authority, hmint, hauthority, hnew, hshares, rfl⟩ := hwrites
    constructor
    · intro hlawful mint' authority' hmint' hauthority' _ _
      obtain rfl : mint = mint' := Option.some.inj (hmint.symm.trans hmint')
      obtain rfl : authority = authority' := Option.some.inj (hauthority.symm.trans hauthority')
      rcases hlawful with hsame | ⟨hmutable, hsigned | hverified⟩
      · exact .inl (Option.some.inj hsame).symm
      · exact .inr ⟨hmutable, .inl hsigned⟩
      · obtain ⟨m', hm', honly⟩ := hverified
        obtain rfl : _ = m' := Option.some.inj hm'
        exact .inr ⟨hmutable, .inr honly⟩
    · intro hcare
      rcases hcare mint authority hmint hauthority (hnew m rfl) hshares with
        hsame | ⟨hmutable, hsigned | honly⟩
      · exact .inl (by rw [← hsame])
      · exact .inr ⟨hmutable, .inl hsigned⟩
      · exact .inr ⟨hmutable, .inr ⟨_, rfl, honly⟩⟩
  | update name uri fee =>
    obtain ⟨m₀, authority, hheld, hmutable, hauthority, hkey, rfl⟩ := hwrites
    obtain rfl : m = m₀ := Option.some.inj hheld
    constructor
    · intro hlawful authority' hauthority' _ _
      rcases hlawful with hsame | ⟨-, hsigned | hverified⟩
      · have heq := Option.some.inj hsame
        exact .inl ⟨congrArg Metadata.name heq, congrArg Metadata.uri heq,
          congrArg Metadata.sellerFeeBasisPoints heq⟩
      · exact .inr hsigned
      · -- A name, a URI or a fee is no flag of a creator.
        obtain ⟨m', hm', honly, -⟩ := hverified
        obtain rfl : _ = m' := Option.some.inj hm'
        exact .inl ⟨congrArg Metadata.name honly, congrArg Metadata.uri honly,
          congrArg Metadata.sellerFeeBasisPoints honly⟩
    · intro hcare
      rcases hcare authority hauthority hmutable hkey with ⟨hname, huri, hfee⟩ | hsigned
      · left
        rw [hname, huri, hfee]
      · exact .inr ⟨hmutable, .inl hsigned⟩
  | verifyCreator =>
    obtain ⟨m₀, signer, hheld, hsigner, rfl⟩ := hwrites
    obtain rfl : m = m₀ := Option.some.inj hheld
    constructor
    · intro hlawful signer' hsigner'
      obtain rfl : signer = signer' := Option.some.inj (hsigner.symm.trans hsigner')
      rcases hlawful with hsame | ⟨hmutable, hsigned | hverified⟩
      · left
        exact verifiedBy_eq_self.mp (congrArg Metadata.creators (Option.some.inj hsame))
      · exact .inr ⟨hmutable, .inr hsigned⟩
      · obtain ⟨m', hm', honly⟩ := hverified
        obtain rfl : _ = m' := Option.some.inj hm'
        by_cases hsigned : SignedBy accounts signer.key
        · exact .inr ⟨hmutable, .inl hsigned⟩
        · exact .inl (verified_of_onlyVerified hsigned honly)
    · intro hcare
      rcases hcare signer hsigner with hverified | ⟨hmutable, hsigned | hsigned⟩
      · left
        rw [verifiedBy_eq_self.mpr hverified]
      · exact .inr ⟨hmutable, .inr ⟨_, rfl, onlyVerified_verifiedBy hsigned⟩⟩
      · exact .inr ⟨hmutable, .inl hsigned⟩
  | makeImmutable =>
    obtain ⟨m₀, authority, hheld, hauthority, hkey, rfl⟩ := hwrites
    obtain rfl : m = m₀ := Option.some.inj hheld
    constructor
    · intro hlawful authority' hauthority' _
      rcases hlawful with hsame | ⟨-, hsigned | hverified⟩
      · left
        rw [← Option.some.inj hsame]
      · exact .inr hsigned
      · obtain ⟨m', hm', honly, -⟩ := hverified
        obtain rfl : _ = m' := Option.some.inj hm'
        exact .inl (congrArg Metadata.isMutable honly).symm
    · intro hcare
      rcases hcare authority hauthority hkey with hfrozen | hsigned
      · left
        rw [← hfrozen]
      · cases hmutable : m.isMutable with
        | false =>
          left
          rw [← hmutable]
        | true => exact .inr ⟨hmutable, .inl hsigned⟩

/-- **A careful call is lawful, and no other is.** -/
theorem lawfulCall_iff {stored : List UInt8} {c : RecordCall} :
    LawfulCall π stored c ↔ CarefulCall π stored c := by
  by_cases hnone : ∀ m', ¬ CallWrites π stored c m'
  · -- Nothing is written, and the condition asks for nothing.
    have hnext := not_callWrites_next hnone
    constructor
    · intro _ hw ix m hix hm
      have hnot : ∀ m', ¬ MetadataWrites π (c.accounts stored) (some m) m' ix := by
        intro m' hwrites
        rw [← hm] at hwrites
        exact hnone m' ⟨hw, ix, hix, hwrites⟩
      cases ix with
      | create name symbol uri fee creators =>
        intro mint authority hmint hauthority hname hshares
        exact absurd ⟨mint, authority, hmint, hauthority,
          fun m₀ hm₀ => by rw [← Option.some.inj hm₀]; exact hname, hshares, rfl⟩ (hnot _)
      | update name uri fee =>
        intro authority hauthority hmutable hkey
        exact absurd ⟨m, authority, rfl, hmutable, hauthority, hkey, rfl⟩ (hnot _)
      | verifyCreator =>
        intro signer hsigner
        exact absurd ⟨m, signer, rfl, hsigner, rfl⟩ (hnot _)
      | makeImmutable =>
        intro authority hauthority hkey
        exact absurd ⟨m, authority, rfl, hauthority, hkey, rfl⟩ (hnot _)
    · intro _ m hm
      left
      rw [hnext, hm]
  · push Not at hnone
    obtain ⟨m', hwrites⟩ := hnone
    have hafter := callWrites_held hwrites
    obtain ⟨hw, ix, hix, hwrites⟩ := hwrites
    constructor
    · intro hlawful _ ix' m hix' hm
      obtain rfl : ix = ix' := Option.some.inj (hix.symm.trans hix')
      have hchange := hlawful m hm
      rw [hafter] at hchange
      rw [hm] at hwrites
      exact (lawful_iff_care hwrites).mp hchange
    · intro hcare m hm
      rw [hafter]
      rw [hm] at hwrites
      exact (lawful_iff_care hwrites).mpr (hcare hw ix m hix hm)

/-! ## Runs -/

/-- The step of a run. -/
def metadataStep (π : Profile) (stored : List UInt8) (c : RecordCall) : Option (List UInt8) :=
  some (metadataNext π stored c)

/-- What is frozen stays, where every call is lawful. -/
theorem frozen_stays {cs : List RecordCall} {stored stored' : List UInt8}
    (hlawful : Meets (metadataStep π) (LawfulCall π) stored cs)
    (hrun : Lib.run (metadataStep π) stored cs = some stored')
    (hheld : heldMetadata stored = some m) (hfrozen : m.isMutable = false) :
    heldMetadata stored' = some m := by
  refine run_invariant (I := fun stored => heldMetadata stored = some m) ?_ hlawful hheld hrun
  intro s c s' hcall hs hstep
  obtain rfl : metadataNext π s c = s' := Option.some.inj hstep
  rcases hcall m hs with hsame | ⟨hmutable, -⟩
  · exact hsame
  · rw [hfrozen] at hmutable
    simp at hmutable

/-- **When metadata is the authority's.** In every run of metadata instructions on an account, from
    any stored data: every call is lawful, which is to say that a stored record changes only while
    it is mutable, with the signature of its update authority or, for the flag of a creator, with
    that of the creator, if and only if every call is careful; and then a record that is frozen in
    any state of the run is there in every later state. -/
theorem metadata_lawful_iff (π : Profile) (stored : List UInt8) (cs : List RecordCall) :
    (Meets (metadataStep π) (LawfulCall π) stored cs ↔
      Meets (metadataStep π) (CarefulCall π) stored cs) ∧
    (Meets (metadataStep π) (CarefulCall π) stored cs →
      ∀ before after mid last m, cs = before ++ after →
        Lib.run (metadataStep π) stored before = some mid →
        Lib.run (metadataStep π) mid after = some last →
        heldMetadata mid = some m → m.isMutable = false → heldMetadata last = some m) := by
  have hiff : Meets (metadataStep π) (LawfulCall π) stored cs ↔
      Meets (metadataStep π) (CarefulCall π) stored cs :=
    ⟨fun h => h.mono fun _ _ => lawfulCall_iff.mp, fun h => h.mono fun _ _ => lawfulCall_iff.mpr⟩
  refine ⟨hiff, fun hcare before after mid last m hcs hbefore hafter hheld hfrozen => ?_⟩
  have hlawful := hiff.mpr hcare
  rw [hcs] at hlawful
  exact frozen_stays (hlawful.append hbefore).2 hafter hheld hfrozen

end

/-! ## A record that is frozen -/

/-- A frozen record with one creator that is not verified. -/
def frozenRecord : Metadata :=
  ⟨.repeated 1, .repeated 2, "n", "s", "u", 0, [⟨.repeated 5, 100, false⟩], false⟩

/-- A call with one more account, which does not sign. -/
def unsignedCall (key : Pubkey) (ix : MetadataInstruction) : RecordCall where
  account := { key := .repeated 3, lamports := 0, data := [], owner := ProgramIds.nftMetadataProgram }
  others := [{ key, lamports := 0, data := [], owner := ProgramIds.systemProgram,
               isWritable := false }]
  data := (toVec ix).getD []

/-- The record while it is mutable. -/
def openRecord : Metadata := { frozenRecord with isMutable := true }

/-- **A frozen record is changed by a call that nobody signs**: it verifies a creator. And whoever
    names the update authority of a record that is not frozen changes its name. -/
theorem unsigned_changes :
    heldMetadata (metadataNext .dev ((toVec frozenRecord).getD [])
        (unsignedCall (.repeated 5) .verifyCreator)) =
      some { frozenRecord with creators := [⟨.repeated 5, 100, true⟩] } ∧
    ¬ Meets (metadataStep .dev) (LawfulCall .dev) ((toVec frozenRecord).getD [])
      [unsignedCall (.repeated 5) .verifyCreator] ∧
    ¬ Meets (metadataStep .dev) (LawfulCall .dev) ((toVec openRecord).getD [])
      [unsignedCall (.repeated 2) (.update (some "m") none none)] := by
  have hfrozen : heldMetadata ((toVec frozenRecord).getD []) = some frozenRecord := by
    decide +kernel
  have hverified : heldMetadata (metadataNext .dev ((toVec frozenRecord).getD [])
      (unsignedCall (.repeated 5) .verifyCreator)) =
      some { frozenRecord with creators := [⟨.repeated 5, 100, true⟩] } := by
    decide +kernel
  have hopen : heldMetadata ((toVec openRecord).getD []) = some openRecord := by decide +kernel
  have hrenamed : heldMetadata (metadataNext .dev ((toVec openRecord).getD [])
      (unsignedCall (.repeated 2) (.update (some "m") none none))) =
      some { openRecord with name := "m" } := by
    decide +kernel
  refine ⟨hverified, fun h => ?_, fun h => ?_⟩
  · rcases h.1 frozenRecord hfrozen with hsame | ⟨hmutable, -⟩
    · rw [hverified] at hsame
      exact absurd hsame (by decide)
    · exact absurd hmutable (by decide)
  · rcases h.1 openRecord hopen with hsame | ⟨-, hsigned | ⟨m', hm', honly, -⟩⟩
    · rw [hrenamed] at hsame
      exact absurd hsame (by decide)
    · exact absurd hsigned (by decide)
    · rw [hrenamed, Option.some.injEq] at hm'
      subst hm'
      exact absurd (congrArg Metadata.name honly) (by decide)

end Proof
end Himsha
