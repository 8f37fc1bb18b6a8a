import Himsha.Proof.RuneSlots

/-!
# Who may spend a rune balance

A balance records its owner, and the instructions that take from one ask that the account in the
third slot has signed. Which account that is, none of them compares with the record.
`spends_authorized_iff` says where that matters: a transfer, a burn, and an etching that lands on a
balance.
-/

set_option autoImplicit false

namespace Himsha
namespace Proof

open Himsha.Lib Himsha.Runtime Himsha.Programs Himsha.Vm Runes

/-- The account still holds no less, for the same owner if it had one. -/
def KeepsHolder (bal : RuneBalance) (post : AccountInfo) : Prop :=
  ∃ bal' : RuneBalance, tryFromSlice post.data = some bal' ∧ bal.amount ≤ bal'.amount ∧
    (bal.owner = default ∨ bal'.owner = bal.owner)

/-- What an initialised balance lost, its owner had signed for. -/
def SpendsAuthorized (accounts out : List AccountInfo) : Prop :=
  ∀ (i : Nat) a b (bal : RuneBalance), accounts[i]? = some a → out[i]? = some b →
    tryFromSlice a.data = some bal → bal.isInitialized = true →
    KeepsHolder bal b ∨ SignedBy accounts bal.owner

/-- The instruction takes something from the balance in slot `i`. The rune that is etched over a
    balance erases it, but for an empty one that the new record still reads as. -/
def spends (accounts : List AccountInfo) : RuneInstruction → Nat → RuneBalance → Prop
  | .etch name _ _ premine terms, 0, bal => ¬ ((nameBytes name).length = 6 ∧ terms = none ∧
      bal.amount = 0 ∧ (bal.owner = default ∨ ∃ etcher ∈ accounts[2]?,
        ownerRead etcher.key premine premine = bal.owner.bytes.bytes))
  | .etch _ _ _ premine _, 1, bal =>
      premine ≠ 0 ∧ bal.owner ≠ default ∧ ∃ etcher ∈ accounts[2]?, etcher.key ≠ bal.owner
  | .transfer n, 0, _ => n ≠ 0
  | .burn n, 1, _ => n ≠ 0
  | _, _, _ => False

/-- The owner of what an instruction takes from is among the signers. -/
def HolderSigns (accounts : List AccountInfo) (data : List UInt8) : Prop :=
  ∀ ix ∈ (tryFromSlice data : Option RuneInstruction), ∀ i < 2, ∀ a ∈ accounts[i]?,
    ∀ bal ∈ (tryFromSlice a.data : Option RuneBalance), bal.isInitialized = true →
      spends accounts ix i bal → SignedBy accounts bal.owner

/-! ## What a run leaves in its slots -/

section
variable {a b : AccountInfo} {rest : List AccountInfo} {bal : RuneBalance} {d e : List UInt8}

theorem KeepsHolder.refl (h : tryFromSlice a.data = some bal) : KeepsHolder bal a :=
  ⟨bal, h, UInt64.le_refl _, .inr rfl⟩

/-- A balance that was written is what is read back. -/
theorem keepsHolder_written {bal' : RuneBalance} (hd : toVec bal' = some d) :
    KeepsHolder bal { a with data := d } ↔ bal.amount ≤ bal'.amount ∧
      (bal.owner = default ∨ bal'.owner = bal.owner) := by
  have hback : tryFromSlice d = some bal' := tryFromSlice_toVec hd
  constructor
  · rintro ⟨y, hy, hrest⟩
    have hy' : tryFromSlice d = some y := hy
    rw [hback, Option.some.injEq] at hy'
    exact hy' ▸ hrest
  · exact fun h => ⟨bal', hback, h⟩

/-- A rune that was written is a balance still where it reads as one. -/
theorem keepsHolder_etched {x : RuneEtching} (hd : toVec x = some d) :
    KeepsHolder bal { a with data := d } ↔ (nameBytes x.name).length = 6 ∧ x.terms = none ∧
      bal.amount ≤ x.burned ∧ (bal.owner = default ∨
        ownerRead x.etcher x.premine x.minted = bal.owner.bytes.bytes) := by
  constructor
  · rintro ⟨y, hy, hamount, howner⟩
    have hy' : tryFromSlice d = some y := hy
    obtain ⟨hname, hterms⟩ := name_six hd (toVec_tryFromSlice hy')
    obtain ⟨z, hz, hzowner, hzamount, -⟩ := etching_reads hd hname hterms
    rw [hy', Option.some.injEq] at hz
    subst hz
    refine ⟨hname, hterms, hzamount ▸ hamount, howner.imp_right fun h => ?_⟩
    rw [← hzowner, h]
  · rintro ⟨hname, hterms, hamount, howner⟩
    obtain ⟨z, hz, hzowner, hzamount, -⟩ := etching_reads hd hname hterms
    refine ⟨z, hz, hzamount ▸ hamount, howner.imp_right fun h => ?_⟩
    have hbytes : z.owner.bytes = bal.owner.bytes := Blob.ext (hzowner.trans h)
    cases hz' : z.owner
    cases hb' : bal.owner
    rw [hz', hb'] at hbytes
    exact congrArg Pubkey.mk hbytes

/-- Slot by slot, what the instruction keeps. -/
def Spends (accounts mid : List AccountInfo) (ix : RuneInstruction) : Prop :=
  ∀ (i : Nat) a b (bal : RuneBalance), accounts[i]? = some a → mid[i]? = some b →
    tryFromSlice a.data = some bal → bal.isInitialized = true →
    (KeepsHolder bal b ↔ ¬ spends accounts ix i bal)

theorem spends_pair {accounts mid : List AccountInfo} {ix : RuneInstruction}
    (hw : Rewrites accounts mid a b rest d e)
    (hrest : ∀ i bal, ¬ spends accounts ix (i + 2) bal)
    (hfirst : ∀ bal, tryFromSlice a.data = some bal → bal.isInitialized = true →
      (KeepsHolder bal { a with data := d } ↔ ¬ spends accounts ix 0 bal))
    (hsecond : ∀ bal, tryFromSlice b.data = some bal → bal.isInitialized = true →
      (KeepsHolder bal { b with data := e } ↔ ¬ spends accounts ix 1 bal)) :
    Spends accounts mid ix := by
  intro i x y bal hx hy hbal hinit
  rw [hw.given] at hx
  rw [hw.left] at hy
  match i with
  | 0 =>
    cases hx
    cases hy
    exact hfirst bal hbal hinit
  | 1 =>
    cases hx
    cases hy
    exact hsecond bal hbal hinit
  | i + 2 =>
    rw [List.getElem?_cons_succ, List.getElem?_cons_succ] at hx hy
    rw [hx] at hy
    cases hy
    exact iff_of_true (.refl hbal) (hrest i bal)

/-- What goes into a balance leaves it with its holder. -/
theorem keepsHolder_credit {bal' : RuneBalance} {n : Nat} {other : Pubkey}
    (hbal : tryFromSlice b.data = some bal) (he : toVec bal' = some e)
    (hamount : bal'.amount.toNat = (balanceIn b).amount.toNat + n)
    (howner : bal'.owner = if (balanceIn b).owner == default then other else (balanceIn b).owner) :
    KeepsHolder bal { b with data := e } := by
  have hin : balanceIn b = bal := by rw [balanceIn, hbal, Option.getD_some]
  rw [hin] at hamount howner
  refine (keepsHolder_written he).mpr ⟨UInt64.le_iff_toNat_le.mpr (by omega), ?_⟩
  by_cases hdefault : bal.owner = default
  · exact .inl hdefault
  · right
    rw [howner, if_neg (by simpa using hdefault)]

/-- What goes out of one takes from it, unless it is nothing. -/
theorem keepsHolder_debit {left n : UInt64} (hleft : left.toNat + n.toNat = bal.amount.toNat)
    (hd : toVec ({ bal with amount := left } : RuneBalance) = some d) :
    KeepsHolder bal { a with data := d } ↔ ¬ n ≠ 0 := by
  rw [keepsHolder_written hd]
  simp only [or_true, and_true, not_not, UInt64.le_iff_toNat_le, ← UInt64.toNat_inj,
    UInt64.toNat_zero]
  omega

/-- **What each runes instruction takes.** -/
theorem runes_spends {accounts mid : List AccountInfo} {ix : RuneInstruction}
    (h : RunesPost accounts mid ix) : Spends accounts mid ix := by
  cases ix with
  | etch name symbol divisibility premine terms =>
    obtain ⟨a, b, c, rest, d, e, hw, -, -, hd, hpremine⟩ := h
    have hthird : accounts[2]? = some c := by rw [hw.given]; rfl
    refine spends_pair hw (fun i bal => id) (fun bal _ _ => ?_) fun bal hbal _ => ?_
    · rw [keepsHolder_etched hd]
      have hnone : bal.amount ≤ 0 ↔ bal.amount = 0 :=
        ⟨fun hle => UInt64.le_antisymm hle UInt64.zero_le, fun heq => heq ▸ UInt64.le_refl _⟩
      simp only [spends, hthird, Option.mem_def, Option.some.injEq, exists_eq_left', hnone,
        not_not]
    · rcases hpremine with ⟨rfl, rfl⟩ | ⟨hne, amount, hamount, he⟩
      · exact iff_of_true ⟨bal, hbal, UInt64.le_refl _, .inr rfl⟩ fun hspends => hspends.1 rfl
      · have hin : balanceIn b = bal := by rw [balanceIn, hbal, Option.getD_some]
        rw [hin] at hamount
        have hraised : bal.amount ≤ amount := UInt64.le_iff_toNat_le.mpr (by omega)
        rw [keepsHolder_written he]
        simp only [spends, hthird, Option.mem_def, Option.some.injEq, exists_eq_left', hne,
          hraised, ne_eq, not_false_eq_true, true_and]
        tauto
  | mint =>
    obtain ⟨a, b, c, rest, d, e, rune, terms, mints, minted, amount, hw, hrune, -, hterms, -, -, -,
      -, hamount, he⟩ := h
    refine spends_pair hw (fun i bal => id) (fun bal hbal _ => ?_) fun bal hbal _ => ?_
    · -- The record of a rune with an open mint is no balance.
      have hno := (name_six (toVec_tryFromSlice hrune) (toVec_tryFromSlice hbal)).2
      rw [hterms] at hno
      simp at hno
    · exact iff_of_true (keepsHolder_credit hbal he hamount rfl) not_false
  | transfer n =>
    obtain ⟨a, b, rest, d, e, src, left, amount, hw, hsrc, -, -, hleft, hd, hamount, he⟩ := h
    refine spends_pair hw (fun i bal => id) (fun bal hbal _ => ?_) fun bal hbal _ => ?_
    · rw [hsrc, Option.some.injEq] at hbal
      subst hbal
      exact keepsHolder_debit hleft hd
    · exact iff_of_true (keepsHolder_credit hbal he hamount rfl) not_false
  | burn n =>
    obtain ⟨a, b, rest, d, e, rune, src, left, burned, hw, hrune, hsrc, -, hburned, hd, hleft,
      he⟩ := h
    refine spends_pair hw (fun i bal => id) (fun bal hbal _ => ?_) fun bal hbal _ => ?_
    · -- The record is of both kinds, and what is burned adds to it.
      have hx := toVec_tryFromSlice hrune
      obtain ⟨hname, hterms⟩ := name_six hx (toVec_tryFromSlice hbal)
      obtain ⟨y, hy, howner, hamount, -⟩ := etching_reads hx hname hterms
      rw [hbal, Option.some.injEq] at hy
      subst hy
      refine iff_of_true ((keepsHolder_etched hd).mpr ⟨hname, hterms, ?_, .inr howner.symm⟩)
        not_false
      have hraised : rune.burned ≤ burned := UInt64.le_iff_toNat_le.mpr (by omega)
      rw [hamount]
      exact hraised
    · rw [hsrc, Option.some.injEq] at hbal
      subst hbal
      exact keepsHolder_debit hleft he
  | initBalance =>
    obtain ⟨a, b, rest, d, hw, hfresh, hd⟩ := h
    refine spends_pair hw (fun i bal => id) (fun bal hbal hinit => ?_) fun bal hbal _ => ?_
    · rw [balanceIn, hbal, Option.getD_some, hinit] at hfresh
      simp at hfresh
    · exact iff_of_true (.refl hbal) not_false

end

/-- **Who a rune is spent by.** For every runes instruction that succeeds: what an initialised
    balance lost, its owner had signed for, exactly where the recorded owner of what the
    instruction takes from is among the signers. -/
theorem spends_authorized_iff {π : Profile} {hasher : Lending.Hasher}
    {accounts out : List AccountInfo} {data : List UInt8} {timestamp : UInt64} {th th' : Thread}
    (h : Comp.Returns (dispatch π hasher ProgramIds.runesProgram accounts data timestamp) th out
      th') :
    SpendsAuthorized accounts out ↔ HolderSigns accounts data := by
  obtain ⟨ix, mid, th₁, hix, hpost, -, hgate⟩ := runes_dispatch h
  have hspends := runes_spends hpost
  obtain ⟨hlen, hgate'⟩ := validateWrites_returns.mp hgate
  have hdata := gate_data hlen hgate'
  have hslot : ∀ (i : Nat) b, out[i]? = some b → ∃ m, mid[i]? = some m ∧ m.data = b.data := by
    intro i b hb
    have hi := congrArg (·[i]?) hdata
    simp only [List.getElem?_map, hb, Option.map_some] at hi
    exact Option.map_eq_some_iff.mp hi.symm
  have hkeeps : ∀ (bal : RuneBalance) (m b : AccountInfo), m.data = b.data →
      (KeepsHolder bal m ↔ KeepsHolder bal b) := by
    intro bal m b heq
    unfold KeepsHolder
    rw [heq]
  unfold SpendsAuthorized HolderSigns
  simp only [hix, Option.some.injEq, forall_eq', Option.mem_def]
  constructor
  · intro hauth i _ a ha bal hbal hinit htaken
    have hlt : i < out.length := by
      have hout := congrArg List.length hdata
      rw [List.length_map, List.length_map] at hout
      have hbound := (List.getElem?_eq_some_iff.mp ha).1
      omega
    obtain ⟨b, hb⟩ : ∃ b, out[i]? = some b := ⟨_, List.getElem?_eq_getElem hlt⟩
    obtain ⟨m, hm, hmb⟩ := hslot i b hb
    rcases hauth i a b bal ha hb hbal hinit with hkept | hsigned
    · exact absurd htaken ((hspends i a m bal ha hm hbal hinit).mp ((hkeeps bal m b hmb).mpr hkept))
    · exact hsigned
  · intro hsigns i a b bal ha hb hbal hinit
    obtain ⟨m, hm, hmb⟩ := hslot i b hb
    by_cases htaken : spends accounts ix i bal
    · right
      refine hsigns i ?_ a ha bal hbal hinit htaken
      by_contra hge
      obtain ⟨j, rfl⟩ : ∃ j, i = j + 2 := ⟨i - 2, by omega⟩
      cases ix <;> exact htaken
    · exact .inl ((hkeeps bal m b hmb).mp ((hspends i a m bal ha hm hbal hinit).mpr htaken))

/-! ## A spending -/

/-- What `owner` holds of the rune 8. -/
def tenOf (owner : Pubkey) : RuneBalance where
  rune := .repeated 8
  owner := owner
  amount := 10
  isInitialized := true

def tenRunes (key owner : Pubkey) : AccountInfo where
  key := key
  lamports := 1
  data := (toVec (tenOf owner)).getD []
  owner := ProgramIds.runesProgram

/-- A transfer of 4 out of the balance of `owner`, signed by the key 5. -/
def runeAccounts (owner : Pubkey) : List AccountInfo :=
  [tenRunes (.repeated 1) owner, tenRunes (.repeated 2) (.repeated 6),
    { key := .repeated 5, lamports := 0, data := [], owner := ProgramIds.systemProgram
      isSigner := true, isWritable := false }]

def sendFour : List UInt8 := (toVec (RuneInstruction.transfer 4)).getD []

def spendFour (owner : Pubkey) : Except Fault (List AccountInfo) × Thread :=
  Comp.exec (dispatch .dev .sorted ProgramIds.runesProgram (runeAccounts owner) sendFour 0) {}

theorem tenRunes_reads (key owner : Pubkey) :
    tryFromSlice (tenRunes key owner).data = some (tenOf owner) :=
  have hdata : toVec (tenOf owner) = some (tenRunes key owner).data := rfl
  tryFromSlice_toVec hdata

/-- The only signer is the key 5. -/
theorem holderSigns_runeAccounts (owner : Pubkey) :
    HolderSigns (runeAccounts owner) sendFour ↔ owner = .repeated 5 := by
  have hix : tryFromSlice sendFour = some (RuneInstruction.transfer 4) :=
    tryFromSlice_toVec (show toVec (RuneInstruction.transfer 4) = some sendFour from rfl)
  constructor
  · intro hsigns
    have hsigned := hsigns _ hix 0 (by decide) _ rfl _ (tenRunes_reads _ _) rfl
      (by simp [spends])
    obtain ⟨s, hs, hsigner, hkey⟩ := hsigned
    simp only [runeAccounts, List.mem_cons, List.not_mem_nil, or_false] at hs
    rcases hs with rfl | rfl | rfl
    · cases hsigner
    · cases hsigner
    · exact hkey.symm
  · rintro rfl ix hix' i hi a ha bal hbal - htaken
    rw [hix, Option.mem_def, Option.some.injEq] at hix'
    subst hix'
    match i with
    | 0 =>
      cases ha
      rw [tenRunes_reads, Option.mem_def, Option.some.injEq] at hbal
      subst hbal
      exact ⟨_, List.mem_cons_of_mem _ (List.mem_cons_of_mem _ List.mem_cons_self), rfl, rfl⟩
    | i + 1 => exact absurd htaken id

theorem spends_authorized_transfer : ∃ out, (spendFour (.repeated 5)).1 = .ok out ∧
    SpendsAuthorized (runeAccounts (.repeated 5)) out := by
  obtain ⟨out, hout⟩ : ∃ out, (spendFour (.repeated 5)).1 = .ok out := ⟨_, rfl⟩
  have hreturns : Comp.Returns _ ({} : Thread) out _ := Prod.ext hout rfl
  exact ⟨out, hout, (spends_authorized_iff hreturns).mpr ((holderSigns_runeAccounts _).mpr rfl)⟩

/-- **Anyone's runes.** Whoever signs as the third account can spend any balance. -/
theorem stranger_spends_runes : ¬ ∀ (π : Profile) (hasher : Lending.Hasher)
    (accounts : List AccountInfo) (data : List UInt8) (timestamp : UInt64)
    (out : List AccountInfo),
      (Comp.exec (dispatch π hasher ProgramIds.runesProgram accounts data timestamp) {}).1 =
        .ok out →
      SpendsAuthorized accounts out := by
  intro hclaim
  obtain ⟨out, hout⟩ : ∃ out, (spendFour (.repeated 7)).1 = .ok out := ⟨_, rfl⟩
  have hauth := hclaim .dev .sorted (runeAccounts (.repeated 7)) sendFour 0 out hout
  have hreturns : Comp.Returns _ ({} : Thread) out _ := Prod.ext hout rfl
  have howner := (holderSigns_runeAccounts _).mp ((spends_authorized_iff hreturns).mp hauth)
  exact absurd howner (by decide)

end Proof
end Himsha
