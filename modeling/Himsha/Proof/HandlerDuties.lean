import Himsha.Proof.BuilderDuties
import Himsha.Proof.PoolShares
import Himsha.Proof.VaultCalls

/-!
# What the handlers do with their accounts

For each variant that the client libraries still build as it is, the duties of the slots that its
handler looks at, in the order of the slots, read off a run that succeeds.
-/

set_option autoImplicit false

namespace Himsha
namespace Proof

open Himsha.Lib Himsha.Runtime Himsha.Programs Himsha.Vm Himsha.Sdk
open Duty
open Token (TokenAccountState MintState)
open Swap (PoolState)

/-- From slot `i` on, the slots are put to these duties. -/
inductive InOrder (accounts out : List AccountInfo) : Nat → List Duty → Prop
  | nil {i : Nat} : InOrder accounts out i []
  | cons {i : Nat} {d : Duty} {ds : List Duty} : d accounts out i →
      InOrder accounts out (i + 1) ds → InOrder accounts out i (d :: ds)

section
variable {accounts out : List AccountInfo} {i : Nat} {d : Duty} {ds : List Duty}

theorem InOrder.one (h : d accounts out i) : InOrder accounts out i [d] := .cons h .nil

theorem InOrder.slot (h : InOrder accounts out i ds) {n : Nat} (hd : ds[n]? = some d) :
    d accounts out (i + n) := by
  induction h generalizing n with
  | nil => exact absurd hd nofun
  | cons hfirst _ ih =>
    cases n with
    | zero => exact Option.some.inj hd ▸ hfirst
    | succ n =>
      rw [Nat.add_comm n 1, ← Nat.add_assoc]
      exact ih hd

/-! ## Slots -/

variable {α : Type} [Borsh α] {P : α → Prop} {v : α}

theorem keeps_stored (h : store accounts i v = .ok out) (hv : P v) : keeps α P accounts out i :=
  ⟨v, recordAt_stored h, hv⟩

theorem named_stored {field : α → Option Pubkey} {a : AccountInfo} {n : Nat}
    (h : store accounts 0 v = .ok out) (ha : slot accounts n = .ok a)
    (hkey : field v = some a.key) : named field accounts out n :=
  ⟨v, recordAt_stored h, a.key, hkey, keyAt_slot (slot_eq_ok ha)⟩

theorem signs_slot {a : AccountInfo} {u : Unit} (ha : slot accounts i = .ok a)
    (hs : a.requireSigner = .ok u) : signs accounts out i :=
  ⟨a, slot_eq_ok ha, require_eq_ok.mp hs⟩

end

/-! ## The system program -/

section
variable {accounts out : List AccountInfo}

theorem credited_exactly {a b : AccountInfo} {n : UInt64}
    (h : System.creditLamports a n = .ok b) : b.lamports.toNat = a.lamports.toNat + n.toNat := by
  unfold System.creditLamports at h
  cases hadd : checkedAdd a.lamports n with
  | none =>
    rw [hadd] at h
    exact absurd h nofun
  | some sum =>
    rw [hadd] at h
    cases h
    exact checkedAdd_eq_some hadd

theorem createAccount_duties {lamports space : UInt64} {owner : Pubkey}
    (h : System.run accounts (.createAccount lamports space owner) = .ok out) :
    InOrder accounts out 0 [both signs (sends lamports.toNat), becomes fun a =>
      a.owner = owner ∧ a.lamports = lamports ∧ a.data.length = space.toNat] := by
  obtain ⟨_, hsigned, h₁⟩ := bind_eq_ok.mp h
  obtain ⟨payer, hpayer, h₂⟩ := bind_eq_ok.mp h₁
  obtain ⟨payer', hdeduct, h₃⟩ := bind_eq_ok.mp h₂
  obtain ⟨left, hleft, rfl⟩ := deductLamports_gives _ _ _ hdeduct
  obtain ⟨fresh, hfresh, h₄⟩ := bind_eq_ok.mp h₃
  obtain ⟨_, -, h₅⟩ := bind_eq_ok.mp h₄
  obtain ⟨zeros, hzeros, h₆⟩ := bind_eq_ok.mp h₅
  obtain rfl := zeroed_gives _ _ hzeros
  cases h₆
  have hfirst := slot_eq_ok hpayer
  have hlt := (List.getElem?_eq_some_iff.mp hfirst).1
  have hlt' := (List.getElem?_eq_some_iff.mp (slot_eq_ok hfresh)).1
  refine .cons ⟨ensureSigners_signed hsigned, payer, hfirst,
    { payer with lamports := left }, ?_, hleft⟩ (.one ⟨_, List.getElem?_set_self hlt', rfl, rfl,
    List.length_replicate⟩)
  rw [Option.mem_def, List.getElem?_set_ne Nat.one_ne_zero, List.getElem?_set_self hlt]

theorem createAccountWithAnchor_duties {utxo : UtxoMeta} {space : UInt64} {owner : Pubkey}
    (h : System.run accounts (.createAccountWithAnchor utxo space owner) = .ok out) :
    InOrder accounts out 0 [signs, becomes fun a =>
      a.owner = owner ∧ a.utxo = some utxo ∧ a.data.length = space.toNat] := by
  obtain ⟨_, hsigned, h₁⟩ := bind_eq_ok.mp h
  obtain ⟨fresh, hfresh, h₂⟩ := bind_eq_ok.mp h₁
  obtain ⟨_, -, h₃⟩ := bind_eq_ok.mp h₂
  obtain ⟨zeros, hzeros, h₄⟩ := bind_eq_ok.mp h₃
  obtain rfl := zeroed_gives _ _ hzeros
  cases h₄
  have hlt := (List.getElem?_eq_some_iff.mp (slot_eq_ok hfresh)).1
  exact .cons (ensureSigners_signed hsigned) (.one ⟨_, List.getElem?_set_self hlt, rfl, rfl,
    List.length_replicate⟩)

theorem systemTransfer_duties {lamports : UInt64}
    (h : System.run accounts (.transfer lamports) = .ok out) :
    InOrder accounts out 0 [both signs (sends lamports.toNat), gets lamports.toNat] := by
  obtain ⟨_, hsigned, h₁⟩ := bind_eq_ok.mp h
  obtain ⟨_, -, h₂⟩ := bind_eq_ok.mp h₁
  obtain ⟨source, hsource, h₃⟩ := bind_eq_ok.mp h₂
  obtain ⟨source', hdeduct, h₄⟩ := bind_eq_ok.mp h₃
  obtain ⟨left, hleft, rfl⟩ := deductLamports_gives _ _ _ hdeduct
  obtain ⟨dest, hdest, h₅⟩ := bind_eq_ok.mp h₄
  obtain ⟨dest', hcredit, h₆⟩ := bind_eq_ok.mp h₅
  cases h₆
  have hfirst := slot_eq_ok hsource
  have hlt := (List.getElem?_eq_some_iff.mp hfirst).1
  have hsecond := slot_eq_ok hdest
  have hlt' := (List.getElem?_eq_some_iff.mp hsecond).1
  rw [List.getElem?_set_ne Nat.zero_ne_one] at hsecond
  refine .cons ⟨ensureSigners_signed hsigned, source, hfirst,
    { source with lamports := left }, ?_, hleft⟩ (.one ⟨dest, hsecond, dest',
    List.getElem?_set_self hlt', credited_exactly hcredit⟩)
  rw [Option.mem_def, List.getElem?_set_ne Nat.one_ne_zero, List.getElem?_set_self hlt]

theorem assign_duties {owner : Pubkey} (h : System.run accounts (.assign owner) = .ok out) :
    InOrder accounts out 0 [both signs (becomes (·.owner = owner))] := by
  obtain ⟨_, hsigned, h₁⟩ := bind_eq_ok.mp h
  obtain ⟨a, ha, h₂⟩ := bind_eq_ok.mp h₁
  cases h₂
  have hlt := (List.getElem?_eq_some_iff.mp (slot_eq_ok ha)).1
  exact .one ⟨ensureSigners_signed hsigned, _, List.getElem?_set_self hlt, rfl⟩

theorem allocate_duties {space : UInt64} (h : System.run accounts (.allocate space) = .ok out) :
    InOrder accounts out 0 [both signs (becomes (space.toNat ≤ ·.data.length))] := by
  obtain ⟨_, hsigned, h₁⟩ := bind_eq_ok.mp h
  obtain ⟨a, ha, h₂⟩ := bind_eq_ok.mp h₁
  have hfirst := slot_eq_ok ha
  have hlt := (List.getElem?_eq_some_iff.mp hfirst).1
  refine .one ⟨ensureSigners_signed hsigned, ?_⟩
  split at h₂
  · rename_i hgrows
    obtain ⟨zeros, hzeros, h₃⟩ := bind_eq_ok.mp h₂
    obtain rfl := zeroed_gives _ _ hzeros
    cases h₃
    refine ⟨_, List.getElem?_set_self hlt, ?_⟩
    simp only [List.length_append, List.length_drop, List.length_replicate]
    omega
  · rename_i hfits
    cases h₂
    exact ⟨a, hfirst, Nat.le_of_not_lt hfits⟩

end

/-! ## The token program -/

section
variable {accounts out : List AccountInfo} {π : Profile} {amount : UInt64}

theorem requireThirdSigner_signed {u : Unit} (h : Token.requireThirdSigner accounts = .ok u) :
    Signed accounts 2 := by
  unfold Token.requireThirdSigner at h
  split at h
  · rename_i a ha
    exact ⟨a, ha, require_eq_ok.mp h⟩
  · exact absurd h nofun

theorem initializeMint_duties {decimals : UInt8} {authority : Pubkey} {freeze : Option Pubkey}
    (h : Token.run π accounts (.initializeMint decimals authority freeze) = .ok out) :
    InOrder accounts out 0 [keeps MintState fun mint => mint.isInitialized = true ∧
      mint.decimals = decimals ∧ mint.mintAuthority = some authority ∧
      mint.freezeAuthority = freeze] := by
  obtain ⟨mint, -, h₁⟩ := bind_eq_ok.mp h
  obtain ⟨_, -, hstore⟩ := bind_eq_ok.mp h₁
  exact .one (keeps_stored hstore ⟨rfl, rfl, rfl, rfl⟩)

theorem initializeAccount_duties (hlength : accounts.length = 3)
    (h : Token.run π accounts .initializeAccount = .ok out) :
    InOrder accounts out 0 [keeps TokenAccountState (·.state = .initialized),
      named fun token : TokenAccountState => some token.mint,
      named fun token : TokenAccountState => some token.owner] := by
  obtain ⟨mintAcc, hmint, h₁⟩ := bind_eq_ok.mp h
  obtain ⟨_, -, h₂⟩ := bind_eq_ok.mp h₁
  obtain ⟨token, -, h₃⟩ := bind_eq_ok.mp h₂
  obtain ⟨_, -, hstore⟩ := bind_eq_ok.mp h₃
  have howner : slot accounts 2 = .ok accounts[2] :=
    slot_eq_ok_iff.mpr (List.getElem?_eq_getElem (by omega))
  refine .cons (keeps_stored hstore rfl) (.cons (named_stored hstore hmint rfl)
    (.one (named_stored hstore howner ?_)))
  rw [List.getElem?_eq_getElem (by omega : 2 < accounts.length)]
  rfl

section
variable {α β : Type} [Borsh α] [Borsh β] {a b : AccountInfo} {rest : List AccountInfo} {v v' : α}
  {w w' : β}

theorem WritesPair.first (h : WritesPair accounts out a b rest v v' w w') {R : α → α → Prop}
    (hR : R v v') : Changed α accounts out 0 R := by
  obtain ⟨rfl, -, ⟨hv, hw⟩, d, e, hd, he, rfl⟩ := h
  exact ⟨v, hv, v', tryFromSlice_toVec hd, hR⟩

theorem WritesPair.second (h : WritesPair accounts out a b rest v v' w w') {R : β → β → Prop}
    (hR : R w w') : Changed β accounts out 1 R := by
  obtain ⟨rfl, -, ⟨hv, hw⟩, d, e, hd, he, rfl⟩ := h
  exact ⟨w, hw, w', tryFromSlice_toVec he, hR⟩

end

theorem mintTo_duties (h : Token.run π accounts (.mintTo amount) = .ok out) :
    InOrder accounts out 0 [issues amount.toNat, receives amount.toNat, signs] := by
  obtain ⟨a, b, rest, mint, dest, supply, left, hwrites, -, hsupply, hleft⟩ := token_run_post h
  obtain ⟨_, hsigned, -⟩ := bind_eq_ok.mp h
  exact .cons (hwrites.first ⟨rfl, hsupply⟩) (.cons (hwrites.second ⟨rfl, hleft⟩)
    (.one (requireThirdSigner_signed hsigned)))

theorem tokenTransfer_duties (h : Token.run π accounts (.transfer amount) = .ok out) :
    InOrder accounts out 0 [pays amount.toNat, receives amount.toNat, signs] := by
  obtain ⟨a, b, rest, source, dest, left, sum, hwrites, -, hleft, hsum⟩ := token_run_post h
  obtain ⟨_, hsigned, -⟩ := bind_eq_ok.mp h
  exact .cons (hwrites.first ⟨rfl, hleft⟩) (.cons (hwrites.second ⟨rfl, hsum⟩)
    (.one (requireThirdSigner_signed hsigned)))

theorem tokenBurn_duties (h : Token.run π accounts (.burn amount) = .ok out) :
    InOrder accounts out 0 [pays amount.toNat, burns amount.toNat, signs] := by
  obtain ⟨a, b, rest, token, mint, left, supply, hwrites, hleft, hsupply⟩ := token_run_post h
  obtain ⟨_, hsigned, -⟩ := bind_eq_ok.mp h
  exact .cons (hwrites.first ⟨rfl, hleft⟩) (.cons (hwrites.second ⟨rfl, hsupply⟩)
    (.one (requireThirdSigner_signed hsigned)))

theorem approve_duties (h : Token.run π accounts (.approve amount) = .ok out) :
    InOrder accounts out 0 [keeps TokenAccountState (·.delegatedAmount = amount),
      named TokenAccountState.delegate] := by
  obtain ⟨token, -, h₁⟩ := bind_eq_ok.mp h
  obtain ⟨delegate, hdelegate, hstore⟩ := bind_eq_ok.mp h₁
  exact .cons (keeps_stored hstore rfl) (.one (named_stored hstore hdelegate rfl))

theorem revoke_duties (h : Token.run π accounts .revoke = .ok out) :
    InOrder accounts out 0 [keeps TokenAccountState (·.delegate = none)] := by
  obtain ⟨token, -, hstore⟩ := bind_eq_ok.mp h
  exact .one (keeps_stored hstore rfl)

theorem freezeAccount_duties (h : Token.run π accounts .freezeAccount = .ok out) :
    InOrder accounts out 0 [keeps TokenAccountState (·.state = .frozen)] := by
  obtain ⟨token, -, hstore⟩ := bind_eq_ok.mp h
  exact .one (keeps_stored hstore rfl)

theorem thawAccount_duties (h : Token.run π accounts .thawAccount = .ok out) :
    InOrder accounts out 0 [keeps TokenAccountState (·.state = .initialized)] := by
  obtain ⟨token, -, h₁⟩ := bind_eq_ok.mp h
  obtain ⟨_, -, hstore⟩ := bind_eq_ok.mp h₁
  exact .one (keeps_stored hstore rfl)

theorem closeAccount_duties (h : Token.run π accounts .closeAccount = .ok out) :
    InOrder accounts out 0 [becomes fun a => a.lamports = 0 ∧ a.data = [], inherits] := by
  obtain ⟨token, -, h₁⟩ := bind_eq_ok.mp h
  obtain ⟨_, -, h₂⟩ := bind_eq_ok.mp h₁
  obtain ⟨a, ha, h₃⟩ := bind_eq_ok.mp h₂
  obtain ⟨b, hb, h₄⟩ := bind_eq_ok.mp h₃
  obtain ⟨lamports, hsum, h₅⟩ := bind_eq_ok.mp h₄
  obtain ⟨rest, rfl⟩ := eq_cons_cons (slot_eq_ok ha) (slot_eq_ok hb)
  cases h₅
  exact .cons ⟨_, rfl, rfl, rfl⟩
    (.one ⟨a, rfl, b, rfl, _, rfl, addU64_eq (orPanic_eq_ok.mp hsum)⟩)

end

/-! ## The programs of one record -/

section
variable {accounts out : List AccountInfo} {π : Profile} {timestamp : UInt64}

theorem lending_duties {hasher : Lending.Hasher} {ix : Lending.LendingInstruction}
    (hsigned : Signed accounts 1) (h : Lending.run π hasher accounts timestamp ix = .ok out) :
    InOrder accounts out 0 [keeps Lending.CollectionAccount fun _ => True, signs] := by
  refine .cons ?_ (.one hsigned)
  cases ix with
  | initCollection name =>
    obtain ⟨_, -, h₁⟩ := bind_eq_ok.mp h
    obtain ⟨_, -, hstore⟩ := bind_eq_ok.mp h₁
    exact keeps_stored hstore trivial
  | placeBid utxo value period rate ordinals payments =>
    obtain ⟨_, -, h₁⟩ := bind_eq_ok.mp h
    obtain ⟨_, -, hstore⟩ := bind_eq_ok.mp h₁
    exact keeps_stored hstore trivial
  | cancelBid utxo =>
    obtain ⟨_, -, h₁⟩ := bind_eq_ok.mp h
    obtain ⟨_, -, hstore⟩ := bind_eq_ok.mp h₁
    exact keeps_stored hstore trivial
  | acceptBid id utxo ordinals payments =>
    obtain ⟨_, -, h₁⟩ := bind_eq_ok.mp h
    obtain ⟨_, -, h₂⟩ := bind_eq_ok.mp h₁
    obtain ⟨_, -, h₃⟩ := bind_eq_ok.mp h₂
    obtain ⟨_, -, hstore⟩ := bind_eq_ok.mp h₃
    exact keeps_stored hstore trivial
  | repayLoan id utxo amount =>
    obtain ⟨_, -, h₁⟩ := bind_eq_ok.mp h
    obtain ⟨_, -, h₂⟩ := bind_eq_ok.mp h₁
    dsimp only at h₂
    split at h₂
    · obtain ⟨_, -, h₃⟩ := bind_eq_ok.mp h₂
      exact absurd h₃ nofun
    · obtain ⟨_, -, h₃⟩ := bind_eq_ok.mp h₂
      obtain ⟨_, -, h₄⟩ := bind_eq_ok.mp h₃
      split at h₄
      · exact keeps_stored h₄ trivial
      · exact keeps_stored h₄ trivial
  | claimDefault id =>
    obtain ⟨_, -, h₁⟩ := bind_eq_ok.mp h
    obtain ⟨_, -, h₂⟩ := bind_eq_ok.mp h₁
    obtain ⟨_, -, hstore⟩ := bind_eq_ok.mp h₂
    exact keeps_stored hstore trivial

theorem initFeed_duties {deviation age : UInt64}
    (h : Oracle.run π accounts timestamp (.initFeed deviation age) = .ok out) :
    InOrder accounts out 0 [keeps Oracle.PriceFeed fun feed => feed.isInitialized = true ∧
        feed.maxDeviationBps = deviation ∧ feed.maxSubmissionAge = age,
      both signs (named fun feed : Oracle.PriceFeed => some feed.authority)] := by
  obtain ⟨authority, ha, h₁⟩ := bind_eq_ok.mp h
  obtain ⟨_, hs, h₂⟩ := bind_eq_ok.mp h₁
  obtain ⟨feed, -, h₃⟩ := bind_eq_ok.mp h₂
  obtain ⟨_, -, hstore⟩ := bind_eq_ok.mp h₃
  exact .cons (keeps_stored hstore ⟨rfl, rfl, rfl⟩)
    (.one ⟨signs_slot ha hs, named_stored hstore ha rfl⟩)

theorem updatePrice_duties {price : UInt64}
    (h : Oracle.run π accounts timestamp (.updatePrice price) = .ok out) :
    InOrder accounts out 0 [keeps Oracle.PriceFeed (·.isInitialized = true), signs] := by
  obtain ⟨publisher, ha, h₁⟩ := bind_eq_ok.mp h
  obtain ⟨_, hs, h₂⟩ := bind_eq_ok.mp h₁
  obtain ⟨feed, -, h₃⟩ := bind_eq_ok.mp h₂
  obtain ⟨_, hinit, h₄⟩ := bind_eq_ok.mp h₃
  obtain ⟨_, -, h₅⟩ := bind_eq_ok.mp h₄
  obtain ⟨submissions, -, h₆⟩ := bind_eq_ok.mp h₅
  have hready : feed.isInitialized = true := require_eq_ok.mp hinit
  refine .cons ?_ (.one (signs_slot ha hs))
  dsimp only at h₆
  split at h₆
  · exact keeps_stored h₆ hready
  · obtain ⟨median, -, h₇⟩ := bind_eq_ok.mp h₆
    split at h₇
    · obtain ⟨_, -, h₈⟩ := bind_eq_ok.mp h₇
      obtain ⟨_, -, hstore⟩ := bind_eq_ok.mp h₈
      exact keeps_stored hstore hready
    · exact keeps_stored h₇ hready

/-- The authority of the feed signed. -/
theorem requireAuthority_named {feed feed' : Oracle.PriceFeed} {u : Unit}
    (h : Oracle.requireAuthority feed accounts = .ok u) (hstore : store accounts 0 feed' = .ok out)
    (hkept : feed'.authority = feed.authority) :
    both signs (named fun feed : Oracle.PriceFeed => some feed.authority) accounts out 1 := by
  obtain ⟨authority, ha, h₁⟩ := bind_eq_ok.mp h
  obtain ⟨_, hs, h₂⟩ := bind_eq_ok.mp h₁
  have hkey : authority.key = feed.authority := by simpa using require_eq_ok.mp h₂
  exact ⟨signs_slot ha hs, named_stored hstore ha (by rw [hkept, hkey])⟩

theorem addPublisher_duties {publisher : Pubkey}
    (h : Oracle.run π accounts timestamp (.addPublisher publisher) = .ok out) :
    InOrder accounts out 0 [keeps Oracle.PriceFeed fun feed =>
        publisher ∈ feed.submissions.map (·.publisher),
      both signs (named fun feed : Oracle.PriceFeed => some feed.authority)] := by
  obtain ⟨feed, -, h₁⟩ := bind_eq_ok.mp h
  obtain ⟨_, -, h₂⟩ := bind_eq_ok.mp h₁
  obtain ⟨_, hauthority, h₃⟩ := bind_eq_ok.mp h₂
  obtain ⟨_, -, h₄⟩ := bind_eq_ok.mp h₃
  obtain ⟨_, -, hstore⟩ := bind_eq_ok.mp h₄
  refine .cons (keeps_stored hstore ?_) (.one (requireAuthority_named hauthority hstore rfl))
  rw [List.map_append]
  exact List.mem_append_right _ List.mem_cons_self

theorem removePublisher_duties {publisher : Pubkey}
    (h : Oracle.run π accounts timestamp (.removePublisher publisher) = .ok out) :
    InOrder accounts out 0 [keeps Oracle.PriceFeed fun feed =>
        publisher ∉ feed.submissions.map (·.publisher),
      both signs (named fun feed : Oracle.PriceFeed => some feed.authority)] := by
  obtain ⟨feed, -, h₁⟩ := bind_eq_ok.mp h
  obtain ⟨_, -, h₂⟩ := bind_eq_ok.mp h₁
  obtain ⟨_, hauthority, h₃⟩ := bind_eq_ok.mp h₂
  obtain ⟨_, -, h₄⟩ := bind_eq_ok.mp h₃
  obtain ⟨_, -, hstore⟩ := bind_eq_ok.mp h₄
  refine .cons (keeps_stored hstore ?_) (.one (requireAuthority_named hauthority hstore rfl))
  simp

end

/-! ## Runes -/

section
variable {accounts out : List AccountInfo} {timestamp : UInt64}

open Runes (RuneEtching RuneBalance)

/-- The third account signed a runes instruction. -/
theorem runesAuthority_signed {rest : Outcome (List AccountInfo)}
    (h : (do Runes.requireAuthority accounts; rest) = .ok out) : Signed accounts 2 := by
  obtain ⟨_, hauth, -⟩ := bind_eq_ok.mp h
  obtain ⟨a, b, c, left, rfl, hsigned⟩ := requireAuthority_eq_ok hauth
  exact ⟨c, rfl, hsigned⟩

section
variable {α : Type} [Borsh α] {v : α} {a b : AccountInfo} {rest : List AccountInfo}
  {d e : List UInt8}

/-- What the two rewritten slots read as. -/
theorem Rewrites.first (h : Rewrites accounts out a b rest d e) (hd : toVec v = some d) :
    recordAt α out 0 = some v :=
  recordAt_eq_some.mpr ⟨_, by rw [h.left]; rfl, tryFromSlice_toVec hd⟩

theorem Rewrites.second (h : Rewrites accounts out a b rest d e) (he : toVec v = some e) :
    recordAt α out 1 = some v :=
  recordAt_eq_some.mpr ⟨_, by rw [h.left]; rfl, tryFromSlice_toVec he⟩

end

theorem etch_duties {name : String} {symbol : UInt32} {divisibility : UInt8} {premine : UInt64}
    {terms : Option Runes.MintTerms}
    (h : Runes.run accounts timestamp (.etch name symbol divisibility premine terms) = .ok out) :
    InOrder accounts out 0 [keeps RuneEtching (·.isEtched = true), orIdle (gains premine.toNat),
      both signs (named fun rune : RuneEtching => some rune.etcher)] := by
  obtain ⟨a, b, c, rest, d, e, hrewrites, hsigned, -, hd, hbalance⟩ := runes_run_post h
  have hrune := hrewrites.first hd
  have hgiven := hrewrites.given
  refine .cons ⟨_, hrune, rfl⟩ (.cons ?_ (.one ⟨⟨c, by rw [hgiven]; rfl, hsigned⟩, _, hrune,
    c.key, rfl, by rw [hgiven]; rfl⟩))
  rcases hbalance with ⟨-, rfl⟩ | ⟨-, amount, hamount, he⟩
  · left
    rw [hrewrites.left, hgiven]
    rfl
  · exact .inr ⟨b, by rw [hgiven]; rfl, _, hrewrites.second he, hamount⟩

theorem runesMint_duties (h : Runes.run accounts timestamp .mint = .ok out) :
    InOrder accounts out 0 [keeps RuneEtching (·.isEtched = true), any gains, signs] := by
  obtain ⟨a, b, c, rest, d, e, rune, terms, mints, minted, amount, hrewrites, -, hetched, -, -, -,
    -, hd, hamount, he⟩ := runes_run_post h
  exact .cons ⟨_, hrewrites.first hd, hetched⟩
    (.cons ⟨_, b, by rw [hrewrites.given]; rfl, _, hrewrites.second he, hamount⟩
    (.one (runesAuthority_signed h)))

theorem runesTransfer_duties {n : UInt64}
    (h : Runes.run accounts timestamp (.transfer n) = .ok out) :
    InOrder accounts out 0 [loses n.toNat, gains n.toNat, signs] := by
  obtain ⟨a, b, rest, d, e, src, left, amount, hrewrites, hsrc, -, -, hleft, hd, hamount, he⟩ :=
    runes_run_post h
  have hheld : balanceIn a = src := by rw [balanceIn, hsrc, Option.getD_some]
  exact .cons ⟨a, by rw [hrewrites.given]; rfl, _, hrewrites.first hd, by rw [hheld]; exact hleft⟩
    (.cons ⟨b, by rw [hrewrites.given]; rfl, _, hrewrites.second he, hamount⟩
    (.one (runesAuthority_signed h)))

theorem runesBurn_duties {n : UInt64} (h : Runes.run accounts timestamp (.burn n) = .ok out) :
    InOrder accounts out 0 [keeps RuneEtching fun _ => True, loses n.toNat, signs] := by
  obtain ⟨a, b, rest, d, e, rune, src, left, burned, hrewrites, -, hsrc, -, -, hd, hleft, he⟩ :=
    runes_run_post h
  have hheld : balanceIn b = src := by rw [balanceIn, hsrc, Option.getD_some]
  exact .cons ⟨_, hrewrites.first hd, trivial⟩
    (.cons ⟨b, by rw [hrewrites.given]; rfl, _, hrewrites.second he, by rw [hheld]; exact hleft⟩
    (.one (runesAuthority_signed h)))

theorem initBalance_duties (h : Runes.run accounts timestamp .initBalance = .ok out) :
    InOrder accounts out 0 [keeps RuneBalance (·.isInitialized = true),
      named fun balance : RuneBalance => some balance.owner] := by
  obtain ⟨a, b, rest, d, hrewrites, -, hd⟩ := runes_run_post h
  have hbalance := hrewrites.first hd
  exact .cons ⟨_, hbalance, rfl⟩ (.one ⟨_, hbalance, b.key, rfl, by rw [hrewrites.given]; rfl⟩)

end

/-! ## Pools -/

/-- The user of a pool or a vault is looked for behind a check of the list, and signed. -/
theorem signs_user {α β : Type} {accounts out : List AccountInfo} {first : Outcome α} {i : Nat}
    {rest : Unit → Prog β} {th th' : Thread} {b : β}
    (h : Comp.Returns (do
      let _ ← (liftM first : Prog α)
      let user ← (liftM (slot accounts i) : Prog AccountInfo)
      let u ← (liftM user.requireSigner : Prog Unit)
      rest u) th b th') : signs accounts out i := by
  obtain ⟨_, -, h₁⟩ := returns_lift h
  obtain ⟨user, huser, h₂⟩ := returns_lift h₁
  obtain ⟨_, hsigned, -⟩ := returns_lift h₂
  exact signs_slot huser hsigned

section
variable {accounts out : List AccountInfo} {π : Profile} {th th' : Thread}

theorem initializePool_duties {feeNumerator feeDenominator : UInt64}
    (h : Comp.Returns (Swap.run π accounts (.initializePool feeNumerator feeDenominator)) th out
      th') :
    InOrder accounts out 0 [keeps PoolState (·.isInitialized = true),
      named fun pool : PoolState => some pool.tokenAMint,
      named fun pool : PoolState => some pool.tokenBMint,
      named fun pool : PoolState => some pool.tokenAReserve,
      named fun pool : PoolState => some pool.tokenBReserve,
      named fun pool : PoolState => some pool.lpMint] := by
  obtain ⟨_, -, h₁⟩ := returns_lift h
  obtain ⟨_, -, h₂⟩ := returns_lift h₁
  obtain ⟨pool, -, h₃⟩ := returns_lift h₂
  obtain ⟨_, -, h₄⟩ := returns_lift h₃
  obtain ⟨mintA, hmintA, h₅⟩ := returns_lift h₄
  obtain ⟨mintB, hmintB, h₆⟩ := returns_lift h₅
  obtain ⟨reserveA, hreserveA, h₇⟩ := returns_lift h₆
  obtain ⟨reserveB, hreserveB, h₈⟩ := returns_lift h₇
  obtain ⟨lpMint, hlpMint, h₉⟩ := returns_lift h₈
  obtain ⟨hstore, -⟩ := Comp.returns_ofExcept.mp h₉
  exact .cons (keeps_stored hstore rfl) (.cons (named_stored hstore hmintA rfl)
    (.cons (named_stored hstore hmintB rfl) (.cons (named_stored hstore hreserveA rfl)
    (.cons (named_stored hstore hreserveB rfl) (.one (named_stored hstore hlpMint rfl))))))

theorem swap_duties {amountIn least : UInt64}
    (h : Comp.Returns (Swap.run π accounts (.swap amountIn least)) th out th') :
    InOrder accounts out 0 [keeps PoolState fun _ => True, pays amountIn.toNat, any receives,
      receives amountIn.toNat, any pays, signs] := by
  obtain ⟨_, pool', _, _, _, _, drawn, _, -, -, -, -, -, -, -, -, hstore⟩ := swap_stages h
  obtain ⟨pool, x, y, -, -, -, -, -, htraded⟩ := swap_trades h
  exact .cons ⟨pool', recordAt_stored hstore, trivial⟩ (.cons htraded.source
    (.cons ⟨_, htraded.destination⟩ (.cons htraded.reserveIn (.cons ⟨_, htraded.reserveOut⟩
    (.one (signs_user h))))))

/-- What a pool has cached is in the token account. -/
theorem counted_cached {field : PoolState → UInt64} {pool : PoolState} {i : Nat}
    {held : List AccountInfo}
    (h : (recordAt TokenAccountState held i).map (·.amount) = some (field pool))
    (hstore : store held 0 pool = .ok out) (hi : i ≠ 0) : counted field accounts out i := by
  obtain ⟨token, htoken, hamount⟩ := Option.map_eq_some_iff.mp h
  exact ⟨pool, recordAt_stored hstore, token, (recordAt_unstored hstore hi).trans htoken,
    hamount.symm⟩

/-- So a pool has what its two reserves are left with. -/
theorem reserves_counted {held : List AccountInfo} {pool pool' : PoolState}
    (hsync : Swap.syncReservesAb held pool = .ok pool') (hstore : store held 0 pool' = .ok out) :
    counted PoolState.reserveA accounts out 3 ∧ counted PoolState.reserveB accounts out 4 := by
  obtain ⟨⟨hcachedA, hcachedB⟩, -⟩ := syncReservesAb_cached hsync
  exact ⟨counted_cached hcachedA hstore (by decide), counted_cached hcachedB hstore (by decide)⟩

theorem swapDeposit_duties {maxA maxB least : UInt64}
    (h : Comp.Returns (Swap.run π accounts (.deposit maxA maxB least)) th out th') :
    InOrder accounts out 0 [keeps PoolState fun _ => True, into (counted PoolState.reserveA),
      into (counted PoolState.reserveB), both (any receives) (counted PoolState.reserveA),
      both (any receives) (counted PoolState.reserveB), any receives, signs, any issues] := by
  obtain ⟨pool, pool', _, _, _, _, _, _, _, minted, _, _, hpool, -, -, -, -, -, hsync, hstore⟩ :=
    deposit_stages h
  obtain ⟨a, b, userLp, _, -, -, ⟨hpaidA, hpaidB⟩, ⟨hgotA, hgotB⟩, hlp, hissued⟩ :=
    deposit_moves hpool h
  obtain ⟨hA, hB⟩ : counted PoolState.reserveA accounts out 3 ∧
    counted PoolState.reserveB accounts out 4 := reserves_counted hsync hstore
  exact .cons ⟨pool', recordAt_stored hstore, trivial⟩ (.cons ⟨_, 3, hpaidA, hgotA, hA⟩
    (.cons ⟨_, 4, hpaidB, hgotB, hB⟩ (.cons ⟨⟨_, hgotA⟩, hA⟩ (.cons ⟨⟨_, hgotB⟩, hB⟩
    (.cons ⟨_, hlp⟩ (.cons (signs_user h) (.one ⟨_, hissued⟩)))))))

/-- The burn and the two transfers of a withdrawal. -/
theorem withdraw_moves {lpAmount leastA leastB : UInt64}
    (h : Comp.Returns (Swap.run π accounts (.withdraw lpAmount leastA leastB)) th out th') :
    ∃ a b, (Paid accounts out 3 a ∧ Paid accounts out 4 b) ∧
      (Received accounts out 1 a ∧ Received accounts out 2 b) ∧
      Paid accounts out 5 lpAmount.toNat ∧ Burned accounts out 7 lpAmount.toNat := by
  obtain ⟨_, _, _, _, outA, outB, _, burned, paidA, paidB, _, _, -, -, -, -, -, hburn, hpayA,
    hpayB, -, -, hstore⟩ := withdraw_stages h
  obtain ⟨_, _, _, _, _, _, hburned, -, hleft, hsupply⟩ :=
    burn_call (by decide) (by decide) (by decide) hburn
  obtain ⟨_, _, _, _, _, _, hpaidA, -, -, hleftA, hamountA⟩ :=
    transfer_call (by decide) (by decide) (by decide) hpayA
  obtain ⟨_, _, _, _, _, _, hpaidB, -, -, hleftB, hamountB⟩ :=
    transfer_call (by decide) (by decide) (by decide) hpayB
  -- What the later steps leave alone, and the earlier ones.
  have hstored : ∀ (α : Type) [Borsh α] n, n ≠ 0 → recordAt α out n = recordAt α paidB n :=
    fun _ _ n hn => recordAt_unstored hstore hn
  have hlast : ∀ (α : Type) [Borsh α] n, n ≠ 0 → n ≠ 4 → n ≠ 2 →
      recordAt α out n = recordAt α paidA n :=
    fun α _ n hn h₄ h₂ => (hstored α n hn).trans (hpaidB.recordAt_other h₄ h₂)
  have hburnt : ∀ (α : Type) [Borsh α] n, n ≠ 0 → n ≠ 4 → n ≠ 2 → n ≠ 3 → n ≠ 1 →
      recordAt α out n = recordAt α burned n :=
    fun α _ n hn h₄ h₂ h₃ h₁ => (hlast α n hn h₄ h₂).trans (hpaidA.recordAt_other h₃ h₁)
  have hfirst : ∀ n, n ≠ 5 → n ≠ 7 →
      recordAt TokenAccountState accounts n = recordAt TokenAccountState burned n :=
    fun n h₅ h₇ => (hburned.recordAt_other h₅ h₇).symm
  have hsecond : ∀ n, n ≠ 5 → n ≠ 7 → n ≠ 3 → n ≠ 1 →
      recordAt TokenAccountState accounts n = recordAt TokenAccountState paidA n :=
    fun n h₅ h₇ h₃ h₁ => (hfirst n h₅ h₇).trans (hpaidA.recordAt_other h₃ h₁).symm
  refine ⟨outA.toNat, outB.toNat, ⟨?_, ?_⟩, ⟨?_, ?_⟩, ?_, ?_⟩
  · exact (hpaidA.changed (by decide) ⟨rfl, hleftA⟩).congr (hfirst 3 (by decide) (by decide))
      (hlast _ 3 (by decide) (by decide) (by decide))
  · exact (hpaidB.changed (by decide) ⟨rfl, hleftB⟩).congr
      (hsecond 4 (by decide) (by decide) (by decide) (by decide)) (hstored _ 4 (by decide))
  · exact (hpaidA.changed' (by decide) ⟨rfl, hamountA⟩).congr (hfirst 1 (by decide) (by decide))
      (hlast _ 1 (by decide) (by decide) (by decide))
  · exact (hpaidB.changed' (by decide) ⟨rfl, hamountB⟩).congr
      (hsecond 2 (by decide) (by decide) (by decide) (by decide)) (hstored _ 2 (by decide))
  · exact (hburned.changed (by decide) ⟨rfl, hleft⟩).congr rfl
      (hburnt _ 5 (by decide) (by decide) (by decide) (by decide) (by decide))
  · exact (hburned.changed' (by decide) ⟨rfl, hsupply⟩).congr rfl
      (hburnt _ 7 (by decide) (by decide) (by decide) (by decide) (by decide))

theorem swapWithdraw_duties {lpAmount leastA leastB : UInt64}
    (h : Comp.Returns (Swap.run π accounts (.withdraw lpAmount leastA leastB)) th out th') :
    InOrder accounts out 0 [keeps PoolState fun _ => True, outOf (counted PoolState.reserveA),
      outOf (counted PoolState.reserveB), both (any pays) (counted PoolState.reserveA),
      both (any pays) (counted PoolState.reserveB), pays lpAmount.toNat, signs,
      burns lpAmount.toNat] := by
  obtain ⟨_, pool', _, _, _, _, _, _, _, _, _, _, -, -, -, -, -, -, -, -, -, hsync, hstore⟩ :=
    withdraw_stages h
  obtain ⟨a, b, ⟨hpaidA, hpaidB⟩, ⟨hgotA, hgotB⟩, hlp, hburned⟩ := withdraw_moves h
  obtain ⟨hA, hB⟩ : counted PoolState.reserveA accounts out 3 ∧
    counted PoolState.reserveB accounts out 4 := reserves_counted hsync hstore
  exact .cons ⟨pool', recordAt_stored hstore, trivial⟩ (.cons ⟨_, 3, hgotA, hpaidA, hA⟩
    (.cons ⟨_, 4, hgotB, hpaidB, hB⟩ (.cons ⟨⟨_, hpaidA⟩, hA⟩ (.cons ⟨⟨_, hpaidB⟩, hB⟩
    (.cons hlp (.cons (signs_user h) (.one hburned)))))))

end

/-! ## Markets and vaults -/

section
variable {accounts out : List AccountInfo} {π : Profile} {timestamp : UInt64} {th th' : Thread}

open MoneyMarket (MarketState)
open Vault (VaultState)

theorem initMarket_duties {terms : MoneyMarket.MarketTerms}
    (h : Comp.Returns (MoneyMarket.run π accounts timestamp (.initMarket terms)) th out th') :
    InOrder accounts out 0 [keeps MarketState (·.isInitialized = true),
      named fun market : MarketState => some market.collateralMint,
      named fun market : MarketState => some market.borrowMint,
      named fun market : MarketState => some market.collateralVault,
      named fun market : MarketState => some market.borrowVault, signs,
      named fun market : MarketState => some market.oracleFeed] := by
  obtain ⟨hrun, -⟩ := Comp.returns_ofExcept.mp h
  obtain ⟨_, -, h₁⟩ := bind_eq_ok.mp hrun
  obtain ⟨admin, hadmin, h₂⟩ := bind_eq_ok.mp h₁
  obtain ⟨_, hsigned, h₃⟩ := bind_eq_ok.mp h₂
  obtain ⟨_, -, h₄⟩ := bind_eq_ok.mp h₃
  obtain ⟨_, -, h₅⟩ := bind_eq_ok.mp h₄
  obtain ⟨_, -, h₆⟩ := bind_eq_ok.mp h₅
  obtain ⟨_, -, h₇⟩ := bind_eq_ok.mp h₆
  obtain ⟨old, -, h₈⟩ := bind_eq_ok.mp h₇
  obtain ⟨_, -, h₉⟩ := bind_eq_ok.mp h₈
  obtain ⟨collateralMint, hcollateralMint, h₁₀⟩ := bind_eq_ok.mp h₉
  obtain ⟨borrowMint, hborrowMint, h₁₁⟩ := bind_eq_ok.mp h₁₀
  obtain ⟨collateralVault, hcollateralVault, h₁₂⟩ := bind_eq_ok.mp h₁₁
  obtain ⟨borrowVault, hborrowVault, h₁₃⟩ := bind_eq_ok.mp h₁₂
  obtain ⟨feed, hfeed, hstore⟩ := bind_eq_ok.mp h₁₃
  exact .cons (keeps_stored hstore rfl) (.cons (named_stored hstore hcollateralMint rfl)
    (.cons (named_stored hstore hborrowMint rfl) (.cons (named_stored hstore hcollateralVault rfl)
    (.cons (named_stored hstore hborrowVault rfl) (.cons (signs_slot hadmin hsigned)
    (.one (named_stored hstore hfeed rfl)))))))

theorem initVault_duties {fee : UInt64}
    (h : Comp.Returns (Vault.run π accounts timestamp (.initVault fee)) th out th') :
    InOrder accounts out 0 [
      keeps VaultState fun vault => vault.isInitialized = true ∧ vault.performanceFeeBps = fee,
      named fun vault : VaultState => some vault.assetMint,
      named fun vault : VaultState => some vault.shareMint,
      named fun vault : VaultState => some vault.assetVault,
      both signs (named fun vault : VaultState => some vault.manager)] := by
  obtain ⟨hrun, -⟩ := Comp.returns_ofExcept.mp h
  obtain ⟨_, -, h₁⟩ := bind_eq_ok.mp hrun
  obtain ⟨signer, hsigner, h₂⟩ := bind_eq_ok.mp h₁
  obtain ⟨_, hsigned, h₃⟩ := bind_eq_ok.mp h₂
  obtain ⟨_, -, h₄⟩ := bind_eq_ok.mp h₃
  obtain ⟨old, -, h₅⟩ := bind_eq_ok.mp h₄
  obtain ⟨_, -, h₆⟩ := bind_eq_ok.mp h₅
  obtain ⟨assetMint, hassetMint, h₇⟩ := bind_eq_ok.mp h₆
  obtain ⟨shareMint, hshareMint, h₈⟩ := bind_eq_ok.mp h₇
  obtain ⟨assetVault, hassetVault, h₉⟩ := bind_eq_ok.mp h₈
  obtain ⟨manager, hmanager, hstore⟩ := bind_eq_ok.mp h₉
  exact .cons (keeps_stored hstore ⟨rfl, rfl⟩) (.cons (named_stored hstore hassetMint rfl)
    (.cons (named_stored hstore hshareMint rfl) (.cons (named_stored hstore hassetVault rfl)
    (.one ⟨signs_slot hsigner hsigned, named_stored hstore hmanager rfl⟩))))

theorem vaultDeposit_duties {amount least : UInt64}
    (h : Comp.Returns (Vault.run π accounts timestamp (.deposit amount least)) th out th') :
    InOrder accounts out 0 [keeps VaultState (·.isInitialized = true), pays amount.toNat,
      receives amount.toNat, any receives, any issues, signs] := by
  obtain ⟨vault, nav, shares, delta, hdeposited⟩ := deposit_call h
  obtain ⟨totalAssets, totalShares, hstored, -, -⟩ := hdeposited.stored
  obtain ⟨_, _, _, _, _, _, _, _, _, -, -, -, -, hpay, hmint, -, -, hstore⟩ := deposit_steps h
  obtain ⟨_, _, _, _, _, _, hpaid, -, -, hleft, -⟩ :=
    transfer_call (by decide) (by decide) (by decide) hpay
  obtain ⟨_, _, _, _, _, _, hminted, -⟩ :=
    mintTo_call (by decide) (by decide) (by decide) hmint
  have hsource : Paid accounts out 1 amount.toNat :=
    (hpaid.changed (by decide) ⟨rfl, hleft⟩).congr rfl ((recordAt_unstored hstore (by decide)).trans
      (hminted.recordAt_other (by decide) (by decide)))
  exact .cons ⟨_, hstored, hdeposited.initialized⟩ (.cons hsource (.cons hdeposited.received
    (.cons ⟨_, hdeposited.credited⟩ (.cons ⟨_, hdeposited.issued⟩
    (.one (signs_user h))))))

/-- With no more accounts than these nothing is redeemed from a market. -/
theorem autoUndeploy_few {vault : VaultState} {assets : UInt64}
    {r : VaultState × List AccountInfo} (hlength : accounts.length < 9)
    (h : Comp.Returns (Vault.autoUndeploy π vault accounts timestamp assets) th r th') :
    r = (vault, accounts) := by
  obtain ⟨idle, -, h₁⟩ := returns_lift h
  rw [if_neg fun hlent => absurd hlent.2 (Nat.not_le_of_lt hlength)] at h₁
  exact (Comp.returns_pure.mp h₁).1

theorem vaultWithdraw_duties {shares least : UInt64} (hlength : accounts.length = 6)
    (h : Comp.Returns (Vault.run π accounts timestamp (.withdraw shares least)) th out th') :
    InOrder accounts out 0 [keeps VaultState fun _ => True, any receives, any pays,
      pays shares.toNat, burns shares.toNat, signs] := by
  obtain ⟨vault, nav, assets, hwithdrawn⟩ := withdraw_call h
  obtain ⟨_, totalAssets, totalShares, hstored, -, -⟩ := hwithdrawn.stored
  obtain ⟨_, _, _, r, _, _, _, _, _, _, -, -, -, -, hundeploy, hburn, hpay, -, -, hstore⟩ :=
    withdraw_steps h
  obtain rfl := autoUndeploy_few (by omega) hundeploy
  obtain ⟨_, _, _, _, _, _, hburned, -, hleft, -⟩ :=
    burn_call (by decide) (by decide) (by decide) hburn
  obtain ⟨_, _, _, _, _, _, hpaid, -, -, hout, -⟩ :=
    transfer_call (by decide) (by decide) (by decide) hpay
  have hassets : any pays accounts out 2 := ⟨_, (hpaid.changed (by decide) ⟨rfl, hout⟩).congr
    (hburned.recordAt_other (by decide) (by decide)).symm (recordAt_unstored hstore (by decide))⟩
  have hshares : Paid accounts out 3 shares.toNat :=
    (hburned.changed (by decide) ⟨rfl, hleft⟩).congr rfl
      ((recordAt_unstored hstore (by decide)).trans
        (hpaid.recordAt_other (by decide) (by decide)))
  exact .cons ⟨_, hstored, trivial⟩ (.cons ⟨_, hwithdrawn.received⟩ (.cons hassets
    (.cons hshares (.cons hwithdrawn.burned (.one (signs_user h))))))

theorem report_duties (hlength : accounts.length = 5)
    (h : Comp.Returns (Vault.run π accounts timestamp .report) th out th') :
    InOrder accounts out 0 [keeps VaultState (·.isInitialized = true),
      both signs (named fun vault : VaultState => some vault.manager),
      counted VaultState.totalAssets, orIdle (any issues), orIdle (any receives)] := by
  obtain ⟨vault, nav, fee, hreported⟩ := report_call h
  obtain ⟨totalShares, hstored, -⟩ := hreported.stored
  obtain ⟨_, -, h₁⟩ := returns_lift h
  obtain ⟨manager, hmanager, h₂⟩ := returns_lift h₁
  obtain ⟨_, hsigned, h₃⟩ := returns_lift h₂
  obtain ⟨vault', hload, h₄⟩ := returns_lift h₃
  obtain ⟨_, -, h₅⟩ := returns_lift h₄
  obtain ⟨_, hnamed, -⟩ := returns_lift h₅
  obtain rfl := Option.some.inj ((recordAt_of_load hload).symm.trans hreported.held)
  have hkey : manager.key = vault'.manager := by simpa using require_eq_ok.mp hnamed
  -- Five accounts are no market, so nothing is lent.
  have hcounted : ∃ token ∈ recordAt TokenAccountState out 2, nav = token.amount := by
    obtain ⟨deployed, idle, hdeployed, hidle, hnav⟩ := hreported.priced
    obtain ⟨token, hload', hret⟩ := bind_eq_ok.mp hidle
    obtain rfl := Except.ok.inj hret
    refine ⟨token, (recordAt_congr (report_other h (by decide))).trans (recordAt_of_load hload'),
      ?_⟩
    unfold Vault.deployedValue at hdeployed
    split at hdeployed
    · obtain ⟨_, hsix, -⟩ := bind_eq_ok.mp hdeployed
      have : 6 ≤ accounts.length := of_decide_eq_true (require_eq_ok.mp hsix)
      omega
    · obtain rfl := Except.ok.inj hdeployed
      exact UInt64.toNat_inj.mp ((checkedAdd_eq_some hnav).trans (Nat.add_zero _))
  obtain ⟨token, htoken, hamount⟩ := hcounted
  have hshares : orIdle (any issues) accounts out 3 ∧ orIdle (any receives) accounts out 4 := by
    by_cases hfee : 0 < fee
    · exact ⟨.inr ⟨_, (hreported.issued hfee).1⟩, .inr ⟨_, (hreported.issued hfee).2⟩⟩
    · exact ⟨.inl (hreported.kept hfee 3 (by decide)), .inl (hreported.kept hfee 4 (by decide))⟩
  exact .cons ⟨_, hstored, hreported.initialized⟩
    (.cons ⟨signs_slot hmanager hsigned, _, hstored, manager.key, by rw [hkey]; rfl,
      keyAt_slot (slot_eq_ok hmanager)⟩
    (.cons ⟨_, hstored, token, htoken, hamount⟩ (.cons hshares.1 (.one hshares.2))))

end

/-! ## The calls that agree -/

section
variable {ix : Instruction} {accounts out : List AccountInfo} {π : Profile}
  {hasher : Lending.Hasher} {timestamp : UInt64} {th th' : Thread} {v : BuiltinInstruction}

/-- The handler of a variant succeeded. -/
def Handled (π : Profile) (hasher : Lending.Hasher) (accounts out : List AccountInfo)
    (timestamp : UInt64) (th th' : Thread) : BuiltinInstruction → Prop
  | .system sx => System.run accounts sx = .ok out
  | .token tx => Token.run π accounts tx = .ok out
  | .swap sx => Comp.Returns (Swap.run π accounts sx) th out th'
  | .lending lx => Signed accounts 1 ∧ Lending.run π hasher accounts timestamp lx = .ok out
  | .runes rx => Runes.run accounts timestamp rx = .ok out
  | .moneyMarket mx => Comp.Returns (MoneyMarket.run π accounts timestamp mx) th out th'
  | .vault vx => Comp.Returns (Vault.run π accounts timestamp vx) th out th'
  | .oracle ox => Oracle.run π accounts timestamp ox = .ok out

/-- A program that succeeds on the encoding of a variant ran its handler. -/
theorem handled_of_returns (hprogram : ix.programId = v.programId)
    (hencode : v.encode = some ix.data)
    (h : Comp.Returns (runBuiltin π hasher ix.programId accounts ix.data timestamp) th out th') :
    Handled π hasher accounts out timestamp th th' v := by
  have hread : ∀ {α : Type} [Borsh α] {a a' : α}, toVec a = some ix.data →
      okOr .invalidInstruction (tryFromSlice ix.data) = .ok a' → a' = a := by
    intro α _ a a' hvec ha
    exact Option.some.inj ((okOr_eq_ok.mp ha).symm.trans (tryFromSlice_toVec hvec))
  rw [hprogram] at h
  cases v with
  | system sx =>
    obtain ⟨hok, -⟩ := Comp.returns_ofExcept.mp h
    obtain ⟨_, hsx, hrun⟩ := bind_eq_ok.mp hok
    obtain rfl := hread hencode hsx
    exact hrun
  | token tx =>
    obtain ⟨hok, -⟩ := Comp.returns_ofExcept.mp ((runBuiltin_token ..) ▸ h)
    obtain ⟨_, htx, hrun⟩ := bind_eq_ok.mp hok
    obtain rfl := hread hencode htx
    exact hrun
  | swap sx =>
    obtain ⟨_, hsx, hrun⟩ := returns_lift ((runBuiltin_swap ..) ▸ h)
    obtain rfl := hread hencode hsx
    exact hrun
  | lending lx =>
    obtain ⟨hok, -⟩ := Comp.returns_ofExcept.mp ((runBuiltin_lending ..) ▸ h)
    obtain ⟨_, hlx, hrest⟩ := bind_eq_ok.mp hok
    obtain ⟨_, hsigned, hrun⟩ := bind_eq_ok.mp hrest
    obtain rfl := hread hencode hlx
    have hslot := require_eq_ok.mp hsigned
    cases hfirst : accounts[1]? with
    | none =>
      rw [hfirst] at hslot
      exact absurd hslot nofun
    | some a =>
      rw [hfirst] at hslot
      exact ⟨⟨a, hfirst, hslot⟩, hrun⟩
  | runes rx =>
    obtain ⟨hok, -⟩ := Comp.returns_ofExcept.mp ((runBuiltin_runes ..) ▸ h)
    obtain ⟨_, hrx, hrun⟩ := bind_eq_ok.mp hok
    obtain rfl := hread hencode hrx
    exact hrun
  | moneyMarket mx =>
    obtain ⟨_, hmx, hrun⟩ := returns_lift ((runBuiltin_moneyMarket ..) ▸ h)
    obtain rfl := hread hencode hmx
    exact hrun
  | vault vx =>
    obtain ⟨_, hvx, hrun⟩ := returns_lift ((runBuiltin_vault ..) ▸ h)
    obtain rfl := hread hencode hvx
    exact hrun
  | oracle ox =>
    obtain ⟨hok, -⟩ := Comp.returns_ofExcept.mp h
    obtain ⟨_, hox, hrest⟩ := bind_eq_ok.mp hok
    obtain ⟨_, -, hrun⟩ := bind_eq_ok.mp hrest
    obtain rfl := hread hencode hox
    exact hrun

/-- The call lists what the handler of the variant looks at: enough accounts, the signers marked,
    and each account in the slot of its duty. -/
structure Export.Fits (e : Export) (v : BuiltinInstruction) : Prop where
  program : e.built.programId = v.programId
  marked : (needsOf v).marked e.built.accounts = true
  withoutMarket : WithoutMarket e.built.accounts.length v
  keys : (e.built.accounts.map (·.pubkey)).take e.cast.length = e.cast.map Prod.fst
  duties : ∀ {π : Profile} {hasher : Lending.Hasher} {accounts out : List AccountInfo}
    {timestamp : UInt64} {th th' : Thread}, accounts.length = e.built.accounts.length →
    Handled π hasher accounts out timestamp th th' v → InOrder accounts out 0 (e.cast.map Prod.snd)

variable {e : Export}

/-- With the encoding of the variant as its data, such a call agrees. -/
theorem Export.Fits.agrees (h : e.Fits v) (hv : e.meant v) (hencode : v.encode = some e.built.data)
    (hlisted : Listed e.built accounts) (hgiven : v = .vault .report → MarketGiven accounts) :
    e.Agrees accounts := by
  have hdecode : BuiltinInstruction.decode e.built.programId e.built.data = some v := by
    rw [h.program]
    exact BuiltinInstruction.decode_encode hencode
  refine ⟨v, hdecode, hv, not_wants h.program hencode hlisted h.marked h.withoutMarket hgiven, ?_⟩
  intro c hc
  obtain ⟨i, hi⟩ := List.mem_iff_getElem?.mp hc
  refine ⟨i, ?_, fun π hasher accounts out timestamp th th' hlength hret => ?_⟩
  · have hlt : i < e.cast.length := (List.getElem?_eq_some_iff.mp hi).1
    rw [← List.getElem?_map, ← List.getElem?_take_of_lt hlt, h.keys, List.getElem?_map, hi]
    rfl
  · have hduty : (e.cast.map Prod.snd)[i]? = some c.2 := by
      rw [List.getElem?_map, hi]
      rfl
    have hslot := (h.duties hlength (handled_of_returns h.program hencode hret)).slot hduty
    rwa [Nat.zero_add] at hslot

/-- A run that is refused for too few accounts, where some more would do. -/
theorem wants_of_refused (more : List AccountInfo) (hprogram : ix.programId = v.programId)
    (hencode : v.encode = some ix.data)
    (hsuits : Suits (.err .notEnoughAccounts) (accounts ++ more) (needsOf v))
    (hfew : ∀ vx, v = .vault vx → (accounts ++ more).length < 9)
    (hgiven : v = .vault .report → MarketGiven (accounts ++ more))
    (hrefused : (Comp.exec (runBuiltin .dev .sorted ix.programId accounts ix.data 0)
      (beginExecution {})).1 = .error (.err .notEnoughAccounts)) : Wants ix accounts :=
  ⟨.sorted, 0, _, .inl rfl, dispatch_error hrefused, more,
    dispatch_declares (f := .err .notEnoughAccounts) trivial
      (provides_of_suits hprogram hencode hsuits hfew fun _ => hgiven) _⟩

/-- A vault that has lent wants its market in a report. -/
theorem report_wants (hprogram : ix.programId = ProgramIds.vaultProgram)
    (hencode : toVec Vault.VaultInstruction.report = some ix.data) (hlisted : Listed ix accounts)
    (hlength : ix.accounts.length = 5)
    (hmarked : (vaultNeeds 0 .report).marked ix.accounts = true) (h : ¬ MarketGiven accounts) :
    Wants ix accounts := by
  have hfive : accounts.length = 5 := hlisted.length.trans hlength
  have hsuits : Suits (.err .notEnoughAccounts) accounts (vaultNeeds 0 .report) :=
    hlisted.suits nofun hmarked
  unfold MarketGiven at h
  push Not at h
  obtain ⟨vault, manager, hload, hinit, hslot, hkey, hshares, -⟩ := h
  obtain ⟨a, ha, hsigned⟩ := hsuits.signs 1 List.mem_cons_self
  obtain rfl : manager = a := Option.some.inj (hslot.symm.trans ha)
  refine wants_of_refused [manager] (v := .vault .report) hprogram hencode hsuits.appended ?_ ?_ ?_
  · intro _ _
    rw [List.length_append, hfive]
    exact (by decide : 6 < 9)
  · intro _ _ _ _ _ _ _ _
    rw [List.length_append, hfive]
    exact Nat.le_refl 6
  · rw [hprogram, runBuiltin_vault]
    unfold Vault.process
    rw [exec_ok_bind (okOr_eq_ok.mpr (tryFromSlice_toVec hencode))]
    exact report_refused hfive hload hinit hslot hsigned hkey hshares _

/-- So a call of a report agrees only where the market is not needed. -/
theorem Export.Fits.given (h : e.Fits v) (hencode : v.encode = some e.built.data)
    (hlisted : Listed e.built accounts) (hwants : ¬ Wants e.built accounts) :
    v = .vault .report → MarketGiven accounts := by
  rintro rfl
  by_contra hnot
  exact hwants (report_wants h.program hencode hlisted h.withoutMarket h.marked hnot)

end

end Proof
end Himsha
