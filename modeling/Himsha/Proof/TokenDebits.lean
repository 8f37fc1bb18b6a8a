import Himsha.Proof.TokenSlots

/-!
# Who may take from a token account

A token account records its owner and a delegate with an allowance. The instructions that take
something from one do so in their first slot, and ask at most that the account in the third slot
has signed: who that is is compared with nothing. `OwnerSigns` is the comparison that is missing,
and `debits_authorized_iff` says that it is all that is missing.
-/

set_option autoImplicit false

namespace Himsha
namespace Proof

open Himsha.Lib Himsha.Runtime Himsha.Programs Himsha.Vm Token

/-- The account still holds no less, with the same delegate and the same allowance. -/
def Spared (t : TokenAccountState) (post : AccountInfo) : Prop :=
  ∃ t' : TokenAccountState, tryFromSlice post.data = some t' ∧ t.amount ≤ t'.amount ∧
    t'.delegate = t.delegate ∧ t'.delegatedAmount = t.delegatedAmount

/-- Somebody who signed is the recorded owner. -/
def OwnerSigned (accounts : List AccountInfo) (t : TokenAccountState) : Prop :=
  ∃ s ∈ accounts, s.isSigner = true ∧ s.key = t.owner

/-- The instruction is a transfer, somebody who signed is the recorded delegate, and the amount was
    taken off the allowance. -/
def DelegateSigned (accounts : List AccountInfo) (ix : TokenInstruction) (t : TokenAccountState)
    (post : AccountInfo) : Prop :=
  ∃ n s, ix = .transfer n ∧ s ∈ accounts ∧ s.isSigner = true ∧ t.delegate = some s.key ∧
    n ≤ t.delegatedAmount ∧ ∃ t' : TokenAccountState, tryFromSlice post.data = some t' ∧
      t'.delegatedAmount.toNat + n.toNat = t.delegatedAmount.toNat

/-- A token account that lost something lost it to its owner or, in a transfer, to its delegate. -/
def DebitsAuthorized (accounts out : List AccountInfo) (data : List UInt8) : Prop :=
  ∀ ix, tryFromSlice data = some ix → ∀ (i : Nat) a b (t : TokenAccountState),
    accounts[i]? = some a → out[i]? = some b → tryFromSlice a.data = some t →
    Spared t b ∨ OwnerSigned accounts t ∨ DelegateSigned accounts ix t b

/-- The instruction takes something from the token account in the first slot. A mint that is
    initialised over it erases it. -/
def debits (accounts : List AccountInfo) : TokenInstruction → TokenAccountState → Prop
  | .initializeMint _ _ _, _ => True
  | .transfer n, _ => n ≠ 0
  | .burn n, _ => n ≠ 0
  | .approve n, t => ¬ (t.delegate = accounts[1]?.map (·.key) ∧ t.delegatedAmount = n)
  | .revoke, t => ¬ (t.delegate = none ∧ t.delegatedAmount = 0)
  | .closeAccount, _ => True
  | .initializeAccount, _ | .mintTo _, _ | .freezeAccount, _ | .thawAccount, _ => False

/-- What an instruction takes from is owned by somebody who signed. -/
def OwnerSigns (accounts : List AccountInfo) (data : List UInt8) : Prop :=
  ∀ ix ∈ (tryFromSlice data : Option TokenInstruction), ∀ a ∈ accounts[0]?,
    ∀ t ∈ (tryFromSlice a.data : Option TokenAccountState),
      debits accounts ix t → OwnerSigned accounts t

instance (accounts : List AccountInfo) (t : TokenAccountState) :
    Decidable (OwnerSigned accounts t) :=
  inferInstanceAs (Decidable (∃ s ∈ accounts, s.isSigner = true ∧ s.key = t.owner))

instance (accounts : List AccountInfo) (t : TokenAccountState) :
    DecidablePred fun ix => debits accounts ix t
  | .initializeMint .. | .closeAccount => isTrue trivial
  | .transfer _ | .burn _ => inferInstanceAs (Decidable (_ ≠ _))
  | .approve _ | .revoke => inferInstanceAs (Decidable (¬ (_ ∧ _)))
  | .initializeAccount | .mintTo _ | .freezeAccount | .thawAccount => isFalse not_false

instance (accounts : List AccountInfo) (data : List UInt8) : Decidable (OwnerSigns accounts data) :=
  inferInstanceAs (Decidable (∀ ix ∈ (tryFromSlice data : Option TokenInstruction),
    ∀ a ∈ accounts[0]?, ∀ t ∈ (tryFromSlice a.data : Option TokenAccountState),
      debits accounts ix t → OwnerSigned accounts t))

/-! ## What a run leaves in its slots -/

/-- Slot by slot: the token accounts are spared but for what the instruction takes from the
    first. -/
def Takes (accounts mid : List AccountInfo) (ix : TokenInstruction) : Prop :=
  ∀ (i : Nat) a b (t : TokenAccountState), accounts[i]? = some a → mid[i]? = some b →
    tryFromSlice a.data = some t → (Spared t b ↔ ¬ (i = 0 ∧ debits accounts ix t))

section
variable {accounts mid rest : List AccountInfo} {a a' b b' : AccountInfo} {ix : TokenInstruction}

theorem Spared.refl {t : TokenAccountState} (h : tryFromSlice a.data = some t) : Spared t a :=
  ⟨t, h, UInt64.le_refl _, rfl, rfl⟩

theorem takes_first (hfirst : ∀ t, tryFromSlice a.data = some t →
    (Spared t a' ↔ ¬ debits (a :: rest) ix t)) : Takes (a :: rest) (a' :: rest) ix := by
  intro i x y t hx hy ht
  cases i with
  | zero =>
    cases hx
    cases hy
    simpa using hfirst t ht
  | succ i =>
    rw [List.getElem?_cons_succ] at hx hy
    rw [hx] at hy
    cases hy
    simp [Spared.refl ht]

theorem takes_pair (hfirst : ∀ t, tryFromSlice a.data = some t →
      (Spared t a' ↔ ¬ debits (a :: b :: rest) ix t))
    (hsecond : ∀ t, tryFromSlice b.data = some t → Spared t b') :
    Takes (a :: b :: rest) (a' :: b' :: rest) ix := by
  intro i x y t hx hy ht
  match i with
  | 0 =>
    cases hx
    cases hy
    simpa using hfirst t ht
  | 1 =>
    cases hx
    cases hy
    simp [hsecond t ht]
  | i + 2 =>
    rw [List.getElem?_cons_succ, List.getElem?_cons_succ] at hx hy
    rw [hx] at hy
    cases hy
    simp [Spared.refl ht]

/-- An encoding that was written is what is read back. -/
theorem spared_written {t t' : TokenAccountState} {d : List UInt8} (hd : toVec t' = some d) :
    Spared t { a with data := d } ↔ t.amount ≤ t'.amount ∧ t'.delegate = t.delegate ∧
      t'.delegatedAmount = t.delegatedAmount := by
  constructor
  · rintro ⟨s, hs, hrest⟩
    have hback : tryFromSlice d = some s := hs
    rw [tryFromSlice_toVec hd, Option.some.injEq] at hback
    exact hback ▸ hrest
  · exact fun h => ⟨t', tryFromSlice_toVec hd, h⟩

theorem not_spared_mint {t : TokenAccountState} {mint : MintState} {d : List UInt8}
    (hd : toVec mint = some d) : ¬ Spared t { a with data := d } := by
  rintro ⟨s, hs, -⟩
  have hback : tryFromSlice d = some s := hs
  rw [mint_not_token (tryFromSlice_toVec hd)] at hback
  cases hback

/-- An instruction that rewrites the token account in its first slot. -/
theorem takes_touch {token token' : TokenAccountState} (hload : load accounts 0 = .ok token)
    (h : store accounts 0 token' = .ok mid)
    (hdebits : token.amount ≤ token'.amount ∧ token'.delegate = token.delegate ∧
      token'.delegatedAmount = token.delegatedAmount ↔ ¬ debits accounts ix token) :
    Takes accounts mid ix := by
  obtain ⟨a, rest, ha, hgiven, d, hd, rfl⟩ := store_first h
  obtain ⟨a', ha', hdata⟩ := load_eq_ok hload
  rw [ha, Option.some.injEq] at ha'
  subst ha' hgiven
  refine takes_first fun t ht => ?_
  rw [hdata, Option.some.injEq] at ht
  subst ht
  rw [spared_written hd, hdebits]

/-- **What each token instruction takes.** -/
theorem token_takes {π : Profile} (h : Token.run π accounts ix = .ok mid) :
    Takes accounts mid ix := by
  have hpost := token_run_post h
  cases ix with
  | initializeMint decimals authority freeze =>
    obtain ⟨a, rest, mint, ⟨rfl, d, hd, rfl⟩, -⟩ := hpost
    exact takes_first fun t _ => iff_of_false (not_spared_mint hd) (not_not.mpr trivial)
  | initializeAccount =>
    obtain ⟨mintAcc, -, h₁⟩ := bind_eq_ok.mp h
    obtain ⟨_, -, h₂⟩ := bind_eq_ok.mp h₁
    obtain ⟨token, hload, h₃⟩ := bind_eq_ok.mp h₂
    obtain ⟨_, -, h₄⟩ := bind_eq_ok.mp h₃
    obtain ⟨a, rest, ha, rfl, d, hd, rfl⟩ := store_first h₄
    obtain ⟨a', ha', htoken⟩ := loadOr_eq_ok hload
    rw [ha, Option.some.injEq] at ha'
    subst ha'
    refine takes_first fun t ht => ?_
    rw [ht, Option.getD_some] at htoken
    subst htoken
    rw [spared_written hd]
    exact iff_of_true ⟨UInt64.le_refl _, rfl, rfl⟩ not_false
  | mintTo n =>
    obtain ⟨a, b, rest, mint, dest, supply, amount, hwrites, -, -, hamount⟩ := hpost
    obtain ⟨rfl, -, ⟨hmint, hdest⟩, d, e, hd, he, rfl⟩ := hwrites
    refine takes_pair (fun t ht => ?_) fun t ht => ?_
    · rw [mint_not_token hmint] at ht
      cases ht
    · rw [hdest, Option.some.injEq] at ht
      subst ht
      have hraised : dest.amount ≤ amount := UInt64.le_iff_toNat_le.mpr (by omega)
      exact (spared_written he).mpr ⟨hraised, rfl, rfl⟩
  | transfer n =>
    obtain ⟨a, b, rest, source, dest, left, amount, hwrites, -, hleft, hamount⟩ := hpost
    obtain ⟨rfl, -, ⟨hsource, hdest⟩, d, e, hd, he, rfl⟩ := hwrites
    refine takes_pair (fun t ht => ?_) fun t ht => ?_
    · rw [hsource, Option.some.injEq] at ht
      subst ht
      rw [spared_written hd]
      simp only [debits, and_true, not_not, UInt64.le_iff_toNat_le, ← UInt64.toNat_inj,
        UInt64.toNat_zero]
      omega
    · rw [hdest, Option.some.injEq] at ht
      subst ht
      have hraised : dest.amount ≤ amount := UInt64.le_iff_toNat_le.mpr (by omega)
      exact (spared_written he).mpr ⟨hraised, rfl, rfl⟩
  | burn n =>
    obtain ⟨a, b, rest, token, mint, left, supply, hwrites, hleft, -⟩ := hpost
    obtain ⟨rfl, -, ⟨htoken, hmint⟩, d, e, hd, he, rfl⟩ := hwrites
    refine takes_pair (fun t ht => ?_) fun t ht => ?_
    · rw [htoken, Option.some.injEq] at ht
      subst ht
      rw [spared_written hd]
      simp only [debits, and_true, not_not, UInt64.le_iff_toNat_le, ← UInt64.toNat_inj,
        UInt64.toNat_zero]
      omega
    · rw [mint_not_token hmint] at ht
      cases ht
  | approve n =>
    obtain ⟨token, hload, h₁⟩ := bind_eq_ok.mp h
    obtain ⟨delegate, hdelegate, h₂⟩ := bind_eq_ok.mp h₁
    refine takes_touch hload h₂ ?_
    simp only [debits, slot_eq_ok hdelegate, Option.map_some, not_not, UInt64.le_refl, true_and]
    exact and_congr eq_comm eq_comm
  | revoke =>
    obtain ⟨token, hload, h₁⟩ := bind_eq_ok.mp h
    refine takes_touch hload h₁ ?_
    simp only [debits, not_not, UInt64.le_refl, true_and]
    exact and_congr eq_comm eq_comm
  | freezeAccount =>
    obtain ⟨token, hload, h₁⟩ := bind_eq_ok.mp h
    exact takes_touch hload h₁ (iff_of_true ⟨UInt64.le_refl _, rfl, rfl⟩ not_false)
  | thawAccount =>
    obtain ⟨token, hload, h₁⟩ := bind_eq_ok.mp h
    obtain ⟨_, -, h₂⟩ := bind_eq_ok.mp h₁
    exact takes_touch hload h₂ (iff_of_true ⟨UInt64.le_refl _, rfl, rfl⟩ not_false)
  | closeAccount =>
    obtain ⟨a, b, rest, lamports, token, rfl, -, -, rfl⟩ := hpost
    refine takes_pair (fun t _ => iff_of_false ?_ (not_not.mpr trivial)) fun t ht => ?_
    · rintro ⟨t', ht', -⟩
      rw [token_nil] at ht'
      cases ht'
    · exact ⟨t, ht, UInt64.le_refl _, rfl, rfl⟩

/-- A transfer does not touch an allowance. -/
theorem transfer_allowance {π : Profile} {n : UInt64}
    (h : Token.run π accounts (.transfer n) = .ok mid) {i : Nat} {t t' : TokenAccountState}
    (ha : accounts[i]? = some a) (hb : mid[i]? = some b) (ht : tryFromSlice a.data = some t)
    (ht' : tryFromSlice b.data = some t') : t'.delegatedAmount = t.delegatedAmount := by
  obtain ⟨x, y, rest, source, dest, left, amount, hwrites, -⟩ := token_run_post h
  obtain ⟨rfl, -, ⟨hsource, hdest⟩, d, e, hd, he, rfl⟩ := hwrites
  match i with
  | 0 =>
    cases ha
    cases hb
    rw [hsource, Option.some.injEq] at ht
    rw [tryFromSlice_toVec hd, Option.some.injEq] at ht'
    rw [← ht, ← ht']
  | 1 =>
    cases ha
    cases hb
    rw [hdest, Option.some.injEq] at ht
    rw [tryFromSlice_toVec he, Option.some.injEq] at ht'
    rw [← ht, ← ht']
  | i + 2 =>
    rw [List.getElem?_cons_succ, List.getElem?_cons_succ] at ha hb
    rw [ha, Option.some.injEq] at hb
    subst hb
    rw [ht, Option.some.injEq] at ht'
    rw [ht']

end

/-- What the program decoded, and what the gate then let through. -/
theorem token_dispatch {π : Profile} {hasher : Lending.Hasher} {accounts out : List AccountInfo}
    {data : List UInt8} {timestamp : UInt64} {th th' : Thread}
    (h : Comp.Returns (dispatch π hasher ProgramIds.tokenProgram accounts data timestamp) th out
      th') :
    ∃ ix mid, tryFromSlice data = some ix ∧ Token.run π accounts ix = .ok mid ∧
      accounts.length = mid.length ∧ out.map (·.data) = mid.map (·.data) := by
  obtain ⟨_, _, -, h₁⟩ := Comp.returns_bind.mp h
  obtain ⟨mid, _, hrun, hgate⟩ := Comp.returns_bind.mp h₁
  obtain ⟨hlen, hgate'⟩ := validateWrites_returns.mp hgate
  rw [runBuiltin_token] at hrun
  obtain ⟨ix, hix, hmid⟩ := bind_eq_ok.mp (Comp.returns_ofExcept.mp hrun).1
  exact ⟨ix, mid, okOr_eq_ok.mp hix, hmid, hlen, gate_data hlen hgate'⟩

/-- **Who a token debit is authorized by.** For every token instruction that succeeds: whatever a
    token account lost, its owner or in a transfer its delegate had signed for, exactly where the
    recorded owner of what the instruction takes from is among the signers. -/
theorem debits_authorized_iff {π : Profile} {hasher : Lending.Hasher}
    {accounts out : List AccountInfo} {data : List UInt8} {timestamp : UInt64} {th th' : Thread}
    (h : Comp.Returns (dispatch π hasher ProgramIds.tokenProgram accounts data timestamp) th out
      th') :
    DebitsAuthorized accounts out data ↔ OwnerSigns accounts data := by
  obtain ⟨ix, mid, hix, hmid, hlen, hdata⟩ := token_dispatch h
  have htakes := token_takes hmid
  have hslot : ∀ (i : Nat) b, out[i]? = some b → ∃ m, mid[i]? = some m ∧ m.data = b.data := by
    intro i b hb
    have hi := congrArg (·[i]?) hdata
    simp only [List.getElem?_map, hb, Option.map_some] at hi
    obtain ⟨m, hm, heq⟩ := Option.map_eq_some_iff.mp hi.symm
    exact ⟨m, hm, heq⟩
  have hspared : ∀ (t : TokenAccountState) (m b : AccountInfo), m.data = b.data →
      (Spared t m ↔ Spared t b) := by
    intro t m b heq
    unfold Spared
    rw [heq]
  unfold DebitsAuthorized OwnerSigns
  simp only [hix, Option.some.injEq, forall_eq', Option.mem_def]
  constructor
  · intro hauth a ha t ht htaken
    have hlt : 0 < out.length := by
      have hout := congrArg List.length hdata
      rw [List.length_map, List.length_map] at hout
      have := (List.getElem?_eq_some_iff.mp ha).1
      omega
    obtain ⟨b, hb⟩ : ∃ b, out[0]? = some b := ⟨_, List.getElem?_eq_getElem hlt⟩
    obtain ⟨m, hm, hmb⟩ := hslot 0 b hb
    have hlost : ¬ Spared t b := fun hs =>
      (htakes 0 a m t ha hm ht).mp ((hspared t m b hmb).mpr hs) ⟨rfl, htaken⟩
    rcases hauth 0 a b t ha hb ht with hs | howner | ⟨n, s, rfl, -, -, -, -, t', ht', hpaid⟩
    · exact absurd hs hlost
    · exact howner
    · -- The allowance stays as it is, so only an amount of zero would be taken off it.
      have hkept := transfer_allowance hmid ha hm ht (hmb ▸ ht')
      rw [hkept] at hpaid
      have hzero : n = 0 := UInt64.toNat_inj.mp (by rw [UInt64.toNat_zero]; omega)
      exact absurd hzero htaken
  · intro howner i a b t ha hb ht
    obtain ⟨m, hm, hmb⟩ := hslot i b hb
    by_cases hs : Spared t m
    · exact .inl ((hspared t m b hmb).mp hs)
    · obtain ⟨rfl, htaken⟩ := not_not.mp fun hno => hs ((htakes i a m t ha hm ht).mpr hno)
      exact .inr (.inl (howner a ha t ht htaken))

/-- A token account of `owner` with 10 tokens. -/
def tenTokens (key owner : Pubkey) : AccountInfo where
  key := key
  lamports := 1
  data := (toVec ({ owner, amount := 10, state := .initialized } : TokenAccountState)).getD []
  owner := ProgramIds.tokenProgram

/-- A transfer of 4 tokens from an account of `owner`, signed by key 5. -/
def tokenAccounts (owner : Pubkey) : List AccountInfo :=
  [tenTokens (.repeated 1) owner, tenTokens (.repeated 2) (.repeated 6),
    { key := .repeated 5, lamports := 0, data := [], owner := ProgramIds.systemProgram
      isSigner := true, isWritable := false }]

def transferFour : List UInt8 := (toVec (TokenInstruction.transfer 4)).getD []

def debitFour (owner : Pubkey) : Except Fault (List AccountInfo) × Thread :=
  Comp.exec (dispatch .dev .sorted ProgramIds.tokenProgram (tokenAccounts owner) transferFour 0) {}

theorem debits_authorized_transfer : ∃ out, (debitFour (.repeated 5)).1 = .ok out ∧
    DebitsAuthorized (tokenAccounts (.repeated 5)) out transferFour := by
  obtain ⟨out, hout⟩ : ∃ out, (debitFour (.repeated 5)).1 = .ok out := ⟨_, rfl⟩
  have hreturns : Comp.Returns _ ({} : Thread) out _ := Prod.ext hout rfl
  exact ⟨out, hout, (debits_authorized_iff hreturns).mpr (by decide)⟩

/-- **Anyone's tokens.** Whoever signs as the third account can take tokens from any account. -/
theorem stranger_takes_tokens : ¬ ∀ (π : Profile) (hasher : Lending.Hasher)
    (accounts : List AccountInfo) (data : List UInt8) (timestamp : UInt64)
    (out : List AccountInfo),
      (Comp.exec (dispatch π hasher ProgramIds.tokenProgram accounts data timestamp) {}).1 =
        .ok out →
      DebitsAuthorized accounts out data := by
  intro hclaim
  obtain ⟨out, hout⟩ : ∃ out, (debitFour (.repeated 7)).1 = .ok out := ⟨_, rfl⟩
  have hauth := hclaim .dev .sorted (tokenAccounts (.repeated 7)) transferFour 0 out hout
  have hreturns : Comp.Returns _ ({} : Thread) out _ := Prod.ext hout rfl
  have howner := (debits_authorized_iff hreturns).mp hauth
  exact absurd howner (by decide)

end Proof
end Himsha
