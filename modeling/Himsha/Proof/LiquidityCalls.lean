import Himsha.Proof.LenderRate
import Himsha.Proof.VaultCalls

/-!
# A vault on the lender side of a market

A vault invokes `AddLiquidity` and `RemoveLiquidity` of a money market, on a window of its own
slots. `LenderCall` says what the two do to the slots of the window, and `mmLiquidity_call` carries
it from the window to the list of the vault.
-/

set_option autoImplicit false

namespace Himsha
namespace Proof

open Himsha.Lib Himsha.Runtime Himsha.Programs Himsha.Vm Token MoneyMarket

/-! ## Putting a window back -/

section
variable {accounts window mid out : List AccountInfo} {indices : List Nat}

/-- The slots of a window hold what the window holds, where each is in it once. -/
theorem writeBack_data (hnodup : indices.Nodup) (hlen : window.length = indices.length)
    (hin : ∀ n ∈ indices, n < accounts.length) {j n : Nat} (hj : indices[j]? = some n) :
    (writeBack accounts window indices)[n]?.map (·.data) = window[j]?.map (·.data) := by
  induction indices generalizing accounts window j with
  | nil => simp at hj
  | cons i indices ih =>
    cases window with
    | nil => simp at hlen
    | cons x window =>
      obtain ⟨hfresh, hrest⟩ := List.nodup_cons.mp hnodup
      have hwrite : writeBack accounts (x :: window) (i :: indices) =
          writeBack (accounts.modify i fun old => { x with isSigner := old.isSigner }) window
            indices := rfl
      rw [hwrite]
      cases j with
      | zero =>
        -- No later slot of the window is this one.
        obtain rfl : i = n := Option.some.inj hj
        have hlt := hin i List.mem_cons_self
        rw [writeBack_other hfresh, List.getElem?_modify_eq, List.getElem?_eq_getElem hlt]
        rfl
      | succ j =>
        rw [List.getElem?_cons_succ] at hj ⊢
        refine ih hrest (by simpa using hlen) (fun m hm => ?_) hj
        rw [List.length_modify]
        exact hin m (List.mem_cons_of_mem _ hm)

/-- **An invocation, read in the slots of the caller.** The program runs on a window that reads like
    the slots it was taken from, and they read like what it leaves. -/
theorem invoke_reads {signers : List Nat} {data : List UInt8} {callee : Pubkey}
    {process : Process} {th th' : Thread} (hnodup : indices.Nodup)
    (hlen : ∀ window, (process window data).Yields fun mid => mid.length = window.length)
    (h : Comp.Returns (invokeSignedIndexed accounts indices signers data callee process) th out
      th') :
    ∃ window mid th₀ th₁, Comp.Returns (process window data) th₀ mid th₁ ∧
      ∀ j n, indices[j]? = some n → keyAt window j = keyAt accounts n ∧
        ∀ (α : Type) [Borsh α], recordAt α window j = recordAt α accounts n ∧
          recordAt α out n = recordAt α mid j := by
  obtain ⟨window, mid, gated, th₁, th₂, _, hwindow, -, -, hprocess, hgate, -, rfl⟩ :=
    invoke_returns h
  have hslots := SlotRel.windowOf_gives accounts indices window hwindow
  have hmarked := markSigners_unsigned window signers
  have hmarkedLen : (markSigners window signers).length = window.length := by
    simpa using congrArg List.length hmarked
  have hmid : mid.length = window.length := (hlen _ _ _ _ hprocess).trans hmarkedLen
  have hgated := gate_data hmid.symm hgate
  have hgatedLen : gated.length = indices.length := by
    have hsame := congrArg List.length hgated
    rw [List.length_map, List.length_map] at hsame
    rw [hsame, hmid, hslots.length_eq]
  have hin : ∀ n ∈ indices, n < accounts.length :=
    ((List.forall₂_and_left _ _).mp
      (hslots.imp fun n a ha => ⟨(List.getElem?_eq_some_iff.mp ha).1, ha⟩)).1
  refine ⟨markSigners window signers, mid, th₁, th₂, hprocess, fun j n hj => ?_⟩
  -- The slot of the window, but for the mark.
  obtain ⟨hlt, hget⟩ := List.getElem?_eq_some_iff.mp hj
  have hltw : j < window.length := by rw [← hslots.length_eq]; exact hlt
  have ha := hslots.get hlt hltw
  simp only [List.get_eq_getElem, hget] at ha
  obtain ⟨x, hx⟩ : ∃ x, (markSigners window signers)[j]? = some x :=
    ⟨_, List.getElem?_eq_getElem (by rw [hmarkedLen]; exact hltw)⟩
  have hsame : x = { window[j] with isSigner := x.isSigner } := by
    have hj' := congrArg (·[j]?) hmarked
    simp only [List.getElem?_map, hx, List.getElem?_eq_getElem hltw, Option.map_some,
      Option.some.injEq] at hj'
    exact eq_of_unsigned hj'.symm
  have hback := writeBack_data hnodup hgatedLen hin hj
  refine ⟨?_, fun α _ => ⟨?_, ?_⟩⟩
  · rw [keyAt_slot hx, keyAt_slot ha, hsame]
  · rw [recordAt_slot hx, recordAt_slot ha, hsame]
  · have hdata : (writeBack accounts gated indices)[n]?.map (·.data) = mid[j]?.map (·.data) := by
      rw [hback]
      simpa only [List.getElem?_map] using congrArg (·[j]?) hgated
    unfold recordAt
    have hbind : ∀ o : Option AccountInfo,
        (o.bind fun a => tryFromSlice (α := α) a.data) = (o.map (·.data)).bind tryFromSlice := by
      intro o
      cases o <;> rfl
    rw [hbind, hbind, hdata]

end

/-! ## The two instructions -/

/-- The instructions of the lender side. -/
inductive LenderMove where
  | add
  | remove
deriving DecidableEq

namespace LenderMove

def instruction (amount : UInt64) : LenderMove → MoneyMarketInstruction
  | .add => .addLiquidity amount
  | .remove => .removeLiquidity amount

/-- The shares that an amount comes to. -/
def shares (π : Profile) (m : MarketState) (amount : UInt64) : LenderMove → Option UInt64
  | .add => sharesForDeposit π m amount
  | .remove => sharesForWithdraw π m amount

/-- What becomes of the cash, of all shares and of those of the lender. -/
def Sums (amount shares : UInt64) (m m' : MarketState) (held held' : UInt64) : LenderMove → Prop
  | .add => m'.totalCash.toNat = m.totalCash.toNat + amount.toNat ∧
      m'.totalLenderShares.toNat = m.totalLenderShares.toNat + shares.toNat ∧
      held'.toNat = held.toNat + shares.toNat
  | .remove => m'.totalCash.toNat + amount.toNat = m.totalCash.toNat ∧
      m'.totalLenderShares.toNat + shares.toNat = m.totalLenderShares.toNat ∧
      held'.toNat + shares.toNat = held.toNat

/-- What becomes of the tokens of the lender. -/
def Pays (accounts out : List AccountInfo) (i n : Nat) : LenderMove → Prop
  | .add => Paid accounts out i n
  | .remove => Received accounts out i n

end LenderMove

/-- A format that has no length in common with `β`. -/
def Apart (α β : Type) [Borsh α] [Sized α] [Borsh β] [Sized β] : Prop :=
  ∀ n ∈ Sized.sizes β, n ∉ Sized.sizes α

instance (α β : Type) [Borsh α] [Sized α] [Borsh β] [Sized β] : Decidable (Apart α β) :=
  inferInstanceAs (Decidable (∀ n ∈ Sized.sizes β, n ∉ Sized.sizes α))

/-- The lender side of a market, on the market in slot `i`, the lender position in slot `j`, the
    tokens of the lender in slot `k` and the lender in slot `l`: `m` is the market with interest
    in, `q` the position that the lender has there, and `m'` and `q'` are what is written. -/
structure LenderCall (π : Profile) (timestamp amount : UInt64) (move : LenderMove)
    (accounts out : List AccountInfo) (i j k l : Nat) (m m' : MarketState)
    (q q' : LenderPosition) : Prop where
  market : ∃ old, recordAt MarketState accounts i = some old ∧
    accrueMarket π old timestamp = some m
  lender : q.shares = ((recordAt LenderPosition accounts j).getD {}).shares ∧
    keyAt accounts l = some q.owner ∧ q.isInitialized = true
  known : ∀ q₀, recordAt LenderPosition accounts j = some q₀ → q₀.isInitialized = true → q₀ = q
  sums : ∃ shares, move.shares π m amount = some shares ∧
    move.Sums amount shares m m' q.shares q'.shares
  borrows : m'.totalBorrows = m.totalBorrows
  owner : q'.owner = q.owner ∧ q'.isInitialized = true
  tokens : move.Pays accounts out k amount.toNat
  stored : recordAt MarketState out i = some m' ∧ recordAt LenderPosition out j = some q'
  other : ∀ (γ : Type) [Borsh γ] [Canonical γ] [Sized γ], Apart γ TokenAccountState →
    Apart γ MarketState → ∀ n, n ≠ j → recordAt γ out n = recordAt γ accounts n

section
variable {γ : Type} [Borsh γ] [Canonical γ] [Sized γ] {β : Type} [Borsh β] [Canonical β] [Sized β]
  {accounts out : List AccountInfo} {n : Nat}

/-- A slot that holds a record of one format holds none of another. -/
theorem Apart.recordAt_none (h : Apart γ β) {v : β} (hv : recordAt β accounts n = some v) :
    recordAt γ accounts n = none := by
  obtain ⟨a, ha, hdec⟩ := recordAt_eq_some.mp hv
  rw [recordAt_slot ha]
  exact tryFromSlice_disjoint h hdec

theorem Changed.apart {R : β → β → Prop} (hchanged : Changed β accounts out n R)
    (h : Apart γ β) : recordAt γ out n = recordAt γ accounts n := by
  obtain ⟨v, hv, v', hv', -⟩ := hchanged
  rw [h.recordAt_none hv, h.recordAt_none hv']

end

/-- A call that rewrites two records leaves those of another format alone. -/
theorem Rewritten.recordAt_apart {γ α β : Type} [Borsh γ] [Canonical γ] [Sized γ] [Borsh α]
    [Canonical α] [Sized α] [Borsh β] [Canonical β] [Sized β] {accounts out : List AccountInfo}
    {i j : Nat} {a b : AccountInfo} {v v' : α} {w w' : β}
    (h : Rewritten accounts out i j a b v v' w w') (hij : i ≠ j) (hα : Apart γ α)
    (hβ : Apart γ β) (n : Nat) : recordAt γ out n = recordAt γ accounts n := by
  by_cases hi : n = i
  · subst hi
    rw [hα.recordAt_none (h.recordAt_after hij).1, hα.recordAt_none h.recordAt_before.1]
  · by_cases hj : n = j
    · subst hj
      rw [hβ.recordAt_none (h.recordAt_after hij).2, hβ.recordAt_none h.recordAt_before.2]
    · exact h.recordAt_other hi hj

/-- What a slot did, the slot that reads the same did. -/
theorem Changed.elsewhere {β : Type} [Borsh β] {accounts out accounts' out' : List AccountInfo}
    {n j : Nat} {R : β → β → Prop} (h : Changed β accounts out n R)
    (hbefore : recordAt β accounts' j = recordAt β accounts n)
    (hafter : recordAt β out' j = recordAt β out n) : Changed β accounts' out' j R := by
  unfold Changed
  rw [hbefore, hafter]
  exact h

section
variable {π : Profile} {timestamp amount : UInt64} {accounts moved mid out : List AccountInfo}
  {th th' : Thread} {m m' : MarketState} {q q' : LenderPosition}

/-- The lender signed, and the position is the lender's. -/
theorem liquidityPrologue_lender (h : liquidityPrologue π accounts timestamp amount = .ok (m, q)) :
    (∃ old, recordAt MarketState accounts 0 = some old ∧ accrueMarket π old timestamp = some m) ∧
      (q.shares = ((recordAt LenderPosition accounts 1).getD {}).shares ∧
        keyAt accounts 4 = some q.owner ∧ q.isInitialized = true) ∧
      ∀ q₀, recordAt LenderPosition accounts 1 = some q₀ → q₀.isInitialized = true → q₀ = q := by
  obtain ⟨_, -, h₁⟩ := bind_eq_ok.mp h
  obtain ⟨provider, hprovider, h₂⟩ := bind_eq_ok.mp h₁
  obtain ⟨_, -, h₃⟩ := bind_eq_ok.mp h₂
  obtain ⟨_, -, h₄⟩ := bind_eq_ok.mp h₃
  obtain ⟨m₀, hmarket, h₅⟩ := bind_eq_ok.mp h₄
  obtain ⟨first, -, h₆⟩ := bind_eq_ok.mp h₅
  obtain ⟨q₀, hlender, h₇⟩ := bind_eq_ok.mp h₆
  cases h₇
  obtain ⟨a, old, hopened⟩ := loadMarket_opened hmarket
  obtain ⟨pos, hload, h₈⟩ := bind_eq_ok.mp hlender
  obtain ⟨b, hb, hpos⟩ := loadOr_eq_ok hload
  have hread : recordAt LenderPosition accounts 1 = tryFromSlice b.data := recordAt_slot hb
  have hkey : keyAt accounts 4 = some provider.key := keyAt_slot (slot_eq_ok hprovider)
  refine ⟨⟨old, recordAt_eq_some.mpr ⟨a, hopened.slot, hopened.held⟩, hopened.accrued⟩, ?_⟩
  rw [hread, hpos, hkey]
  split at h₈
  · rename_i hfresh
    obtain rfl := Except.ok.inj h₈
    refine ⟨⟨rfl, rfl, rfl⟩, fun q₀ hq₀ hinit => ?_⟩
    rw [← hpos, hq₀, Option.getD_some, hinit] at hfresh
    simp at hfresh
  · rename_i hinit
    obtain ⟨_, howned, h₉⟩ := bind_eq_ok.mp h₈
    obtain rfl := Except.ok.inj h₉
    have hboth := require_eq_ok.mp howned
    rw [Bool.and_eq_true, beq_iff_eq, beq_iff_eq] at hboth
    refine ⟨⟨rfl, by rw [hboth.2], by simpa using hinit⟩, fun q₀ hq₀ _ => ?_⟩
    rw [← hpos, hq₀, Option.getD_some]

/-- What the market and the position are rewritten to. -/
theorem lenderCall_stored {move : LenderMove} {i j : Nat} {shares totalCash total held : UInt64}
    (hprologue : liquidityPrologue π accounts timestamp amount = .ok (m, q))
    (hshares : move.shares π m amount = some shares)
    (hmoved : TokensMoved th th' accounts moved i j amount.toNat) (hi : 2 ≤ i) (hj : 2 ≤ j)
    (hpays : move.Pays accounts moved 2 amount.toNat)
    (hsums : move.Sums amount shares m { m with totalCash, totalLenderShares := total } q.shares
      held)
    (hstored : storeBoth moved { m with totalCash, totalLenderShares := total }
      { q with shares := held } = .ok mid) :
    LenderCall π timestamp amount move accounts mid 0 1 2 4 m
      { m with totalCash, totalLenderShares := total } q { q with shares := held } := by
  obtain ⟨hmarket, hlender, hknown⟩ := liquidityPrologue_lender hprologue
  obtain ⟨hfirst, hsecond, hrest⟩ := storeBoth_reads hstored
  refine ⟨hmarket, hlender, hknown, ⟨shares, hshares, hsums⟩, rfl, ⟨rfl, hlender.2.2⟩, ?_,
    ⟨hfirst, hsecond⟩, fun γ _ _ _ htoken hmarket' n hn => ?_⟩
  · cases move with
    | add => exact hpays.congr rfl (hrest _ 2 (by decide))
    | remove => exact hpays.congr rfl (hrest _ 2 (by decide))
  · rcases Nat.lt_or_ge n 2 with hlow | hhigh
    · -- The market is a market before and after.
      obtain rfl : n = 0 := by omega
      obtain ⟨old, hold, -⟩ := hmarket
      rw [hmarket'.recordAt_none hfirst, hmarket'.recordAt_none hold]
    · rw [hrest γ n hhigh]
      by_cases hni : n = i
      · subst hni
        exact hmoved.paid.apart htoken
      · by_cases hnj : n = j
        · subst hnj
          exact hmoved.received.apart htoken
        · exact recordAt_congr (hmoved.other n hni hnj)

/-- **The lender side, on the market's own list.** -/
theorem lender_run {move : LenderMove}
    (h : Comp.Returns (MoneyMarket.run π accounts timestamp (move.instruction amount)) th mid
      th') : ∃ m m' q q', LenderCall π timestamp amount move accounts mid 0 1 2 4 m m' q q' := by
  cases move with
  | add =>
    obtain ⟨m, q, shares, totalCash, total, held, moved, hprologue, hshares, htokens, hcash,
      htotal, hheld, hstored⟩ := addLiquidity_stages h
    exact ⟨m, _, q, _, lenderCall_stored hprologue hshares htokens (by decide) (by decide)
      htokens.paid ⟨hcash, htotal, hheld⟩ hstored⟩
  | remove =>
    obtain ⟨m, q, shares, totalCash, total, held, moved, hprologue, hshares, htokens, hcash,
      htotal, hheld, hstored⟩ := removeLiquidity_stages h
    exact ⟨m, _, q, _, lenderCall_stored hprologue hshares htokens (by decide) (by decide)
      htokens.received ⟨hcash, htotal, hheld⟩ hstored⟩

/-! ## Invoked by a vault -/

/-- The same through a window. -/
theorem LenderCall.through {window : List AccountInfo} {move : LenderMove} {i j k l s : Nat}
    (h : LenderCall π timestamp amount move window mid 0 1 2 4 m m' q q')
    (hreads : ∀ x n, [i, j, k, s, l][x]? = some n → keyAt window x = keyAt accounts n ∧
      ∀ (α : Type) [Borsh α], recordAt α window x = recordAt α accounts n ∧
        recordAt α out n = recordAt α mid x)
    (hother : ∀ n, n ∉ [i, j, k, s, l] → out[n]? = accounts[n]?) :
    LenderCall π timestamp amount move accounts out i j k l m m' q q' := by
  have hslot : ∀ {x n : Nat} (α : Type) [Borsh α], [i, j, k, s, l][x]? = some n →
      recordAt α window x = recordAt α accounts n ∧ recordAt α out n = recordAt α mid x :=
    fun α _ hx => (hreads _ _ hx).2 α
  refine ⟨?_, ?_, ?_, h.sums, h.borrows, h.owner, ?_, ?_, fun γ _ _ _ htoken hmarket n hn => ?_⟩
  · rw [← (hslot MarketState (x := 0) rfl).1]
    exact h.market
  · rw [← (hslot LenderPosition (x := 1) rfl).1, ← (hreads 4 l rfl).1]
    exact h.lender
  · rw [← (hslot LenderPosition (x := 1) rfl).1]
    exact h.known
  · have htoken := hslot TokenAccountState (x := 2) (n := k) rfl
    have hpays := h.tokens
    cases move with
    | add => exact hpays.elsewhere htoken.1.symm htoken.2
    | remove => exact hpays.elsewhere htoken.1.symm htoken.2
  · rw [(hslot MarketState (x := 0) rfl).2, (hslot LenderPosition (x := 1) rfl).2]
    exact h.stored
  · by_cases hmem : n ∈ [i, j, k, s, l]
    · obtain ⟨x, hx⟩ := List.mem_iff_getElem?.mp hmem
      have hx' : x ≠ 1 := by
        rintro rfl
        exact hn (Option.some.inj hx).symm
      rw [(hslot γ hx).2, h.other γ htoken hmarket x hx', (hslot γ hx).1]
    · exact recordAt_congr (hother n hmem)

/-- **The lender side, invoked by a vault.** -/
theorem mmLiquidity_call {move : LenderMove} {i j k s l : Nat} (hnodup : [i, j, k, s, l].Nodup)
    (h : Comp.Returns (Vault.mmLiquidity π accounts [i, j, k, s, l] (move.instruction amount)
      timestamp) th out th') :
    ∃ m m' q q', LenderCall π timestamp amount move accounts out i j k l m m' q q' := by
  obtain ⟨data, hdata, hinvoke⟩ := returns_lift h
  obtain ⟨window, mid, th₀, th₁, hprocess, hreads⟩ := invoke_reads hnodup (fun window =>
    .mono (SlotRel.moneyMarket_kept (S := keyFrame.slotRel) π timestamp window data)
      fun _ hkept => hkept.length_eq.symm) hinvoke
  obtain ⟨ix, hix, hrun⟩ := returns_lift hprocess
  obtain rfl : move.instruction amount = ix := by
    have hback := tryFromSlice_toVec (okOr_eq_ok.mp hdata)
    exact Option.some.inj (hback.symm.trans (okOr_eq_ok.mp hix))
  obtain ⟨m, m', q, q', hcall⟩ := lender_run hrun
  exact ⟨m, m', q, q', hcall.through hreads fun n hn => invoke_other hinvoke hn⟩

/-- **What a withdrawal redeems.** What the idle balance does not cover comes from the market, where
    its accounts are passed. -/
theorem autoUndeploy_lender {vault : Vault.VaultState} {assets : UInt64}
    {r : Vault.VaultState × List AccountInfo}
    (h : Comp.Returns (Vault.autoUndeploy π vault accounts timestamp assets) th r th') :
    ∃ idle, Vault.balance accounts 2 = .ok idle ∧
      if idle < assets ∧ 9 ≤ accounts.length then
        ∃ m m' q q', LenderCall π timestamp (assets - idle) .remove accounts r.2 6 7 2 0 m m' q
          q' ∧ r.1 = { vault with lenderShares := q'.shares }
      else r = (vault, accounts) := by
  obtain ⟨idle, hidle, h₁⟩ := returns_lift h
  refine ⟨idle, hidle, ?_⟩
  split at h₁
  · rename_i hshort
    rw [if_pos hshort]
    obtain ⟨mid, _, hmarket, h₂⟩ := Comp.returns_bind.mp h₁
    obtain ⟨lenderShares, hread, h₃⟩ := returns_lift h₂
    obtain ⟨rfl, -⟩ := Comp.returns_pure.mp h₃
    have hcalls : Comp.Returns (Vault.mmLiquidity π accounts [6, 7, 2, 8, 0]
        (LenderMove.instruction (assets - idle) .remove) timestamp) _ _ _ := hmarket
    obtain ⟨m, m', q, q', hcall⟩ := mmLiquidity_call (by decide) hcalls
    refine ⟨m, m', q, q', hcall, ?_⟩
    rw [readLenderShares_recorded hcall.stored.2 hread]
  · rename_i hcovered
    rw [if_neg hcovered]
    obtain ⟨rfl, -⟩ := Comp.returns_pure.mp h₁
    rfl

end

end Proof
end Himsha
