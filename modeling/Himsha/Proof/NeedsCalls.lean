import Himsha.Proof.Needs

/-!
# What the programs that invoke others need

A program that invokes another one needs for each window what the callee needs in it, but for the
signatures that it makes itself. `Needs.covers` is that check, on numbers alone.
-/

set_option autoImplicit false

namespace Himsha
namespace Proof

open Himsha.Lib Himsha.Runtime Himsha.Programs Himsha.Vm

/-- What is needed of the accounts includes what a callee needs of a window of them. -/
def Needs.covers (m : Needs) (indices signers : List Nat) (n : Needs) : Bool :=
  indices.all (fun i => decide (i < m.count)) &&
    n.writes.all (fun w => indices[w]?.any m.writes.contains) &&
    n.signs.all (fun w => decide (w < indices.length) &&
      (signers.contains w || indices[w]?.any m.signs.contains)) &&
    decide (n.count ≤ indices.length)

/-- The writable flag, which nothing changes. -/
def writableFrame : Frame := ⟨Bool, (·.isWritable), fun _ _ => rfl, fun _ _ => rfl, fun _ _ => rfl⟩

section
variable {accounts window out : List AccountInfo} {indices signers : List Nat} {m n : Needs}
  {data : List UInt8} {callee : Pubkey} {process : Process} {f : Fault} {β : Type}

/-! ## Windows -/

theorem windowOf_declares (h : ∀ i ∈ indices, i < accounts.length) :
    Avoids f (windowOf accounts indices) := by
  unfold windowOf
  induction indices with
  | nil => exact nofun
  | cons i rest ih =>
    rw [List.mapM_cons]
    have hi := h i List.mem_cons_self
    refine .bind ?_ fun _ => .bind (ih fun j hj => h j (List.mem_cons_of_mem _ hj)) fun _ => nofun
    rw [List.getElem?_eq_getElem hi]
    exact nofun

/-- Marking makes signers and takes no mark away. -/
theorem markSigners_slot (signers : List Nat) (w : Nat) :
    ∀ {window : List AccountInfo} {a : AccountInfo},
    window[w]? = some a → ∃ b, (markSigners window signers)[w]? = some b ∧
      b.isWritable = a.isWritable ∧ (w ∈ signers ∨ a.isSigner = true → b.isSigner = true) := by
  unfold markSigners
  induction signers with
  | nil =>
    intro window a ha
    exact ⟨a, ha, rfl, fun h => h.resolve_left List.not_mem_nil⟩
  | cons s rest ih =>
    intro window a ha
    rw [List.foldl_cons]
    by_cases hs : s = w
    · subst hs
      have hmarked : (window.modify s fun a => { a with isSigner := true })[s]? =
          some { a with isSigner := true } := by
        rw [List.getElem?_modify_eq, ha]
        rfl
      obtain ⟨b, hb, hwritable, hsigner⟩ := ih hmarked
      exact ⟨b, hb, hwritable, fun _ => hsigner (.inr rfl)⟩
    · have ha' : (window.modify s fun a => { a with isSigner := true })[w]? = some a :=
        (List.getElem?_modify_ne _ _ hs).trans ha
      obtain ⟨b, hb, hwritable, hsigner⟩ := ih ha'
      refine ⟨b, hb, hwritable, fun h => hsigner ?_⟩
      rcases h with hmem | hsigned
      · exact .inl ((List.mem_cons.mp hmem).resolve_left (Ne.symm hs))
      · exact .inr hsigned

theorem windowOf_slot (h : windowOf accounts indices = .ok window) {w i : Nat}
    (hi : indices[w]? = some i) : ∃ a, window[w]? = some a ∧ accounts[i]? = some a := by
  have hall := SlotRel.windowOf_gives accounts indices window h
  obtain ⟨hlt, rfl⟩ := List.getElem?_eq_some_iff.mp hi
  have hlt' : w < window.length := hall.length_eq ▸ hlt
  exact ⟨window[w], List.getElem?_eq_getElem hlt', hall.get hlt hlt'⟩

/-- The window meets what the callee needs. -/
theorem Suits.windowed (h : Suits f accounts m) (hcovers : m.covers indices signers n = true)
    (hwindow : windowOf accounts indices = .ok window) : Suits f (markSigners window signers) n := by
  simp only [Needs.covers, Bool.and_eq_true, List.all_eq_true, decide_eq_true_eq, Bool.or_eq_true,
    Option.any_eq_true, List.contains_iff_mem] at hcovers
  obtain ⟨⟨⟨hindices, hwrites⟩, hsigns⟩, hcount⟩ := hcovers
  have hlength : window.length = indices.length :=
    (SlotRel.windowOf_gives accounts indices window hwindow).length_eq.symm
  constructor
  · intro hf w hw b hb
    obtain ⟨i, hi, hmem⟩ := hwrites w hw
    obtain ⟨a, ha, hslot⟩ := windowOf_slot hwindow hi
    obtain ⟨b', hb', hwritable, -⟩ := markSigners_slot signers w ha
    obtain rfl : b = b' := Option.some.inj (hb.symm.trans hb')
    rw [hwritable]
    exact h.writes hf i hmem a hslot
  · intro w hw
    obtain ⟨hlt, hsigned⟩ := hsigns w hw
    have hi : indices[w]? = some indices[w] := List.getElem?_eq_getElem hlt
    obtain ⟨a, ha, hslot⟩ := windowOf_slot hwindow hi
    obtain ⟨b, hb, -, hsigner⟩ := markSigners_slot signers w ha
    refine ⟨b, hb, hsigner ?_⟩
    rcases hsigned with hmarked | ⟨i, hi', hmem⟩
    · exact .inl hmarked
    · obtain ⟨a', ha', hs⟩ := h.signs i hmem
      obtain rfl : indices[w] = i := Option.some.inj (hi.symm.trans hi')
      obtain rfl : a = a' := Option.some.inj (hslot.symm.trans ha')
      exact .inr hs
  · rw [markSigners_length, hlength]
    exact hcount

/-- An invocation asks for what the callee asks for. -/
theorem Suits.invokes (h : Suits f accounts m) (hf : Undeclared f)
    (hcovers : m.covers indices signers n = true)
    (hprocess : ∀ window, Suits f window n → Comp.Avoids f (process window data)) :
    Comp.Avoids f (invokeSignedIndexed accounts indices signers data callee process) := by
  refine invoke_avoids hf.not_runtime (windowOf_declares fun i hi => ?_) fun window hwindow =>
    hprocess _ (h.windowed hcovers hwindow)
  simp only [Needs.covers, Bool.and_eq_true, List.all_eq_true, decide_eq_true_eq] at hcovers
  exact Nat.lt_of_lt_of_le (hcovers.1.1.1 i hi) h.count

/-! ## What an invocation leaves of the flags -/

theorem writeBack_signers : ∀ {accounts : List AccountInfo},
    (writeBack accounts window indices).map (·.isSigner) = accounts.map (·.isSigner) := by
  unfold writeBack
  induction window generalizing indices with
  | nil => exact rfl
  | cons a window ih =>
    intro accounts
    cases indices with
    | nil => rfl
    | cons i indices =>
      rw [List.zip_cons_cons, List.foldl_cons, ih]
      apply List.ext_getElem?
      intro w
      rw [List.getElem?_map, List.getElem?_map, List.getElem?_modify]
      cases accounts[w]? with
      | none => rfl
      | some old =>
        simp only [Option.map_some]
        split <;> rfl

theorem flagged_of_kept (hwritable : writableFrame.slotRel.Kept accounts out)
    (hsigner : out.map (·.isSigner) = accounts.map (·.isSigner)) : Flagged accounts out := by
  induction hwritable with
  | nil => rfl
  | cons hhead _ ih =>
    simp only [List.map_cons, List.cons.injEq] at hsigner
    have htail := ih hsigner.2
    unfold Flagged at htail ⊢
    rw [List.map_cons, List.map_cons, htail, flagsOf, flagsOf, hsigner.1]
    exact congrArg (fun w => (_, w) :: _) hhead

theorem invoke_flagged
    (h : ∀ window, (process window data).Yields (writableFrame.slotRel.Kept window)) :
    (invokeSignedIndexed accounts indices signers data callee process).Yields
      (Flagged accounts) := by
  intro th out th' hr
  refine flagged_of_kept (SlotRel.invokeSignedIndexed_kept h th out th' hr) ?_
  obtain ⟨_, _, _, _, _, _, -, -, -, -, -, -, rfl⟩ := invoke_returns hr
  exact writeBack_signers

/-! ## The token program -/

variable {π : Profile} {ix : Token.TokenInstruction}

theorem Suits.tokens (h : Suits f accounts m) (hf : Undeclared f)
    (hcovers : m.covers indices signers (tokenNeeds ix) = true) :
    Comp.Avoids f (Token.invoke π accounts indices signers ix) := by
  refine .bind (Q := fun data => toVec ix = some data) (.ofExcept (declares_okOr hf id))
    (.ofExcept fun data hdata => okOr_eq_ok.mp hdata) fun data hdata => ?_
  refine h.invokes hf hcovers fun window hwindow => .ofExcept ?_
  refine avoids_bind.mpr ⟨declares_okOr hf id, fun ix' hix' => ?_⟩
  have hback := okOr_eq_ok.mp hix'
  rw [tryFromSlice_toVec hdata, Option.some.injEq] at hback
  exact hback ▸ token_declares hf hwindow

theorem token_invoke_flagged (hix : ix ≠ .closeAccount) :
    (Token.invoke π accounts indices signers ix).Yields (Flagged accounts) := by
  intro th out th' hr
  refine flagged_of_kept
    (SlotRel.token_invoke_kept (S := writableFrame.slotRel) π indices signers hix th out th' hr) ?_
  obtain ⟨_, _, -, h₁⟩ := Comp.returns_bind.mp hr
  obtain ⟨_, _, _, _, _, _, -, -, -, -, -, -, rfl⟩ := invoke_returns h₁
  exact writeBack_signers

/-- Tokens move, and the program goes on with accounts that meet the same. -/
theorem Suits.tokens_then {g : List AccountInfo → Prog β} (h : Suits f accounts m)
    (hf : Undeclared f) (hcovers : m.covers indices signers (tokenNeeds ix) = true)
    (hix : ix ≠ .closeAccount) (hg : ∀ mid, Suits f mid m → Comp.Avoids f (g mid)) :
    Comp.Avoids f (Token.invoke π accounts indices signers ix >>= g) :=
  .bind (h.tokens hf hcovers) (token_invoke_flagged hix) fun mid hmid => hg mid (h.flagged hmid)

end

/-! ## The programs -/

def ataNeeds : Needs := ⟨[1], [], 4⟩

/-- A swap writes the pool, after everything else. -/
def swapNeeds : Swap.SwapInstruction → Needs
  | .initializePool .. => ⟨[0], [], 7⟩
  | .swap .. => ⟨[0, 1, 2, 3, 4], [5], 6⟩
  | .deposit .. | .withdraw .. => ⟨[0, 1, 2, 3, 4, 5, 7], [6], 8⟩

def moneyMarketNeeds : MoneyMarket.MoneyMarketInstruction → Needs
  | .initMarket _ => ⟨[0], [5], 7⟩
  | .syncPrice => ⟨[0], [], 2⟩
  | .liquidate _ => ⟨[0, 1, 2, 3, 4, 5], [6], 7⟩
  | _ => ⟨[0, 1, 2, 3], [4], 5⟩

/-- Of the accounts of a withdrawal, those from the seventh on are written where all are given. -/
def vaultNeeds (given : Nat) : Vault.VaultInstruction → Needs
  | .initVault _ => ⟨[0], [4], 5⟩
  | .deposit .. => ⟨[0, 1, 2, 3, 4], [5], 6⟩
  | .withdraw .. =>
      if 9 ≤ given then ⟨[0, 1, 2, 3, 4, 6, 7, 8], [5], 9⟩ else ⟨[0, 1, 2, 3, 4], [5], 6⟩
  | .report => ⟨[0, 3, 4], [1], 5⟩
  | .deploy _ | .undeploy _ => ⟨[0, 1, 2, 3, 4], [5], 6⟩

section
variable {accounts : List AccountInfo} {f : Fault} {π : Profile} {data : List UInt8}
  {timestamp : UInt64} {α β : Type}

theorem enough_then {n : Needs} {k : Nat} {e : ProgramError} {g : Unit → Prog β}
    (h : Suits f accounts n) (hk : k ≤ n.count) (hg : Comp.Avoids f (g ())) :
    Comp.Avoids f ((liftM (require (decide (k ≤ accounts.length)) e) : Prog Unit) >>= g) :=
  lift_avoids (declares_enough (Nat.le_trans hk h.count)) fun _ => hg

theorem ata_declares (hf : Undeclared f) (h : Suits f accounts ataNeeds) :
    Comp.Avoids f (Ata.process π accounts data) := by
  refine lift_avoids (declares_okOr hf id) fun .create => enough_then h (Nat.le_refl 4) ?_
  refine lift_avoids (declares_slot hf) fun ata => lift_avoids (declares_slot hf) fun owner =>
    lift_avoids (declares_slot hf) fun mint => lift_avoids (declares_require hf id) fun _ => ?_
  split
  · exact .pure
  · exact h.tokens hf rfl

theorem declares_reserveBalance (hf : Undeclared f) {i : Nat} :
    Avoids f (Swap.reserveBalance accounts i) :=
  .bind (declares_load hf) fun _ => avoids_pure

theorem declares_mulDiv (hf : Undeclared f) {a b c : UInt64} : Avoids f (Swap.mulDiv a b c) :=
  .bind (declares_okOr hf id) fun _ => declares_okOr hf id

theorem declares_mulDivWide (hf : Undeclared f) {a b c : Nat} :
    Avoids f (Swap.mulDivWide a b c) :=
  .bind (declares_okOr hf id) fun _ => .bind (declares_okOr hf id) fun _ => avoids_pure

theorem declares_amountOut (hf : Undeclared f) {pool : Swap.PoolState} {a b c : UInt64} :
    Avoids f (Swap.amountOut pool a b c) :=
  .bind (declares_mulDiv hf) fun _ => .bind (declares_okOr hf id) fun _ =>
    .bind (declares_okOr hf id) fun _ => declares_mulDivWide hf

theorem declares_syncReserves (hf : Undeclared f) {pool : Swap.PoolState} :
    Avoids f (Swap.syncReserves accounts pool) := by
  refine .bind (declares_reserveBalance hf) fun _ => .bind (declares_reserveBalance hf) fun _ =>
    .bind (declares_slot hf) fun _ => ?_
  split
  · exact avoids_pure
  · exact avoids_pure

theorem declares_syncReservesAb (hf : Undeclared f) {pool : Swap.PoolState} :
    Avoids f (Swap.syncReservesAb accounts pool) :=
  .bind (declares_reserveBalance hf) fun _ => .bind (declares_reserveBalance hf) fun _ =>
    avoids_pure

theorem declares_depositAmounts (hf : Undeclared f) {pool : Swap.PoolState} {maxA maxB : UInt64} :
    Avoids f (Swap.depositAmounts π accounts pool maxA maxB) := by
  unfold Swap.depositAmounts
  split
  · exact .bind (declares_okOr hf id) fun _ => .bind (declares_orPanic hf) fun _ =>
      .bind (declares_okOr hf id) fun _ => avoids_pure
  · exact .bind (declares_reserveBalance hf) fun _ => .bind (declares_reserveBalance hf) fun _ =>
      .bind (declares_mulDiv hf) fun _ => .bind (declares_mulDiv hf) fun _ =>
      .bind (declares_mulDiv hf) fun _ => .bind (declares_mulDiv hf) fun _ => avoids_pure

theorem swap_declares (hf : Undeclared f) {ix : Swap.SwapInstruction}
    (h : Suits f accounts (swapNeeds ix)) : Comp.Avoids f (Swap.run π accounts ix) := by
  cases ix with
  | initializePool feeNumerator feeDenominator =>
    refine lift_avoids (declares_require hf id) fun _ => enough_then h (Nat.le_refl 7) ?_
    exact lift_avoids (declares_loadOr hf) fun _ => lift_avoids (declares_require hf id) fun _ =>
      lift_avoids (declares_slot hf) fun _ => lift_avoids (declares_slot hf) fun _ =>
      lift_avoids (declares_slot hf) fun _ => lift_avoids (declares_slot hf) fun _ =>
      lift_avoids (declares_slot hf) fun _ => .ofExcept (h.stores hf List.mem_cons_self)
  | swap amountIn minAmountOut =>
    have hswap : Suits f accounts ⟨[0, 1, 2, 3, 4], [5], 6⟩ := h
    refine enough_then h (Nat.le_refl 6) (h.signer_then hf List.mem_cons_self fun _ => ?_)
    refine lift_avoids (declares_load hf) fun pool => lift_avoids (declares_require hf id) fun _ =>
      lift_avoids (declares_reserveBalance hf) fun _ =>
      lift_avoids (declares_reserveBalance hf) fun _ =>
      lift_avoids (declares_require hf id) fun _ => lift_avoids (declares_amountOut hf) fun out =>
      lift_avoids (declares_require hf id) fun _ => ?_
    exact hswap.tokens_then hf rfl nofun fun mid hmid =>
      hmid.tokens_then hf rfl nofun fun last hlast =>
      lift_avoids (declares_syncReserves hf) fun _ => .ofExcept (hlast.stores hf (by decide))
  | deposit maxA maxB minLp =>
    have hall : Suits f accounts ⟨[0, 1, 2, 3, 4, 5, 7], [6], 8⟩ := h
    refine enough_then h (Nat.le_refl 8) (h.signer_then hf List.mem_cons_self fun _ => ?_)
    refine lift_avoids (declares_load hf) fun pool => lift_avoids (declares_depositAmounts hf)
      fun (depositA, depositB, userLp, supplyDelta) => lift_avoids (declares_require hf id)
      fun _ => ?_
    exact hall.tokens_then hf rfl nofun fun first hfirst =>
      hfirst.tokens_then hf rfl nofun fun second hsecond =>
      hsecond.tokens_then hf rfl nofun fun third hthird =>
      lift_avoids (declares_okOr hf id) fun _ => lift_avoids (declares_syncReservesAb hf) fun _ =>
      .ofExcept (hthird.stores hf (by decide))
  | withdraw lpAmount minA minB =>
    have hall : Suits f accounts ⟨[0, 1, 2, 3, 4, 5, 7], [6], 8⟩ := h
    refine enough_then h (Nat.le_refl 8) (h.signer_then hf List.mem_cons_self fun _ => ?_)
    refine lift_avoids (declares_load hf) fun pool => lift_avoids (declares_require hf id) fun _ =>
      lift_avoids (declares_reserveBalance hf) fun _ =>
      lift_avoids (declares_reserveBalance hf) fun _ =>
      lift_avoids (declares_mulDivWide hf) fun _ => lift_avoids (declares_mulDivWide hf) fun _ =>
      lift_avoids (declares_require hf id) fun _ => ?_
    exact hall.tokens_then hf rfl nofun fun first hfirst =>
      hfirst.tokens_then hf rfl nofun fun second hsecond =>
      hsecond.tokens_then hf rfl nofun fun third hthird =>
      lift_avoids (declares_okOr hf id) fun _ => lift_avoids (declares_syncReservesAb hf) fun _ =>
      .ofExcept (hthird.stores hf (by decide))

/-! ## The money market -/

/-- The two writes that end an instruction. -/
theorem Suits.storeBoth {n : Needs} [Borsh α] {market : MoneyMarket.MarketState} {pos : α}
    (h : Suits f accounts n) (hf : Undeclared f) (h₀ : 0 ∈ n.writes) (h₁ : 1 ∈ n.writes) :
    Avoids f (MoneyMarket.storeBoth accounts market pos) :=
  h.store_pair hf h₀ h₁

theorem declares_loadMarket (hf : Undeclared f) :
    Avoids f (MoneyMarket.loadMarket π accounts timestamp) :=
  .bind (declares_load hf) fun _ => .bind (declares_require hf id) fun _ => declares_orPanic hf

theorem declares_loadPosition (hf : Undeclared f) {key owner : Pubkey} :
    Avoids f (MoneyMarket.loadPosition accounts key owner) := by
  refine .bind (declares_loadOr hf) fun _ => ?_
  split
  · exact avoids_pure
  · exact .bind (declares_require hf id) fun _ => avoids_pure

theorem declares_loadLenderPosition (hf : Undeclared f) {key owner : Pubkey} :
    Avoids f (MoneyMarket.loadLenderPosition accounts key owner) := by
  refine .bind (declares_loadOr hf) fun _ => ?_
  split
  · exact avoids_pure
  · exact .bind (declares_require hf id) fun _ => avoids_pure

theorem declares_liquidityPrologue (hf : Undeclared f) {amount : UInt64}
    (h : Suits f accounts ⟨[0, 1, 2, 3], [4], 5⟩) :
    Avoids f (MoneyMarket.liquidityPrologue π accounts timestamp amount) :=
  .bind (declares_enough h.count) fun _ => h.signer List.mem_cons_self fun _ _ =>
    .bind (declares_require hf id) fun _ => .bind (declares_loadMarket hf) fun _ =>
    .bind (declares_slot hf) fun _ => .bind (declares_loadLenderPosition hf) fun _ => avoids_pure

theorem declares_positionPrologue (hf : Undeclared f) {owned : Bool}
    (h : Suits f accounts ⟨[0, 1, 2, 3], [4], 5⟩) :
    Avoids f (MoneyMarket.positionPrologue π accounts timestamp owned) :=
  .bind (declares_enough h.count) fun _ => h.signer List.mem_cons_self fun _ _ =>
    .bind (declares_loadMarket hf) fun _ => .bind (declares_slot hf) fun _ =>
    .bind (declares_loadPosition hf) fun _ => .bind (declares_require hf id) fun _ =>
    .bind (declares_orPanic hf) fun _ => avoids_pure

/-- Renaming missing funds names no account. -/
theorem liquidityError_undeclared (hf : Undeclared f) (g : Fault)
    (h : MoneyMarket.liquidityError g = f) : g = f := by
  unfold MoneyMarket.liquidityError at h
  split at h
  · exact absurd h (hf.ne id)
  · exact h

theorem moneyMarket_declares (hf : Undeclared f) {ix : MoneyMarket.MoneyMarketInstruction}
    (h : Suits f accounts (moneyMarketNeeds ix)) :
    Comp.Avoids f (MoneyMarket.run π accounts timestamp ix) := by
  cases ix with
  | initMarket terms =>
    exact .ofExcept (.bind (declares_enough h.count) fun _ => h.signer List.mem_cons_self
      fun _ _ => .bind (declares_require hf id) fun _ => .bind (declares_require hf id) fun _ =>
      .bind (declares_require hf id) fun _ => .bind (declares_require hf id) fun _ =>
      .bind (declares_loadOr hf) fun _ => .bind (declares_require hf id) fun _ =>
      .bind (declares_slot hf) fun _ => .bind (declares_slot hf) fun _ =>
      .bind (declares_slot hf) fun _ => .bind (declares_slot hf) fun _ =>
      .bind (declares_slot hf) fun _ => h.stores hf List.mem_cons_self)
  | syncPrice =>
    exact .ofExcept (.bind (declares_enough h.count) fun _ => .bind (declares_load hf) fun _ =>
      .bind (declares_require hf id) fun _ => .bind (declares_slot hf) fun _ =>
      .bind (declares_require hf id) fun _ => .bind (declares_load hf) fun _ =>
      .bind (declares_require hf id) fun _ => h.stores hf List.mem_cons_self)
  | addLiquidity amount =>
    have hall : Suits f accounts ⟨[0, 1, 2, 3], [4], 5⟩ := h
    refine lift_avoids (declares_liquidityPrologue hf hall) fun (market, lender) =>
      lift_avoids (declares_orPanic hf) fun _ => hall.tokens_then hf rfl nofun fun mid hmid => ?_
    exact lift_avoids (declares_okOr hf id) fun _ => lift_avoids (declares_okOr hf id) fun _ =>
      lift_avoids (declares_okOr hf id) fun _ =>
      .ofExcept (hmid.storeBoth hf (by decide) (by decide))
  | removeLiquidity amount =>
    have hall : Suits f accounts ⟨[0, 1, 2, 3], [4], 5⟩ := h
    refine lift_avoids (declares_liquidityPrologue hf hall) fun (market, lender) =>
      lift_avoids (declares_orPanic hf) fun _ => lift_avoids (declares_require hf id) fun _ =>
      lift_avoids (declares_require hf id) fun _ =>
      hall.tokens_then hf rfl nofun fun mid hmid => ?_
    exact lift_avoids (declares_okOr hf id) fun _ => lift_avoids (declares_okOr hf id) fun _ =>
      lift_avoids (declares_okOr hf id) fun _ =>
      .ofExcept (hmid.storeBoth hf (by decide) (by decide))
  | supply amount =>
    have hall : Suits f accounts ⟨[0, 1, 2, 3], [4], 5⟩ := h
    refine lift_avoids (declares_positionPrologue hf hall) fun (market, pos) =>
      hall.tokens_then hf rfl nofun fun mid hmid => ?_
    exact lift_avoids (declares_okOr hf id) fun _ => lift_avoids (declares_okOr hf id) fun _ =>
      .ofExcept (hmid.storeBoth hf (by decide) (by decide))
  | withdraw amount =>
    have hall : Suits f accounts ⟨[0, 1, 2, 3], [4], 5⟩ := h
    refine lift_avoids (declares_positionPrologue hf hall) fun (market, pos) =>
      lift_avoids (declares_require hf id) fun _ => lift_avoids (declares_okOr hf id) fun _ =>
      lift_avoids (declares_orPanic hf) fun _ => lift_avoids (declares_require hf id) fun _ =>
      hall.tokens_then hf rfl nofun fun mid hmid => ?_
    exact lift_avoids (declares_okOr hf id) fun _ =>
      .ofExcept (hmid.storeBoth hf (by decide) (by decide))
  | borrow amount =>
    have hall : Suits f accounts ⟨[0, 1, 2, 3], [4], 5⟩ := h
    refine lift_avoids (declares_positionPrologue hf hall) fun (market, pos) =>
      lift_avoids (declares_require hf id) fun _ => lift_avoids (declares_okOr hf id) fun _ =>
      lift_avoids (declares_orPanic hf) fun _ => lift_avoids (declares_require hf id) fun _ =>
      lift_avoids (declares_okOr hf id) fun _ => ?_
    refine .bind (.adapt (liquidityError_undeclared hf) (hall.tokens hf rfl))
      (.adapt (token_invoke_flagged nofun)) fun mid hmid => ?_
    have hmid' : Suits f mid ⟨[0, 1, 2, 3], [4], 5⟩ := hall.flagged hmid
    exact lift_avoids (declares_okOr hf id) fun _ =>
      .ofExcept (hmid'.storeBoth hf (by decide) (by decide))
  | repay amount =>
    have hall : Suits f accounts ⟨[0, 1, 2, 3], [4], 5⟩ := h
    refine lift_avoids (declares_positionPrologue hf hall) fun (market, pos) =>
      hall.tokens_then hf rfl nofun fun mid hmid => ?_
    exact lift_avoids (declares_orPanic hf) fun _ => lift_avoids (declares_okOr hf id) fun _ =>
      .ofExcept (hmid.storeBoth hf (by decide) (by decide))
  | liquidate repayAmount =>
    have hall : Suits f accounts ⟨[0, 1, 2, 3, 4, 5], [6], 7⟩ := h
    refine enough_then h (Nat.le_refl 7) (h.signer_then hf List.mem_cons_self fun _ => ?_)
    refine lift_avoids (declares_loadMarket hf) fun market => lift_avoids (declares_load hf)
      fun pos => lift_avoids (declares_slot hf) fun _ => lift_avoids (declares_require hf id)
      fun _ => lift_avoids (declares_orPanic hf) fun pos => lift_avoids (declares_require hf id)
      fun _ => lift_avoids (declares_orPanic hf) fun _ => lift_avoids (declares_require hf id)
      fun _ => lift_avoids (declares_orPanic hf) fun _ => lift_avoids (declares_require hf id)
      fun _ => lift_avoids (declares_orPanic hf) fun _ => ?_
    exact hall.tokens_then hf rfl nofun fun mid hmid => hmid.tokens_then hf rfl nofun
      fun last hlast => lift_avoids (declares_orPanic hf) fun _ =>
      lift_avoids (declares_orPanic hf) fun _ => lift_avoids (declares_okOr hf id) fun _ =>
      .ofExcept (hlast.storeBoth hf (by decide) (by decide))

/-! ## The vault -/

theorem declares_balance (hf : Undeclared f) {i : Nat} : Avoids f (Vault.balance accounts i) :=
  .bind (declares_load hf) fun _ => avoids_pure

theorem declares_readLenderShares (hf : Undeclared f) {i : Nat} :
    Avoids f (Vault.readLenderShares accounts i) :=
  .bind (declares_loadOr hf) fun _ => avoids_pure

theorem declares_liveNav (hf : Undeclared f) {vault : Vault.VaultState} :
    Avoids f (Vault.liveNav π vault accounts) := by
  unfold Vault.liveNav
  split
  · exact .bind (declares_load hf) fun _ => .bind (declares_balance hf) fun _ =>
      .bind (declares_orPanic hf) fun _ => declares_okOr hf id
  · exact avoids_pure

theorem declares_depositShares (hf : Undeclared f) {vault : Vault.VaultState}
    {basis amount : UInt64} : Avoids f (Vault.depositShares π vault basis amount) := by
  unfold Vault.depositShares
  split
  · exact .bind (declares_okOr hf id) fun _ => avoids_pure
  · exact .bind (declares_orPanic hf) fun _ => avoids_pure

/-- The market is looked at only where there are shares in it. -/
theorem declares_deployedValue (hf : Undeclared f) {vault : Vault.VaultState}
    (hmarket : f = .err .notEnoughAccounts → 0 < vault.lenderShares → 6 ≤ accounts.length) :
    Avoids f (Vault.deployedValue π vault accounts) := by
  unfold Vault.deployedValue
  split
  · rename_i hshares
    refine .bind ?_ fun _ => .bind (declares_load hf) fun _ => declares_orPanic hf
    by_cases hfault : f = .err .notEnoughAccounts
    · exact declares_enough (hmarket hfault hshares)
    · cases decide (6 ≤ accounts.length) with
      | true => exact nofun
      | false => exact avoids_error.mpr (Ne.symm hfault)
  · exact avoids_pure

theorem declares_strategyPrologue (hf : Undeclared f) {amount : UInt64}
    (h : Suits f accounts ⟨[0, 1, 2, 3, 4], [5], 6⟩) :
    Avoids f (Vault.strategyPrologue accounts amount) :=
  .bind (declares_enough h.count) fun _ => h.signer List.mem_cons_self fun _ _ =>
    .bind (declares_require hf id) fun _ => .bind (declares_load hf) fun _ =>
    .bind (declares_require hf id) fun _ => .bind (declares_require hf id) fun _ => avoids_pure

theorem mmLiquidity_flagged {indices : List Nat} {ix : MoneyMarket.MoneyMarketInstruction} :
    (Vault.mmLiquidity π accounts indices ix timestamp).Yields (Flagged accounts) :=
  .seq fun data => invoke_flagged fun window =>
    SlotRel.moneyMarket_kept (S := writableFrame.slotRel) π timestamp window data

/-- The lender side of the market goes through, and flags stay as they were. -/
theorem Suits.liquidity_then {m : Needs} {indices : List Nat}
    {ix : MoneyMarket.MoneyMarketInstruction} {g : List AccountInfo → Prog β}
    (h : Suits f accounts m) (hf : Undeclared f)
    (hcovers : m.covers indices [4] (moneyMarketNeeds ix) = true)
    (hg : ∀ mid, Suits f mid m → Comp.Avoids f (g mid)) :
    Comp.Avoids f (Vault.mmLiquidity π accounts indices ix timestamp >>= g) := by
  have hcall : Comp.Avoids f (Vault.mmLiquidity π accounts indices ix timestamp) := by
    refine .bind (Q := fun data => toVec ix = some data) (.ofExcept (declares_okOr hf id))
      (.ofExcept fun data hdata => okOr_eq_ok.mp hdata) fun data hdata => ?_
    refine h.invokes hf hcovers fun window hwindow => ?_
    refine .bind (Q := fun ix' => tryFromSlice data = some ix') (.ofExcept (declares_okOr hf id))
      (.ofExcept fun ix' hix' => okOr_eq_ok.mp hix') fun ix' hix' => ?_
    rw [tryFromSlice_toVec hdata, Option.some.injEq] at hix'
    exact hix' ▸ moneyMarket_declares hf hwindow
  exact .bind hcall mmLiquidity_flagged fun mid hmid => hg mid (h.flagged hmid)

/-- A withdrawal needs no more than six accounts, and what it needs of the others only where there
are nine. -/
theorem Suits.withdrawal {shares least : UInt64}
    (h : Suits f accounts (vaultNeeds accounts.length (.withdraw shares least))) :
    Suits f accounts ⟨[0, 1, 2, 3, 4], [5], 6⟩ := by
  by_cases hnine : 9 ≤ accounts.length
  · unfold vaultNeeds at h
    rw [if_pos hnine] at h
    exact ⟨fun hf i hi => h.writes hf i (List.mem_append_left [6, 7, 8] hi), h.signs,
      Nat.le_trans (by decide : 6 ≤ 9) h.count⟩
  · unfold vaultNeeds at h
    rw [if_neg hnine] at h
    exact h

/-- The market is asked for money only where nine accounts are given. -/
theorem Suits.redeems_then {shares least : UInt64} {vault : Vault.VaultState} {out : UInt64}
    {g : Vault.VaultState × List AccountInfo → Prog β}
    (h : Suits f accounts (vaultNeeds accounts.length (.withdraw shares least))) (hf : Undeclared f)
    (hg : ∀ vault mid, Suits f mid ⟨[0, 1, 2, 3, 4], [5], 6⟩ → Comp.Avoids f (g (vault, mid))) :
    Comp.Avoids f (Vault.autoUndeploy π vault accounts timestamp out >>= g) := by
  refine .bind (Q := fun r => Flagged accounts r.2) ?_ ?_ fun r hr =>
    hg r.1 r.2 (h.withdrawal.flagged hr)
  · refine lift_avoids (declares_balance hf) fun idle => ?_
    split
    · rename_i hdraw
      unfold vaultNeeds at h
      rw [if_pos hdraw.2] at h
      exact h.liquidity_then hf rfl fun mid hmid =>
        lift_avoids (declares_readLenderShares hf) fun _ => .pure
    · exact .pure
  · exact .seq fun idle => .ite (.bind mmLiquidity_flagged fun mid hmid => .seq fun _ => .pure hmid)
      (.pure .refl)

/-- A report is given the market where its manager's vault holds shares of it. -/
def MarketGiven (accounts : List AccountInfo) : Prop :=
  ∀ vault manager, load accounts 0 = .ok (vault : Vault.VaultState) → vault.isInitialized = true →
    accounts[1]? = some manager → manager.key = vault.manager → 0 < vault.lenderShares →
    6 ≤ accounts.length

theorem vault_declares (hf : Undeclared f) {ix : Vault.VaultInstruction}
    (h : Suits f accounts (vaultNeeds accounts.length ix))
    (hmarket : f = .err .notEnoughAccounts → ix = .report → MarketGiven accounts) :
    Comp.Avoids f (Vault.run π accounts timestamp ix) := by
  have hmove : ∀ {amount : UInt64} {ix : MoneyMarket.MoneyMarketInstruction},
      Suits f accounts ⟨[0, 1, 2, 3, 4], [5], 6⟩ → moneyMarketNeeds ix = ⟨[0, 1, 2, 3], [4], 5⟩ →
      Comp.Avoids f (Vault.moveLiquidity π accounts timestamp amount ix) := by
    intro amount ix hall hneeds
    refine lift_avoids (declares_strategyPrologue hf hall) fun vault => ?_
    refine hall.liquidity_then hf (by rw [hneeds]; rfl) fun mid hmid => ?_
    exact lift_avoids (declares_readLenderShares hf) fun _ =>
      .ofExcept (hmid.stores hf (by decide))
  cases ix with
  | initVault fee =>
    exact .ofExcept (.bind (declares_enough h.count) fun _ => h.signer List.mem_cons_self
      fun _ _ => .bind (declares_require hf id) fun _ => .bind (declares_loadOr hf) fun _ =>
      .bind (declares_require hf id) fun _ =>
      .bind (declares_slot hf) fun _ => .bind (declares_slot hf) fun _ =>
      .bind (declares_slot hf) fun _ => .bind (declares_slot hf) fun _ =>
      h.stores hf List.mem_cons_self)
  | deposit amount least =>
    have hall : Suits f accounts ⟨[0, 1, 2, 3, 4], [5], 6⟩ := h
    refine enough_then h (Nat.le_refl 6) (h.signer_then hf List.mem_cons_self fun _ => ?_)
    refine lift_avoids (declares_require hf id) fun _ => lift_avoids (declares_load hf)
      fun vault => lift_avoids (declares_require hf id) fun _ => lift_avoids (declares_liveNav hf)
      fun _ => lift_avoids (declares_depositShares hf) fun (userShares, supplyDelta) =>
      lift_avoids (declares_require hf id) fun _ => ?_
    exact hall.tokens_then hf rfl nofun fun mid hmid => hmid.tokens_then hf rfl nofun
      fun last hlast => lift_avoids (declares_okOr hf id) fun _ =>
      lift_avoids (declares_okOr hf id) fun _ => .ofExcept (hlast.stores hf (by decide))
  | withdraw shares minAssets =>
    have hall : Suits f accounts ⟨[0, 1, 2, 3, 4], [5], 6⟩ := h.withdrawal
    refine enough_then hall (Nat.le_refl 6) (hall.signer_then hf List.mem_cons_self fun _ => ?_)
    refine lift_avoids (declares_load hf)
      fun vault => lift_avoids (declares_require hf id) fun _ => lift_avoids (declares_liveNav hf)
      fun _ => lift_avoids (declares_orPanic hf) fun assetsOut =>
      lift_avoids (declares_require hf id) fun _ => ?_
    exact h.redeems_then hf fun vault mid hmid => hmid.tokens_then hf rfl nofun fun mid hmid =>
      hmid.tokens_then hf rfl nofun fun last hlast => lift_avoids (declares_okOr hf id) fun _ =>
      lift_avoids (declares_okOr hf id) fun _ => .ofExcept (hlast.stores hf (by decide))
  | report =>
    have hall : Suits f accounts ⟨[0, 3, 4], [1], 5⟩ := h
    refine enough_then h (Nat.le_refl 5) (lift_avoids_ok (declares_slot hf) fun manager hslot => ?_)
    have hmanager := slot_eq_ok hslot
    obtain ⟨a, ha, hsigned⟩ := hall.signs 1 List.mem_cons_self
    obtain rfl : manager = a := Option.some.inj (hmanager.symm.trans ha)
    have hsigner : manager.requireSigner = .ok () := require_eq_ok.mpr hsigned
    refine lift_avoids (by rw [hsigner]; exact nofun) fun _ => ?_
    refine lift_avoids_ok (declares_load hf) fun vault hvault => lift_avoids_ok
      (declares_require hf id) fun _ hinit => lift_avoids_ok (declares_require hf id)
      fun _ hkey => ?_
    have hgiven : f = .err .notEnoughAccounts → 0 < vault.lenderShares → 6 ≤ accounts.length :=
      fun hfault => hmarket hfault rfl vault manager hvault (require_eq_ok.mp hinit) hmanager
        (beq_iff_eq.mp (require_eq_ok.mp hkey))
    refine lift_avoids (declares_deployedValue hf hgiven) fun _ => lift_avoids
      (declares_balance hf) fun _ => lift_avoids (declares_okOr hf id) fun nav => lift_avoids
      (declares_orPanic hf) fun fee => ?_
    split
    · exact hall.tokens_then hf rfl nofun fun mid hmid => lift_avoids (declares_okOr hf id)
        fun _ => .ofExcept (hmid.stores hf (by decide))
    · exact .ofExcept (hall.stores hf (by decide))
  | deploy amount => exact hmove h rfl
  | undeploy amount => exact hmove h rfl

end

end Proof
end Himsha
