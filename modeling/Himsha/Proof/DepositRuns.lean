import Himsha.Lib.Encodes
import Himsha.Proof.PoolShares

/-!
# When a deposit goes through

What is left of an invocation that has to succeed: the forward rules for the machine of `cpi.rs` and
for the token program, and what the trail holds afterwards (`Vouched`). With them a deposit whose
exact amounts all fit runs to its end, unless one of the two products with the LP supply does not
fit in a `u64` (`deposit_exact_iff`).
-/

set_option autoImplicit false

namespace Himsha
namespace Proof

open Himsha.Lib Himsha.Runtime Himsha.Programs Himsha.Vm Token Swap

/-! ## Steps that succeed -/

section
variable {α β : Type} {accounts : List AccountInfo} {i : Nat} {a : AccountInfo} {th th' : Thread}

theorem lift_returns {x : Outcome α} {f : α → Prog β} {v : α} {b : β} (hx : x = .ok v)
    (hf : Comp.Returns (f v) th b th') : Comp.Returns ((liftM x : Prog α) >>= f) th b th' :=
  Comp.returns_bind.mpr ⟨v, th, Comp.returns_ofExcept.mpr ⟨hx, rfl⟩, hf⟩

theorem charge_returns {units : UInt64} (h : saturatingAdd th.spent units ≤ computeBudget) :
    Comp.Returns (charge units) th () { th with spent := saturatingAdd th.spent units } := by
  rw [Comp.Returns, exec_charge, if_neg (UInt64.not_lt.mpr h)]

theorem deeper_returns {body : Prog α} {v : α} (hdepth : th.depth < maxCpiDepth)
    (h : Comp.Returns body { th with depth := th.depth + 1 } v th') :
    Comp.Returns (withCpiDepth body) th v { th' with depth := th'.depth - 1 } := by
  rw [Comp.Returns, exec_withCpiDepth, if_neg (by omega), show Comp.exec body _ = _ from h]

theorem load_ok [Borsh α] {v : α} (ha : accounts[i]? = some a)
    (hv : tryFromSlice a.data = some v) : load accounts i = .ok v := by
  unfold load slot AccountInfo.readData
  rw [ha]
  exact okOr_eq_ok.mpr hv

theorem store_ok [Borsh α] {v : α} {d : List UInt8} (ha : accounts[i]? = some a)
    (hw : a.isWritable = true) (hd : toVec v = some d) :
    store accounts i v = .ok (accounts.set i { a with data := d }) := by
  unfold store slot AccountInfo.writeData
  rw [ha, hd]
  simp only [orPanic, okOr, Except.map, bind, Except.bind, hw, if_true]
  rfl

end

theorem checkedAdd_ok {a b : UInt64} (h : a.toNat + b.toNat < 2 ^ 64) :
    checkedAdd a b = some (a + b) := if_pos h

theorem checkedSub_ok {a b : UInt64} (h : b.toNat ≤ a.toNat) : checkedSub a b = some (a - b) :=
  if_pos (UInt64.le_iff_toNat_le.mpr h)

theorem swap_mulDiv_ok {a b c : UInt64} (hfits : a.toNat * b.toNat < 2 ^ 64) (hc : c ≠ 0) :
    Swap.mulDiv a b c = .ok (a * b / c) := by
  unfold Swap.mulDiv checkedMul checkedDiv
  rw [if_pos hfits]
  simp only [okOr, bind, Except.bind, if_neg hc]

/-! ## Records that are always encoded -/

theorem encodes_token (token : TokenAccountState) : ∃ d, toVec token = some d := by
  have hfields : Encodes token ↔ Encodes token.fields := Iff.rfl
  refine Encodes.toVec (hfields.mpr ?_)
  unfold TokenAccountState.fields
  simp only [encodes_pair]
  refine ⟨rfl, rfl, rfl, .option fun _ => rfl, ?_, rfl, .option fun _ => rfl⟩
  cases token.state <;> rfl

theorem encodes_mint (mint : MintState) : ∃ d, toVec mint = some d := by
  have hfields : Encodes mint ↔ Encodes mint.fields := Iff.rfl
  refine Encodes.toVec (hfields.mpr ?_)
  unfold MintState.fields
  simp only [encodes_pair]
  exact ⟨.option fun _ => rfl, rfl, rfl, rfl, .option fun _ => rfl⟩

theorem encodes_pool (pool : PoolState) : ∃ d, toVec pool = some d := by
  have hfields : Encodes pool ↔ Encodes pool.fields := Iff.rfl
  refine Encodes.toVec (hfields.mpr ?_)
  unfold PoolState.fields
  simp only [encodes_pair]
  exact ⟨rfl, rfl, rfl, rfl, rfl, rfl, rfl, rfl, rfl, rfl, rfl⟩

/-! ## The gate -/

theorem ListedOnce.ne {accounts : List AccountInfo} {i j : Nat} {a b : AccountInfo}
    (h : ListedOnce accounts i) (ha : accounts[i]? = some a) (hb : accounts[j]? = some b)
    (hij : j ≠ i) : a.key ≠ b.key :=
  fun hkey => hij (h.unique ha hb hkey.symm)

/-- A slot is as it was, or as the trail knows it. -/
def Vouched (th : Thread) (pre post : AccountInfo) : Prop :=
  sameState pre post = true ∨
    ∃ s, th.approved.lookup post.key = some s ∧ sameState s post = true

/-- The trail of `th'` is that of `th` but for what `keys` are approved as; the depth is the same,
    and `units` more were spent. -/
structure Advanced (th th' : Thread) (keys : List Pubkey) (units : UInt64) : Prop where
  lookup : ∀ k, k ∉ keys → th'.approved.lookup k = th.approved.lookup k
  depth : th'.depth = th.depth
  spent : th'.spent = saturatingAdd th.spent units

section
variable {programId : Pubkey} {pre post : AccountInfo} {th th' : Thread}

theorem Vouched.mono (h : Vouched th pre post)
    (hlook : th'.approved.lookup post.key = th.approved.lookup post.key) :
    Vouched th' pre post := by
  rcases h with hsame | ⟨s, hs, hstate⟩
  · exact .inl hsame
  · exact .inr ⟨s, hlook.trans hs, hstate⟩

/-- What a program does to an account of its own passes, and the trail knows it afterwards. -/
theorem own_returns (post : AccountInfo) (hown : pre.owner = programId) (th : Thread) :
    ∃ th', Comp.Returns (validateWrite programId pre post) th post th' ∧
      Vouched th' pre post ∧ (th' = th ∨ th' = approve th post) := by
  unfold validateWrite
  split
  · rename_i hsame
    exact ⟨th, rfl, .inl hsame, .inl rfl⟩
  · rw [if_pos (by simpa using hown)]
    refine ⟨approve th post, ?_, .inr ⟨post, ?_, sameState_refl post⟩, .inr rfl⟩
    · exact Comp.returns_bind.mpr ⟨(), approve th post, returns_record.mpr rfl, rfl⟩
    · exact Finmap.lookup_insert _

theorem lookup_approve {k : Pubkey} (h : k ≠ post.key) :
    (approve th post).approved.lookup k = th.approved.lookup k :=
  Finmap.lookup_insert_of_ne _ h

/-- A state that the trail knows passes, whoever leaves it. -/
theorem vouched_returns (hdata : pre.data ≠ []) (h : Vouched th pre post) :
    ∃ th', Comp.Returns (validateWrite programId pre post) th post th' ∧
      (th' = th ∨ th' = approve th post) := by
  by_cases hdirect : Direct programId pre post
  · obtain ⟨out, th', hret⟩ := validateWrite_direct hdirect th
    obtain rfl := validateWrite_nonblank hdata hret
    refine ⟨th', hret, ?_⟩
    rw [validateWrite_trail hret]
    split
    · exact .inr rfl
    · exact .inl rfl
  · refine ⟨th, ?_, .inl rfl⟩
    rcases h with hsame | ⟨s, hlook, hsame⟩
    · exact absurd (.inr (.inl (creditOnly_of_sameState hsame))) hdirect
    · unfold validateWrite
      split
      · rfl
      rw [if_neg fun hown => hdirect (.inl (by simpa using hown)),
        if_neg fun hcredit => hdirect (.inr (.inl hcredit)),
        if_neg fun hblank => hdirect (.inr (.inr hblank))]
      refine Comp.returns_bind.mpr ⟨th, th, Comp.returns_get.mpr ⟨rfl, rfl⟩, ?_⟩
      rw [hlook]
      dsimp only
      rw [if_pos hsame]
      rfl

end

/-- A slot that was left alone, or one with data that is the program's or that the trail knows. -/
def Passes (programId : Pubkey) (th : Thread) (pre post : AccountInfo) : Prop :=
  post = pre ∨ pre.data ≠ [] ∧ (pre.owner = programId ∨ Vouched th pre post)

/-- A table of such slots passes as it is, if no key of a slot that was changed comes up before. -/
theorem gate_returns {programId : Pubkey} {before : List AccountInfo} :
    ∀ {after : List AccountInfo} {th : Thread}, before.length = after.length →
      (before.zip after).Pairwise (fun p q => q.2 = q.1 ∨ q.2.key ≠ p.2.key) →
      (∀ p ∈ before.zip after, Passes programId th p.1 p.2) →
      ∃ th', Comp.Returns (gate programId before after) th after th' := by
  induction before with
  | nil =>
    intro after th hlen _ _
    obtain rfl := List.length_eq_zero_iff.mp hlen.symm
    exact ⟨th, rfl⟩
  | cons pre before ih =>
    intro after th hlen hkeys hpasses
    cases after with
    | nil => simp at hlen
    | cons post after =>
      rw [List.zip_cons_cons] at hkeys hpasses
      obtain ⟨hfirst, hkeys'⟩ := List.pairwise_cons.mp hkeys
      have hslot : ∃ th₁, Comp.Returns (validateWrite programId pre post) th post th₁ ∧
          (th₁ = th ∨ th₁ = approve th post) := by
        rcases hpasses (pre, post) List.mem_cons_self with hsame | ⟨hdata, hown | hvouched⟩
        · obtain rfl : post = pre := hsame
          refine ⟨th, ?_, .inl rfl⟩
          unfold validateWrite
          rw [if_pos (sameState_refl post)]
          rfl
        · obtain ⟨th₁, hret, -, hth⟩ := own_returns post hown th
          exact ⟨th₁, hret, hth⟩
        · exact vouched_returns hdata hvouched
      obtain ⟨th₁, hret, hth⟩ := hslot
      -- What was recorded for this slot is under another key than the changed ones to come.
      have hpasses' : ∀ p ∈ before.zip after, Passes programId th₁ p.1 p.2 := by
        intro p hp
        rcases hpasses p (List.mem_cons_of_mem _ hp) with hsame | ⟨hdata, hown | hvouched⟩
        · exact .inl hsame
        · exact .inr ⟨hdata, .inl hown⟩
        · rcases hfirst p hp with hsame | hne
          · exact .inl hsame
          · refine .inr ⟨hdata, .inr (hvouched.mono ?_)⟩
            rcases hth with rfl | rfl
            · rfl
            · exact lookup_approve hne
      obtain ⟨th', hrest⟩ := ih (by simpa using hlen) hkeys' hpasses'
      exact ⟨th', gate_cons.mpr ⟨post, th₁, after, hret, hrest, rfl⟩⟩

/-! ## Calls of the token program -/

theorem Advanced.approves {th th' : Thread} {a : AccountInfo} {keys : List Pubkey} {units : UInt64}
    (h : Advanced th th' keys units) (ha : a.key ∈ keys) {th'' : Thread}
    (h' : th'' = th' ∨ th'' = approve th' a) : Advanced th th'' keys units := by
  rcases h' with rfl | rfl
  · exact h
  · refine ⟨fun k hk => (lookup_approve ?_).trans (h.lookup k hk), h.depth, h.spent⟩
    rintro rfl
    exact hk ha

section
variable {π : Profile} {accounts : List AccountInfo} {i j k : Nat} {a b c : AccountInfo}
  {d e : List UInt8} {ix : TokenInstruction} {th : Thread}

/-- A call on three slots of which the token program owns the first two and rewrites them. -/
theorem token_returns (hij : i ≠ j) (hik : i ≠ k) (hjk : j ≠ k) (ha : accounts[i]? = some a)
    (hb : accounts[j]? = some b) (hc : accounts[k]? = some c)
    (howner : a.owner = ProgramIds.tokenProgram ∧ b.owner = ProgramIds.tokenProgram)
    (hab : a.key ≠ b.key) (hac : a.key ≠ c.key) (hbc : b.key ≠ c.key)
    (hix : ∃ bytes, toVec ix = some bytes)
    (hrun : Token.run π [a, b, c] ix = .ok [{ a with data := d }, { b with data := e }, c])
    (hdepth : th.depth < maxCpiDepth) (hunits : saturatingAdd th.spent 1300 ≤ computeBudget) :
    ∃ th', Comp.Returns (Token.invoke π accounts [i, j, k] [] ix) th
        ((accounts.set i { a with data := d }).set j { b with data := e }) th' ∧
      Advanced th th' [a.key, b.key] 1300 ∧ Vouched th' a { a with data := d } ∧
      Vouched th' b { b with data := e } := by
  obtain ⟨bytes, hbytes⟩ := hix
  have hwindow : windowOf accounts [i, j, k] = .ok [a, b, c] := by
    simp [windowOf, ha, hb, hc, okOr, pure, Except.pure, bind, Except.bind]
  have hapart : rejectDuplicateWritable [a, b, c] = .ok () := by
    rw [rejectDuplicateWritable_eq_ok]
    simp [hab, hac, hbc]
  have hcost : cpiBaseCost + perAccountCost * UInt64.ofNat [i, j, k].length = 1300 := by
    change cpiBaseCost + perAccountCost * UInt64.ofNat 3 = 1300
    decide
  let th₁ : Thread := { th with depth := th.depth + 1, spent := saturatingAdd th.spent 1300 }
  obtain ⟨th₂, hfirst, hvouched, hth₂⟩ :=
    own_returns { a with data := d } howner.1 th₁
  obtain ⟨th₃, hsecond, hvouched', hth₃⟩ :=
    own_returns { b with data := e } howner.2 th₂
  have hthird : Comp.Returns (validateWrite ProgramIds.tokenProgram c c) th₃ c th₃ := by
    unfold validateWrite
    rw [if_pos (sameState_refl c)]
    rfl
  have hgate : Comp.Returns (gate ProgramIds.tokenProgram [a, b, c]
      [{ a with data := d }, { b with data := e }, c]) th₁
      [{ a with data := d }, { b with data := e }, c] th₃ :=
    gate_cons.mpr ⟨_, th₂, _, hfirst, gate_cons.mpr ⟨_, th₃, _, hsecond,
      gate_cons.mpr ⟨_, th₃, [], hthird, rfl, rfl⟩, rfl⟩, rfl⟩
  have hadvanced : Advanced { th with depth := th.depth + 1 } th₁ [a.key, b.key] 1300 :=
    ⟨fun _ _ => rfl, rfl, rfl⟩
  have hadvanced' := (hadvanced.approves (a := { a with data := d }) (by simp) hth₂).approves
    (a := { b with data := e }) (by simp) hth₃
  refine ⟨{ th₃ with depth := th₃.depth - 1 }, ?_, ?_, ?_, hvouched'⟩
  · unfold Token.invoke
    refine lift_returns (okOr_eq_ok.mpr hbytes) ?_
    rw [invokeSignedIndexed_eq]
    refine lift_returns hwindow (deeper_returns hdepth ?_)
    unfold entry
    rw [hcost, bind_assoc]
    refine Comp.returns_bind.mpr ⟨(), th₁, charge_returns hunits, ?_⟩
    refine lift_returns hapart ?_
    refine Comp.returns_bind.mpr ⟨[{ a with data := d }, { b with data := e }, c], th₃, ?_, ?_⟩
    · unfold calleeRun
      refine lift_returns ?_ hgate
      unfold Token.process
      rw [tryFromSlice_toVec hbytes]
      exact hrun
    · rw [Comp.returns_pure]
      exact ⟨(writeBack_three hij hik hjk ha hb hc).symm, rfl⟩
  · refine ⟨hadvanced'.lookup, ?_, hadvanced'.spent⟩
    change th₃.depth - 1 = th.depth
    rw [hadvanced'.depth]
    rfl
  · refine (hvouched.mono ?_ : Vouched th₃ a _)
    rcases hth₃ with rfl | rfl
    · rfl
    · exact lookup_approve hab

variable {source dest : TokenAccountState} {mint : MintState} {n : UInt64}

theorem transfer_runs (hsigned : c.isSigner = true)
    (hwritable : a.isWritable = true ∧ b.isWritable = true)
    (hsource : tryFromSlice a.data = some source) (hdest : tryFromSlice b.data = some dest)
    (hmint : source.mint = dest.mint) (hfree : source.state ≠ .frozen ∧ dest.state ≠ .frozen)
    (hfunds : n.toNat ≤ source.amount.toNat) (hroom : dest.amount.toNat + n.toNat < 2 ^ 64)
    (hd : toVec { source with amount := source.amount - n } = some d)
    (he : toVec { dest with amount := dest.amount + n } = some e) :
    Token.run π [a, b, c] (.transfer n) =
      .ok [{ a with data := d }, { b with data := e }, c] := by
  unfold Token.run requireThirdSigner AccountInfo.requireSigner
  refine bind_eq_ok.mpr ⟨(), require_eq_ok.mpr hsigned, ?_⟩
  refine bind_eq_ok.mpr ⟨source, load_ok rfl hsource, ?_⟩
  refine bind_eq_ok.mpr ⟨dest, load_ok rfl hdest, ?_⟩
  refine bind_eq_ok.mpr ⟨(), require_eq_ok.mpr (by simpa using hmint), ?_⟩
  refine bind_eq_ok.mpr ⟨(), require_eq_ok.mpr (by simpa using hfree), ?_⟩
  refine bind_eq_ok.mpr ⟨_, okOr_eq_ok.mpr (checkedSub_ok hfunds), ?_⟩
  refine bind_eq_ok.mpr ⟨_, okOr_eq_ok.mpr (checkedAdd_ok hroom), ?_⟩
  refine bind_eq_ok.mpr ⟨_, store_ok rfl hwritable.1 hd, ?_⟩
  exact store_ok rfl hwritable.2 he

theorem mintTo_runs (hsigned : c.isSigner = true)
    (hwritable : a.isWritable = true ∧ b.isWritable = true)
    (hmint : tryFromSlice a.data = some mint) (hdest : tryFromSlice b.data = some dest)
    (hkey : dest.mint = a.key) (hfree : dest.state ≠ .frozen)
    (hsupply : mint.supply.toNat + n.toNat < 2 ^ 64)
    (hroom : dest.amount.toNat + n.toNat < 2 ^ 64)
    (hd : toVec { mint with supply := mint.supply + n } = some d)
    (he : toVec { dest with amount := dest.amount + n } = some e) :
    Token.run π [a, b, c] (.mintTo n) =
      .ok [{ a with data := d }, { b with data := e }, c] := by
  unfold Token.run requireThirdSigner AccountInfo.requireSigner
  refine bind_eq_ok.mpr ⟨(), require_eq_ok.mpr hsigned, ?_⟩
  refine bind_eq_ok.mpr ⟨mint, load_ok rfl hmint, ?_⟩
  refine bind_eq_ok.mpr ⟨dest, load_ok rfl hdest, ?_⟩
  refine bind_eq_ok.mpr ⟨a, rfl, ?_⟩
  refine bind_eq_ok.mpr ⟨(), require_eq_ok.mpr (by simpa using hkey), ?_⟩
  refine bind_eq_ok.mpr ⟨(), require_eq_ok.mpr (by simpa using hfree), ?_⟩
  refine bind_eq_ok.mpr ⟨_, okOr_eq_ok.mpr (checkedAdd_ok hsupply), ?_⟩
  refine bind_eq_ok.mpr ⟨_, okOr_eq_ok.mpr (checkedAdd_ok hroom), ?_⟩
  refine bind_eq_ok.mpr ⟨_, store_ok rfl hwritable.1 hd, ?_⟩
  exact store_ok rfl hwritable.2 he

end

/-! ## Deposits -/

/-- The record in slot `i` is one of `owner`'s, which can be written and is in no other slot. -/
def OwnedAt {α : Type} [Borsh α] (accounts : List AccountInfo) (i : Nat) (owner : Pubkey)
    (v : α) : Prop :=
  ∃ a ∈ accounts[i]?, a.owner = owner ∧ a.isWritable = true ∧ tryFromSlice a.data = some v ∧
    ListedOnce accounts i

/-- `n` tokens can be moved from slot `i` to slot `j`. -/
def CanPay (accounts : List AccountInfo) (i j n : Nat) : Prop :=
  ∃ source ∈ recordAt TokenAccountState accounts i,
    ∃ dest ∈ recordAt TokenAccountState accounts j,
      OwnedAt accounts i ProgramIds.tokenProgram source ∧
      OwnedAt accounts j ProgramIds.tokenProgram dest ∧ source.mint = dest.mint ∧
      (source.state ≠ .frozen ∧ dest.state ≠ .frozen) ∧ n ≤ source.amount.toNat ∧
      dest.amount.toNat + n < 2 ^ 64

/-- `n` tokens of the mint in slot `i` can be issued to slot `j`. -/
def CanIssue (accounts : List AccountInfo) (i j n : Nat) : Prop :=
  ∃ mint ∈ recordAt MintState accounts i, ∃ dest ∈ recordAt TokenAccountState accounts j,
    OwnedAt accounts i ProgramIds.tokenProgram mint ∧
    OwnedAt accounts j ProgramIds.tokenProgram dest ∧ keyAt accounts i = some dest.mint ∧
    dest.state ≠ .frozen ∧ mint.supply.toNat + n < 2 ^ 64 ∧ dest.amount.toNat + n < 2 ^ 64

/-- The accounts of a deposit are well formed, the user signed and has enough, and every amount
    that comes out fits. -/
structure DepositReady (accounts : List AccountInfo) (pool : PoolState) (x y lp : Nat)
    (least : UInt64) : Prop where
  held : OwnedAt accounts 0 ProgramIds.swapProgram pool
  live : pool.lpSupply ≠ 0
  reserves : HoldsTokens accounts 3 x ∧ HoldsTokens accounts 4 y
  positive : 0 < x ∧ 0 < y
  signer : ∃ user ∈ accounts[6]?, user.isSigner = true
  least : least.toNat ≤ lp
  first : CanPay accounts 1 3 (shareOf pool x lp)
  second : CanPay accounts 2 4 (shareOf pool y lp)
  issue : CanIssue accounts 7 5 lp
  supply : pool.lpSupply.toNat + lp < 2 ^ 64

section
variable {accounts : List AccountInfo} {i j n : Nat}

instance {α : Type} [Borsh α] [DecidableEq α] {owner : Pubkey} {v : α} :
    Decidable (OwnedAt accounts i owner v) :=
  inferInstanceAs (Decidable (∃ a ∈ accounts[i]?, _))

instance : Decidable (CanPay accounts i j n) :=
  inferInstanceAs (Decidable (∃ source ∈ recordAt TokenAccountState accounts i, _))

instance : Decidable (CanIssue accounts i j n) :=
  inferInstanceAs (Decidable (∃ mint ∈ recordAt MintState accounts i, _))

instance : Decidable (HoldsTokens accounts i n) := inferInstanceAs (Decidable (_ = _))

instance {pool : PoolState} {x y lp : Nat} {least : UInt64} :
    Decidable (DepositReady accounts pool x y lp least) :=
  decidable_of_iff (OwnedAt accounts 0 ProgramIds.swapProgram pool ∧ pool.lpSupply ≠ 0 ∧
      (HoldsTokens accounts 3 x ∧ HoldsTokens accounts 4 y) ∧ (0 < x ∧ 0 < y) ∧
      (∃ user ∈ accounts[6]?, user.isSigner = true) ∧ least.toNat ≤ lp ∧
      CanPay accounts 1 3 (shareOf pool x lp) ∧ CanPay accounts 2 4 (shareOf pool y lp) ∧
      CanIssue accounts 7 5 lp ∧ pool.lpSupply.toNat + lp < 2 ^ 64)
    ⟨fun ⟨held, live, reserves, positive, signer, least, first, second, issue, supply⟩ =>
        ⟨held, live, reserves, positive, signer, least, first, second, issue, supply⟩,
      fun h => ⟨h.held, h.live, h.reserves, h.positive, h.signer, h.least, h.first, h.second,
        h.issue, h.supply⟩⟩

end

section
variable {π : Profile} {hasher : Lending.Hasher} {timestamp : UInt64}
  {accounts mid out : List AccountInfo} {data : List UInt8} {pool : PoolState} {x y : Nat}
  {maxA maxB least : UInt64} {th th' : Thread}

/-- What was priced does not exceed what it was priced at. -/
theorem lpFor_mul_le : lpFor pool x y maxA.toNat maxB.toNat * x ≤
    maxA.toNat * pool.lpSupply.toNat ∧
    lpFor pool x y maxA.toNat maxB.toNat * y ≤ maxB.toNat * pool.lpSupply.toNat := by
  have hpriced : ∀ n reserve lp : Nat, lp ≤ n / max reserve 1 → lp * reserve ≤ n :=
    fun n reserve lp hlp => (Nat.mul_le_mul hlp (Nat.le_max_left reserve 1)).trans
      (Nat.div_mul_le_self n _)
  exact ⟨hpriced _ _ _ (Nat.min_le_left _ _), hpriced _ _ _ (Nat.min_le_right _ _)⟩

theorem reserveBalance_ok {i : Nat} (h : HoldsTokens accounts i x) :
    ∃ r : UInt64, r.toNat = x ∧ reserveBalance accounts i = .ok r := by
  obtain ⟨token, htoken, rfl⟩ := Option.map_eq_some_iff.mp h
  obtain ⟨a, ha, hdata⟩ := recordAt_eq_some.mp htoken
  refine ⟨token.amount, rfl, ?_⟩
  unfold reserveBalance
  rw [load_ok ha hdata]
  rfl

/-- Where the two products fit, the amounts of a deposit are the exact ones. -/
theorem depositAmounts_ok (hready : DepositReady accounts pool x y
      (lpFor pool x y maxA.toNat maxB.toNat) least)
    (hfit : ProductsFit pool maxA.toNat maxB.toNat) : ∃ a b lp : UInt64,
      depositAmounts π accounts pool maxA maxB = .ok (a, b, lp, lp) ∧
      lp.toNat = lpFor pool x y maxA.toNat maxB.toNat ∧
      a.toNat = shareOf pool x (lpFor pool x y maxA.toNat maxB.toNat) ∧
      b.toNat = shareOf pool y (lpFor pool x y maxA.toNat maxB.toNat) := by
  obtain ⟨reserveA, rfl, hreserveA⟩ := reserveBalance_ok hready.reserves.1
  obtain ⟨reserveB, rfl, hreserveB⟩ := reserveBalance_ok hready.reserves.2
  have hdivisor : ∀ r : UInt64, max r 1 ≠ 0 := by
    intro r hzero
    have hmax := congrArg UInt64.toNat hzero
    rw [toNat_max] at hmax
    exact absurd hmax (Nat.ne_of_gt (Nat.lt_of_lt_of_le Nat.one_pos (Nat.le_max_right _ _)))
  have hlpA := swap_mulDiv_ok hfit.1 (hdivisor reserveA)
  have hlpB := swap_mulDiv_ok hfit.2 (hdivisor reserveB)
  have hlp : (min (maxA * pool.lpSupply / max reserveA 1)
      (maxB * pool.lpSupply / max reserveB 1)).toNat =
      lpFor pool reserveA.toNat reserveB.toNat maxA.toNat maxB.toNat := by
    rw [toNat_min, (swap_mulDiv_eq_ok hlpA).2, (swap_mulDiv_eq_ok hlpB).2, toNat_max, toNat_max]
    rfl
  generalize hlpOut : min (maxA * pool.lpSupply / max reserveA 1)
    (maxB * pool.lpSupply / max reserveB 1) = lpOut at hlp
  have hfitsA : lpOut.toNat * reserveA.toNat < 2 ^ 64 := by
    rw [hlp]
    exact Nat.lt_of_le_of_lt lpFor_mul_le.1 hfit.1
  have hfitsB : lpOut.toNat * reserveB.toNat < 2 ^ 64 := by
    rw [hlp]
    exact Nat.lt_of_le_of_lt lpFor_mul_le.2 hfit.2
  have hactualA := swap_mulDiv_ok hfitsA hready.live
  have hactualB := swap_mulDiv_ok hfitsB hready.live
  refine ⟨lpOut * reserveA / pool.lpSupply, lpOut * reserveB / pool.lpSupply, lpOut, ?_, hlp, ?_,
    ?_⟩
  · unfold depositAmounts
    rw [if_neg hready.live]
    subst hlpOut
    refine bind_eq_ok.mpr ⟨_, hreserveA, bind_eq_ok.mpr ⟨_, hreserveB, ?_⟩⟩
    refine bind_eq_ok.mpr ⟨_, hlpA, bind_eq_ok.mpr ⟨_, hlpB, ?_⟩⟩
    exact bind_eq_ok.mpr ⟨_, hactualA, bind_eq_ok.mpr ⟨_, hactualB, rfl⟩⟩
  · rw [(swap_mulDiv_eq_ok hactualA).2, hlp]
    rfl
  · rw [(swap_mulDiv_eq_ok hactualB).2, hlp]
    rfl

end

/-! ## Step by step -/

/-- A program has come to `mid`: it changed the slots `written` only, which are listed once, have
    data, and are its own or known to the trail. -/
structure Settled (programId : Pubkey) (accounts : List AccountInfo) (written : List Nat)
    (spent : UInt64) (mid : List AccountInfo) (th : Thread) : Prop where
  length : accounts.length = mid.length
  off : ∀ n, n ∉ written → mid[n]? = accounts[n]?
  once : ∀ n ∈ written, ListedOnce accounts n
  slots : ∀ n ∈ written, ∀ a o, accounts[n]? = some a → mid[n]? = some o → o.key = a.key ∧
    a.data ≠ [] ∧ (a.owner = programId ∨ Vouched th a o)
  spent : th.spent = spent
  depth : th.depth < maxCpiDepth

section
variable {programId : Pubkey} {accounts mid : List AccountInfo} {written : List Nat}
  {spent : UInt64} {i j : Nat} {a b : AccountInfo} {d e : List UInt8} {th th' : Thread}

theorem Settled.start (hspent : th.spent = spent) (hdepth : th.depth < maxCpiDepth) :
    Settled programId accounts [] spent accounts th where
  length := rfl
  off _ _ := rfl
  once _ hn := absurd hn List.not_mem_nil
  slots _ hn := absurd hn List.not_mem_nil
  spent := hspent
  depth := hdepth

theorem Settled.key {n : Nat} (h : Settled programId accounts written spent mid th)
    (ha : accounts[n]? = some a) (hb : mid[n]? = some b) : b.key = a.key := by
  by_cases hn : n ∈ written
  · exact (h.slots n hn a b ha hb).1
  · rw [h.off n hn, ha] at hb
    rw [Option.some.inj hb]

/-- The gate keeps such a table as it was left. -/
theorem Settled.returns (h : Settled programId accounts written spent mid th) :
    ∃ th', Comp.Returns (validateWrites programId accounts mid) th mid th' := by
  have hzip : ∀ (n : Nat) (p : AccountInfo × AccountInfo), (accounts.zip mid)[n]? = some p →
      accounts[n]? = some p.1 ∧ mid[n]? = some p.2 := fun n p hp =>
    List.getElem?_zip_eq_some.mp hp
  have hsame : ∀ n, n ∉ written → ∀ p, (accounts.zip mid)[n]? = some p → p.2 = p.1 := by
    intro n hn p hp
    obtain ⟨ha, ho⟩ := hzip n p hp
    rw [h.off n hn, ha] at ho
    exact (Option.some.inj ho).symm
  have hkeys : (accounts.zip mid).Pairwise fun p q => q.2 = q.1 ∨ q.2.key ≠ p.2.key := by
    rw [List.pairwise_iff_getElem]
    intro m n hm hn hlt
    have hp := List.getElem?_eq_getElem hm
    have hq := List.getElem?_eq_getElem hn
    by_cases hmem : n ∈ written
    · refine .inr fun heq => ?_
      rw [h.key (hzip n _ hq).1 (hzip n _ hq).2, h.key (hzip m _ hp).1 (hzip m _ hp).2] at heq
      have hunique := (h.once n hmem).unique (hzip n _ hq).1 (hzip m _ hp).1 heq.symm
      omega
    · exact .inl (hsame n hmem _ hq)
  have hpasses : ∀ p ∈ accounts.zip mid, Passes programId th p.1 p.2 := by
    intro p hp
    obtain ⟨n, hn⟩ := List.mem_iff_getElem?.mp hp
    by_cases hmem : n ∈ written
    · exact .inr (h.slots n hmem _ _ (hzip n p hn).1 (hzip n p hn).2).2
    · exact .inl (hsame n hmem p hn)
  obtain ⟨th', hgate⟩ := gate_returns h.length hkeys hpasses
  exact ⟨th', validateWrites_returns.mpr ⟨h.length, hgate⟩⟩

/-- The program wrote a slot of its own. -/
theorem Settled.store (h : Settled programId accounts written spent mid th) (hi : i ∉ written)
    (ha : accounts[i]? = some a) (howner : a.owner = programId) (honce : ListedOnce accounts i)
    (hdata : a.data ≠ []) :
    Settled programId accounts (i :: written) spent (mid.set i { a with data := d }) th where
  length := by rw [List.length_set, h.length]
  off := by
    intro n hn
    rw [List.mem_cons, not_or] at hn
    rw [List.getElem?_set_ne (Ne.symm hn.1), h.off n hn.2]
  once := List.forall_mem_cons.mpr ⟨honce, h.once⟩
  slots := by
    intro n hn x o hx ho
    rcases List.mem_cons.mp hn with rfl | hn
    · obtain rfl := Option.some.inj (ha.symm.trans hx)
      rw [List.getElem?_set_self (h.length ▸ (List.getElem?_eq_some_iff.mp ha).1)] at ho
      obtain rfl := Option.some.inj ho
      exact ⟨rfl, hdata, .inl howner⟩
    · have hni : n ≠ i := fun heq => hi (heq ▸ hn)
      rw [List.getElem?_set_ne (Ne.symm hni)] at ho
      exact h.slots n hn x o hx ho
  spent := h.spent
  depth := h.depth

/-- A call rewrote two slots and approved what it left in them. -/
theorem Settled.call {units : UInt64} (h : Settled programId accounts written spent mid th)
    (hij : i ≠ j) (hi : i ∉ written) (hj : j ∉ written) (ha : accounts[i]? = some a)
    (hb : accounts[j]? = some b) (honce : ListedOnce accounts i) (honce' : ListedOnce accounts j)
    (hdata : a.data ≠ [] ∧ b.data ≠ []) (hadvanced : Advanced th th' [a.key, b.key] units)
    (hfirst : Vouched th' a { a with data := d }) (hsecond : Vouched th' b { b with data := e }) :
    Settled programId accounts (j :: i :: written) (saturatingAdd spent units)
      ((mid.set i { a with data := d }).set j { b with data := e }) th' where
  length := by rw [List.length_set, List.length_set, h.length]
  off := by
    intro n hn
    rw [List.mem_cons, List.mem_cons, not_or, not_or] at hn
    rw [List.getElem?_set_ne (Ne.symm hn.1), List.getElem?_set_ne (Ne.symm hn.2.1),
      h.off n hn.2.2]
  once := List.forall_mem_cons.mpr ⟨honce', List.forall_mem_cons.mpr ⟨honce, h.once⟩⟩
  slots := by
    intro n hn x o hx ho
    have hlt : ∀ {m : Nat} {c : AccountInfo}, accounts[m]? = some c → m < mid.length := fun hc =>
      h.length ▸ (List.getElem?_eq_some_iff.mp hc).1
    rcases List.mem_cons.mp hn with rfl | hn
    · obtain rfl := Option.some.inj (hb.symm.trans hx)
      rw [List.getElem?_set_self (by rw [List.length_set]; exact hlt hb)] at ho
      obtain rfl := Option.some.inj ho
      exact ⟨rfl, hdata.2, .inr hsecond⟩
    rcases List.mem_cons.mp hn with rfl | hn
    · obtain rfl := Option.some.inj (ha.symm.trans hx)
      rw [List.getElem?_set_ne (Ne.symm hij), List.getElem?_set_self (hlt ha)] at ho
      obtain rfl := Option.some.inj ho
      exact ⟨rfl, hdata.1, .inr hfirst⟩
    · -- Written before: the call approved nothing under its key.
      have hni : n ≠ i := fun heq => hi (heq ▸ hn)
      have hnj : n ≠ j := fun heq => hj (heq ▸ hn)
      rw [List.getElem?_set_ne (Ne.symm hnj), List.getElem?_set_ne (Ne.symm hni)] at ho
      obtain ⟨hkey, hfull, hallowed⟩ := h.slots n hn x o hx ho
      refine ⟨hkey, hfull, hallowed.imp_right fun hvouched => hvouched.mono ?_⟩
      refine hadvanced.lookup _ ?_
      rw [hkey, List.mem_pair, not_or]
      exact ⟨(h.once n hn).ne hx ha (Ne.symm hni), (h.once n hn).ne hx hb (Ne.symm hnj)⟩
  spent := by rw [hadvanced.spent, h.spent]
  depth := by
    rw [hadvanced.depth]
    exact h.depth

variable {π : Profile} {k : Nat} {user : AccountInfo} {n : UInt64}

/-- The slots of a call can be read where they were given. -/
theorem Settled.slot (h : Settled programId accounts written spent mid th) (hi : i ∉ written)
    (ha : accounts[i]? = some a) : mid[i]? = some a := by
  rw [h.off i hi, ha]

/-- A transfer out of what was given goes through. -/
theorem pay_returns (h : Settled programId accounts written spent mid th) (hij : i ≠ j)
    (hik : i ≠ k) (hjk : j ≠ k) (hi : i ∉ written) (hj : j ∉ written) (hk : k ∉ written)
    (hpay : CanPay accounts i j n.toNat) (huser : accounts[k]? = some user)
    (hsigned : user.isSigner = true) (hunits : saturatingAdd spent 1300 ≤ computeBudget) :
    ∃ mid' th', Comp.Returns (Token.invoke π mid [i, j, k] [] (.transfer n)) th mid' th' ∧
      Settled programId accounts (j :: i :: written) (saturatingAdd spent 1300) mid' th' := by
  obtain ⟨source, -, dest, -, ⟨a, ha, howner, hw, hsource, honce⟩,
    ⟨b, hb, howner', hw', hdest, honce'⟩, hmint, hfree, hfunds, hroom⟩ := hpay
  obtain ⟨d, hd⟩ := encodes_token { source with amount := source.amount - n }
  obtain ⟨e, he⟩ := encodes_token { dest with amount := dest.amount + n }
  obtain ⟨th', hcall, hadvanced, hfirst, hsecond⟩ := token_returns hij hik hjk (h.slot hi ha)
    (h.slot hj hb) (h.slot hk huser) ⟨howner, howner'⟩ (honce.ne ha hb (Ne.symm hij))
    (honce.ne ha huser (Ne.symm hik)) (honce'.ne hb huser (Ne.symm hjk)) ⟨_, rfl⟩
    (transfer_runs (π := π) hsigned ⟨hw, hw'⟩ hsource hdest hmint hfree hfunds hroom hd he)
    h.depth (by rw [h.spent]; exact hunits)
  exact ⟨_, th', hcall, h.call hij hi hj ha hb honce honce'
    ⟨data_ne_nil token_nil hsource, data_ne_nil token_nil hdest⟩ hadvanced hfirst hsecond⟩

/-- And so does an issue. -/
theorem issue_returns (h : Settled programId accounts written spent mid th) (hij : i ≠ j)
    (hik : i ≠ k) (hjk : j ≠ k) (hi : i ∉ written) (hj : j ∉ written) (hk : k ∉ written)
    (hissue : CanIssue accounts i j n.toNat) (huser : accounts[k]? = some user)
    (hsigned : user.isSigner = true) (hunits : saturatingAdd spent 1300 ≤ computeBudget) :
    ∃ mid' th', Comp.Returns (Token.invoke π mid [i, j, k] [] (.mintTo n)) th mid' th' ∧
      Settled programId accounts (j :: i :: written) (saturatingAdd spent 1300) mid' th' := by
  obtain ⟨mint, -, dest, -, ⟨a, ha, howner, hw, hmint, honce⟩,
    ⟨b, hb, howner', hw', hdest, honce'⟩, hkey, hfree, hsupply, hroom⟩ := hissue
  obtain ⟨d, hd⟩ := encodes_mint { mint with supply := mint.supply + n }
  obtain ⟨e, he⟩ := encodes_token { dest with amount := dest.amount + n }
  have hkey' : dest.mint = a.key := by
    rw [keyAt_slot ha] at hkey
    exact (Option.some.inj hkey).symm
  obtain ⟨th', hcall, hadvanced, hfirst, hsecond⟩ := token_returns hij hik hjk (h.slot hi ha)
    (h.slot hj hb) (h.slot hk huser) ⟨howner, howner'⟩ (honce.ne ha hb (Ne.symm hij))
    (honce.ne ha huser (Ne.symm hik)) (honce'.ne hb huser (Ne.symm hjk)) ⟨_, rfl⟩
    (mintTo_runs (π := π) hsigned ⟨hw, hw'⟩ hmint hdest hkey' hfree hsupply hroom hd he)
    h.depth (by rw [h.spent]; exact hunits)
  exact ⟨_, th', hcall, h.call hij hi hj ha hb honce honce'
    ⟨data_ne_nil mint_nil hmint, data_ne_nil token_nil hdest⟩ hadvanced hfirst hsecond⟩

end

/-! ## A whole deposit -/

section
variable {π : Profile} {hasher : Lending.Hasher} {timestamp : UInt64}
  {accounts out : List AccountInfo} {data : List UInt8} {pool : PoolState} {x y : Nat}
  {maxA maxB least : UInt64} {th th' : Thread}

theorem syncReservesAb_ok (pool : PoolState) {tokenA tokenB : TokenAccountState}
    (hA : recordAt TokenAccountState accounts 3 = some tokenA)
    (hB : recordAt TokenAccountState accounts 4 = some tokenB) : ∃ pool',
      syncReservesAb accounts pool = .ok pool' := by
  obtain ⟨rA, -, hrA⟩ := reserveBalance_ok (x := tokenA.amount.toNat)
    (show HoldsTokens accounts 3 _ by rw [HoldsTokens, hA]; rfl)
  obtain ⟨rB, -, hrB⟩ := reserveBalance_ok (x := tokenB.amount.toNat)
    (show HoldsTokens accounts 4 _ by rw [HoldsTokens, hB]; rfl)
  exact ⟨{ pool with reserveA := rA, reserveB := rB },
    bind_eq_ok.mpr ⟨rA, hrA, bind_eq_ok.mpr ⟨rB, hrB, rfl⟩⟩⟩

/-- A deposit whose products fit runs to its end. -/
theorem deposit_runs
    (hready : DepositReady accounts pool x y (lpFor pool x y maxA.toNat maxB.toNat) least)
    (hspent : th.spent = 0) (hdepth : th.depth < maxCpiDepth)
    (hfit : ProductsFit pool maxA.toNat maxB.toNat) : ∃ mid th' written spent,
      Comp.Returns (Swap.run π accounts (.deposit maxA maxB least)) th mid th' ∧
        Settled ProgramIds.swapProgram accounts written spent mid th' := by
  obtain ⟨depositA, depositB, lp, hamounts, hlp, hA, hB⟩ := depositAmounts_ok (π := π) hready hfit
  obtain ⟨user, huser, hsigned⟩ := hready.signer
  obtain ⟨a, ha, howner, hw, hpool, honce⟩ := hready.held
  have hlength : 8 ≤ accounts.length := by
    obtain ⟨_, -, _, -, ⟨_, hseven, -⟩, -⟩ := hready.issue
    exact (List.getElem?_eq_some_iff.mp hseven).1
  have hstart : Settled ProgramIds.swapProgram accounts [] 0 accounts th := .start hspent hdepth
  -- The three calls, one after the other.
  obtain ⟨paidA, th₁, hpayA, h₁⟩ := pay_returns (π := π) (n := depositA)
    hstart
    (by decide) (by decide) (by decide) (by decide) (by decide) (by decide) (hA ▸ hready.first)
    huser hsigned (by decide)
  obtain ⟨paidB, th₂, hpayB, h₂⟩ := pay_returns (π := π) (n := depositB) h₁
    (by decide) (by decide) (by decide) (by decide) (by decide) (by decide) (hB ▸ hready.second)
    huser hsigned (by decide)
  obtain ⟨minted, th₃, hmint, h₃⟩ := issue_returns (π := π) (n := lp) h₂
    (by decide) (by decide) (by decide) (by decide) (by decide) (by decide) (hlp ▸ hready.issue)
    huser hsigned (by decide)
  obtain ⟨_, _, _, _, _, _, hpaidA, -⟩ := transfer_call (by decide) (by decide) (by decide) hpayA
  obtain ⟨_, _, _, _, _, _, hpaidB, -⟩ := transfer_call (by decide) (by decide) (by decide) hpayB
  obtain ⟨_, _, _, _, _, _, hminted, -⟩ := mintTo_call (by decide) (by decide) (by decide) hmint
  obtain ⟨pool', hsync⟩ := syncReservesAb_ok { pool with lpSupply := pool.lpSupply + lp }
    ((hminted.recordAt_other (by decide) (by decide)).trans
      ((hpaidB.recordAt_other (by decide) (by decide)).trans
        (hpaidA.recordAt_after (by decide)).2))
    ((hminted.recordAt_other (by decide) (by decide)).trans (hpaidB.recordAt_after (by decide)).2)
  obtain ⟨d, hd⟩ := encodes_pool pool'
  have hslot : minted[0]? = some a := h₃.slot (by decide) ha
  refine ⟨minted.set 0 { a with data := d }, th₃, _, _, ?_,
    h₃.store (by decide) ha howner honce (data_ne_nil rfl hpool)⟩
  refine lift_returns (v := ()) (require_eq_ok.mpr (decide_eq_true hlength)) ?_
  refine lift_returns (orPanic_eq_ok.mpr huser) ?_
  refine lift_returns (v := ()) (require_eq_ok.mpr hsigned) ?_
  refine lift_returns (load_ok ha hpool) (lift_returns hamounts ?_)
  refine lift_returns (v := ()) (require_eq_ok.mpr (decide_eq_true ?_)) ?_
  · rw [UInt64.le_iff_toNat_le, hlp]
    exact hready.least
  refine Comp.returns_bind.mpr ⟨paidA, th₁, hpayA, ?_⟩
  refine Comp.returns_bind.mpr ⟨paidB, th₂, hpayB, ?_⟩
  refine Comp.returns_bind.mpr ⟨minted, th₃, hmint, ?_⟩
  refine lift_returns (okOr_eq_ok.mpr (checkedAdd_ok (hlp ▸ hready.supply))) ?_
  exact lift_returns hsync (Comp.returns_ofExcept.mpr ⟨store_ok hslot hw hd, rfl⟩)

/-- **Exact deposits.** Where the accounts are in order and every amount of a deposit fits in a
    `u64`, the deposit succeeds with these amounts exactly if what it may take, times the LP supply,
    fits as well. -/
theorem deposit_exact_iff
    (hdata : tryFromSlice data = some (SwapInstruction.deposit maxA maxB least))
    (hready : DepositReady accounts pool x y (lpFor pool x y maxA.toNat maxB.toNat) least)
    (hdepth : th.depth < maxCpiDepth) :
    (∃ out th', Comp.Returns (dispatch π hasher ProgramIds.swapProgram accounts data timestamp) th
        out th' ∧
      LiquidityAdded accounts out pool (shareOf pool x (lpFor pool x y maxA.toNat maxB.toNat))
        (shareOf pool y (lpFor pool x y maxA.toNat maxB.toNat))
        (lpFor pool x y maxA.toNat maxB.toNat)) ↔
      ProductsFit pool maxA.toNat maxB.toNat := by
  obtain ⟨a, ha, -, -, hheld, -⟩ := hready.held
  have hpool : recordAt PoolState accounts 0 = some pool := recordAt_eq_some.mpr ⟨a, ha, hheld⟩
  constructor
  · intro hexact
    obtain ⟨out, th', hrun, -⟩ := hexact
    obtain ⟨mid, _, _, hmid, -⟩ := swap_returns hdata hrun
    exact (deposit_shares hpool hready.live hready.reserves.1 hready.reserves.2 hmid).1
  · intro hfit
    obtain ⟨mid, th₁, written, spent, hrun, hsettled⟩ := deposit_runs (π := π) hready
      (show (beginExecution th).spent = 0 from rfl) hdepth hfit
    obtain ⟨th', hgate⟩ := hsettled.returns
    have hdispatch : Comp.Returns (dispatch π hasher ProgramIds.swapProgram accounts data timestamp)
        th mid th' := by
      unfold dispatch runBuiltin
      rw [if_neg (by decide), if_neg (by decide), if_neg (by decide), if_pos rfl]
      refine Comp.returns_bind.mpr ⟨⟨⟩, beginExecution th, Comp.returns_modify.mpr rfl, ?_⟩
      refine Comp.returns_bind.mpr ⟨mid, th₁, ?_, hgate⟩
      exact lift_returns (okOr_eq_ok.mpr hdata) hrun
    obtain ⟨-, lp, rfl, hdone⟩ :=
      deposit_shares hpool hready.live hready.reserves.1 hready.reserves.2 hrun
    exact ⟨mid, th', hdispatch, hdone⟩

end

/-- A deposit of a tenth of both reserves. -/
theorem deposit_exact_tenth : ∃ out, depositedIn (poolAccounts 2000 4000 3000) 200 400 = .ok out ∧
    ∃ pool, recordAt PoolState (poolAccounts 2000 4000 3000) 0 = some pool ∧
      LiquidityAdded (poolAccounts 2000 4000 3000) out pool 200 400 300 := by
  have hready : DepositReady (poolAccounts 2000 4000 3000) { poolOf with
      lpMint := .repeated 7, reserveA := 2000, reserveB := 4000, lpSupply := 3000 } 2000 4000
      300 0 := by decide +kernel
  have hdata : tryFromSlice (depositUpTo 200 400) = some (SwapInstruction.deposit 200 400 0) := by
    decide
  have hfit : ProductsFit { poolOf with
      lpMint := .repeated 7, reserveA := 2000, reserveB := 4000, lpSupply := 3000 } 200 400 :=
    ⟨by decide, by decide⟩
  obtain ⟨out, th', hrun, hdone⟩ : ∃ out th', Comp.Returns (dispatch .dev .sorted
      ProgramIds.swapProgram (poolAccounts 2000 4000 3000) (depositUpTo 200 400) 0) {} out th' ∧
      LiquidityAdded (poolAccounts 2000 4000 3000) out _ 200 400 300 :=
    (deposit_exact_iff hdata hready (by decide)).mpr hfit
  obtain ⟨a, ha, -, -, hheld, -⟩ := hready.held
  exact ⟨out, congrArg Prod.fst hrun, _, recordAt_eq_some.mpr ⟨a, ha, hheld⟩, hdone⟩

/-- **A small deposit into a large pool.** 10000 of each token into a pool with `2 * 10 ^ 15` of
    each and as many LP tokens are worth 10000 LP tokens, but the product on the way to that is
    `2 * 10 ^ 19`. -/
theorem deposit_overflows : ¬ ∀ (π : Profile) (hasher : Lending.Hasher)
    (accounts : List AccountInfo) (data : List UInt8) (timestamp : UInt64) (pool : PoolState)
    (x y : Nat) (maxA maxB least : UInt64) (th : Thread),
    tryFromSlice data = some (SwapInstruction.deposit maxA maxB least) →
    DepositReady accounts pool x y (lpFor pool x y maxA.toNat maxB.toNat) least →
    th.depth < maxCpiDepth →
    ∃ out th', Comp.Returns (dispatch π hasher ProgramIds.swapProgram accounts data timestamp) th
        out th' ∧
      LiquidityAdded accounts out pool (shareOf pool x (lpFor pool x y maxA.toNat maxB.toNat))
        (shareOf pool y (lpFor pool x y maxA.toNat maxB.toNat))
        (lpFor pool x y maxA.toNat maxB.toNat) := by
  intro hclaim
  let accounts := poolAccounts 2000000000000000 2000000000000000 2000000000000000
  have hfails : depositedIn accounts 10000 10000 = .error (.err .overflow) := by decide +kernel
  obtain ⟨out, th', hrun, -⟩ := hclaim .dev .sorted accounts (depositUpTo 10000 10000) 0
    { poolOf with
      lpMint := .repeated 7
      reserveA := 2000000000000000
      reserveB := 2000000000000000
      lpSupply := 2000000000000000 } 2000000000000000 2000000000000000 10000 10000 0 {}
    (by decide +kernel) (by decide +kernel) (by decide)
  have hruns : depositedIn accounts 10000 10000 = .ok out := congrArg Prod.fst hrun
  rw [hfails] at hruns
  cases hruns

end Proof
end Himsha
