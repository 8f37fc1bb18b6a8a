import Himsha.Programs.Builders
import Himsha.Proof.VaultCache

/-!
# The lender positions of a vault

A vault may lend to many markets, and has a position in each, but it keeps one number for the shares
it holds. `Deploy`, `Undeploy` and a withdrawal that redeems from the market set the number to what
the position that they are passed holds, so what other positions hold is lost. `TracksShares` is
what the number is meant to be, and `move_tracks_iff` says which moves leave it so: those on a
position that has all the shares of the vault.
-/

set_option autoImplicit false

namespace Himsha
namespace Proof

open Himsha.Lib Himsha.Runtime Himsha.Programs Himsha.Vm Himsha.Node Token Vault
open MoneyMarket (MarketState LenderPosition)

/-! ## What an instruction does to lender positions -/

/-- A record that no slot of the vault program is for, but the vault and the lender position. -/
structure Bystander (γ : Type) [Borsh γ] [Canonical γ] [Sized γ] : Prop where
  token : Apart γ TokenAccountState
  mint : Apart γ MintState
  market : Apart γ MarketState

theorem lender_bystander : Bystander LenderPosition := ⟨by decide, by decide, by decide⟩

theorem vault_bystander : Bystander VaultState := ⟨by decide, by decide, by decide⟩

theorem lender_apart_vault : Apart LenderPosition VaultState := by decide

theorem vault_apart_lender : Apart VaultState LenderPosition := by decide

section
variable {γ : Type} [Borsh γ] [Canonical γ] [Sized γ] {π : Profile}
  {accounts out : List AccountInfo} {i j k : Nat} {signers : List Nat} {amount : UInt64}
  {th th' : Thread}

namespace Bystander

theorem transfer (hγ : Bystander γ) (hnodup : [i, j, k].Nodup)
    (h : Comp.Returns (Token.invoke π accounts [i, j, k] signers (.transfer amount)) th out th')
    (n : Nat) : recordAt γ out n = recordAt γ accounts n := by
  simp only [List.nodup_cons, List.mem_cons, List.not_mem_nil, not_or, or_false] at hnodup
  obtain ⟨_, _, _, _, _, _, hmoved, -⟩ := transfer_call hnodup.1.1 hnodup.1.2 hnodup.2.1 h
  exact hmoved.recordAt_apart hnodup.1.1 hγ.token hγ.token n

theorem mintTo (hγ : Bystander γ) (hnodup : [i, j, k].Nodup)
    (h : Comp.Returns (Token.invoke π accounts [i, j, k] signers (.mintTo amount)) th out th')
    (n : Nat) : recordAt γ out n = recordAt γ accounts n := by
  simp only [List.nodup_cons, List.mem_cons, List.not_mem_nil, not_or, or_false] at hnodup
  obtain ⟨_, _, _, _, _, _, hminted, -⟩ := mintTo_call hnodup.1.1 hnodup.1.2 hnodup.2.1 h
  exact hminted.recordAt_apart hnodup.1.1 hγ.mint hγ.token n

theorem burn (hγ : Bystander γ) (hnodup : [i, j, k].Nodup)
    (h : Comp.Returns (Token.invoke π accounts [i, j, k] signers (.burn amount)) th out th')
    (n : Nat) : recordAt γ out n = recordAt γ accounts n := by
  simp only [List.nodup_cons, List.mem_cons, List.not_mem_nil, not_or, or_false] at hnodup
  obtain ⟨_, _, _, _, _, _, hburned, -⟩ := burn_call hnodup.1.1 hnodup.1.2 hnodup.2.1 h
  exact hburned.recordAt_apart hnodup.1.1 hγ.token hγ.mint n

end Bystander

end

/-- A withdrawal redeems from the market what the idle balance does not cover. -/
def undeploys (π : Profile) (accounts : List AccountInfo) (shares : UInt64) : Outcome Bool := do
  let vault : VaultState ← load accounts 0
  let nav ← liveNav π vault accounts
  let assets ← orPanic (mulDiv π shares.toNat nav.toNat vault.totalShares.toNat)
  let idle ← balance accounts 2
  return decide (idle < assets ∧ 9 ≤ accounts.length)

/-- The slot of the lender position that an instruction moves shares of. -/
def lenderSlot (π : Profile) (accounts : List AccountInfo) : VaultInstruction → Option Nat
  | .deploy _ | .undeploy _ => some 3
  | .withdraw shares _ => if undeploys π accounts shares = .ok true then some 7 else none
  | _ => none

/-- What an instruction did to the vault in slot 0 and to the lender position in slot `p`, where it
    moved shares: it recorded in the vault what the position holds now, and the position is the
    vault's. -/
structure Lends (accounts out : List AccountInfo) (p : Option Nat) : Prop where
  vault : ∃ v v', recordAt VaultState accounts 0 = some v ∧ recordAt VaultState out 0 = some v' ∧
    (p = none → v'.lenderShares = v.lenderShares) ∧
    ∀ n ∈ p, ∃ q, recordAt LenderPosition out n = some q ∧ v'.lenderShares = q.shares ∧
      (keyAt accounts 0 = some q.owner ∧ q.isInitialized = true) ∧
      ∀ q₀, recordAt LenderPosition accounts n = some q₀ → q₀.isInitialized = true →
        q₀.owner = q.owner
  other : ∀ (γ : Type) [Borsh γ] [Canonical γ] [Sized γ], Bystander γ → ∀ n, n ≠ 0 → n ∉ p →
    recordAt γ out n = recordAt γ accounts n

/-- What reads the same did the same. -/
theorem Lends.read {accounts mid out : List AccountInfo} {p : Option Nat}
    (h : Lends accounts mid p)
    (hread : ∀ (α : Type) [Borsh α] (i : Nat), recordAt α out i = recordAt α mid i) :
    Lends accounts out p := by
  obtain ⟨v, v', hv, hv', hsame, hmoved⟩ := h.vault
  refine ⟨⟨v, v', hv, (hread _ 0).trans hv', hsame, fun n hn => ?_⟩, ?_⟩
  · obtain ⟨q, hq, hrest⟩ := hmoved n hn
    exact ⟨q, (hread _ n).trans hq, hrest⟩
  · intro γ _ _ _ hγ n hn hp
    rw [hread, h.other γ hγ n hn hp]

section
variable {π : Profile} {accounts mid out : List AccountInfo} {timestamp amount : UInt64}
  {th th' : Thread}

theorem deposit_lends {least : UInt64}
    (h : Comp.Returns (Vault.deposit π accounts amount least) th out th') :
    Lends accounts out none := by
  obtain ⟨vault, nav, shares, delta, paid, minted, totalAssets, totalShares, _, hload, -, -, -,
    hpay, hmint, -, -, hstore⟩ := deposit_steps h
  refine ⟨⟨vault, _, recordAt_of_load hload, recordAt_stored hstore, fun _ => rfl, by simp⟩, ?_⟩
  intro γ _ _ _ hγ n hn _
  rw [recordAt_unstored hstore hn, hγ.mintTo (by decide) hmint, hγ.transfer (by decide) hpay]

theorem report_lends (h : Comp.Returns (Vault.report π accounts) th out th') :
    Lends accounts out none := by
  obtain ⟨vault, nav, fee, hdone⟩ := report_call h
  obtain ⟨totalShares, hstored, -⟩ := hdone.stored
  refine ⟨⟨vault, _, hdone.held, hstored, fun _ => rfl, by simp⟩, ?_⟩
  intro γ _ _ _ hγ n hn _
  by_cases hfee : 0 < fee
  · obtain ⟨hissued, hcredited⟩ := hdone.issued hfee
    by_cases hmint : n = 3
    · subst hmint
      exact hissued.apart hγ.mint
    · by_cases hgets : n = 4
      · subst hgets
        exact hcredited.apart hγ.token
      · exact recordAt_congr (report_other h (by simp [hn, hmint, hgets]))
  · exact recordAt_congr (hdone.kept hfee n hn)

theorem move_lends (move : LenderMove)
    (h : Comp.Returns (moveLiquidity π accounts timestamp amount (move.instruction amount)) th out
      th') : Lends accounts out (some 3) := by
  obtain ⟨vault, moved, lenderShares, hheld, -, -, hcall, hread, hstore⟩ := moveLiquidity_call h
  obtain ⟨m, m', q, q', hlender⟩ := mmLiquidity_call (by decide) hcall
  obtain rfl := readLenderShares_recorded hlender.stored.2 hread
  refine ⟨⟨vault, _, hheld, recordAt_stored hstore, by simp, fun n hn => ?_⟩, ?_⟩
  · obtain rfl := Option.some.inj (Option.mem_def.mp hn)
    refine ⟨q', (recordAt_unstored hstore (by decide)).trans hlender.stored.2, rfl, ?_, ?_⟩
    · rw [hlender.owner.1]
      exact ⟨hlender.lender.2.1, hlender.owner.2⟩
    · intro q₀ hq₀ hinit
      rw [hlender.known q₀ hq₀ hinit, hlender.owner.1]
  · intro γ _ _ _ hγ n hn hp
    rw [recordAt_unstored hstore hn]
    exact hlender.other γ hγ.token hγ.market n fun heq => hp (by rw [heq]; rfl)

theorem withdraw_lends {shares least : UInt64}
    (h : Comp.Returns (Vault.withdraw π accounts timestamp shares least) th out th') :
    Lends accounts out (lenderSlot π accounts (.withdraw shares least)) := by
  obtain ⟨vault, nav, assets, r, burned, paid, totalAssets, totalShares, _, _, hload, -, hnav,
    hassets, hundeploy, hburn, hpay, -, -, hstore⟩ := withdraw_steps h
  obtain ⟨idle, hidle, hcases⟩ := autoUndeploy_lender hundeploy
  have hwhen : undeploys π accounts shares =
      .ok (decide (idle < assets ∧ 9 ≤ accounts.length)) :=
    bind_eq_ok.mpr ⟨vault, hload, bind_eq_ok.mpr ⟨nav, hnav,
      bind_eq_ok.mpr ⟨assets, orPanic_eq_ok.mpr hassets, bind_eq_ok.mpr ⟨idle, hidle, rfl⟩⟩⟩⟩
  -- What comes after the market leaves other records alone.
  have hafter : ∀ (γ : Type) [Borsh γ] [Canonical γ] [Sized γ], Bystander γ → ∀ n, n ≠ 0 →
      recordAt γ out n = recordAt γ r.2 n := by
    intro γ _ _ _ hγ n hn
    rw [recordAt_unstored hstore hn, hγ.transfer (by decide) hpay, hγ.burn (by decide) hburn]
  change Lends accounts out (if undeploys π accounts shares = .ok true then some 7 else none)
  rw [hwhen]
  split at hcases
  · rename_i hshort
    obtain ⟨m, m', q, q', hlender, hvault⟩ := hcases
    rw [decide_eq_true hshort, if_pos rfl]
    refine ⟨⟨vault, _, recordAt_of_load hload, recordAt_stored hstore, by simp,
      fun n hn => ?_⟩, ?_⟩
    · obtain rfl := Option.some.inj (Option.mem_def.mp hn)
      refine ⟨q', (hafter _ lender_bystander 7 (by decide)).trans hlender.stored.2, ?_, ?_, ?_⟩
      · rw [hvault]
      · rw [hlender.owner.1]
        exact ⟨hlender.lender.2.1, hlender.owner.2⟩
      · intro q₀ hq₀ hinit
        rw [hlender.known q₀ hq₀ hinit, hlender.owner.1]
    · intro γ _ _ _ hγ n hn hp
      rw [hafter γ hγ n hn]
      exact hlender.other γ hγ.token hγ.market n fun heq => hp (by rw [heq]; rfl)
  · rename_i hcovered
    subst hcases
    rw [decide_eq_false hcovered, if_neg (by simp)]
    exact ⟨⟨vault, _, recordAt_of_load hload, recordAt_stored hstore, fun _ => rfl, by simp⟩,
      fun γ _ _ _ hγ n hn _ => hafter γ hγ n hn⟩

/-- **Only the slot of the vault and that of a lender position are written** by the instructions on
    a vault there is. -/
theorem vault_lends {ix : VaultInstruction} (hinit : ∀ fee, ix ≠ .initVault fee)
    (h : Comp.Returns (Vault.run π accounts timestamp ix) th out th') :
    Lends accounts out (lenderSlot π accounts ix) := by
  cases ix with
  | initVault fee => exact absurd rfl (hinit fee)
  | deposit amount least => exact deposit_lends h
  | withdraw shares least => exact withdraw_lends h
  | report => exact report_lends h
  | deploy amount => exact move_lends .add h
  | undeploy amount => exact move_lends .remove h

/-- A vault is created with the shares that were there, if there was a record at all. -/
theorem initVault_lends {fee : UInt64} (h : Vault.initVault accounts fee = .ok out) :
    (∃ v', recordAt VaultState out 0 = some v' ∧
      v'.lenderShares = ((recordAt VaultState accounts 0).getD {}).lenderShares) ∧
      ∀ (γ : Type) [Borsh γ] (n : Nat), n ≠ 0 → recordAt γ out n = recordAt γ accounts n := by
  obtain ⟨_, -, h₁⟩ := bind_eq_ok.mp h
  obtain ⟨_, -, h₂⟩ := bind_eq_ok.mp h₁
  obtain ⟨_, -, h₃⟩ := bind_eq_ok.mp h₂
  obtain ⟨_, -, h₄⟩ := bind_eq_ok.mp h₃
  obtain ⟨vault, hload, h₅⟩ := bind_eq_ok.mp h₄
  obtain ⟨_, -, h₆⟩ := bind_eq_ok.mp h₅
  obtain ⟨_, -, h₇⟩ := bind_eq_ok.mp h₆
  obtain ⟨_, -, h₈⟩ := bind_eq_ok.mp h₇
  obtain ⟨_, -, h₉⟩ := bind_eq_ok.mp h₈
  obtain ⟨_, -, hstore⟩ := bind_eq_ok.mp h₉
  obtain ⟨a, ha, rfl⟩ := loadOr_eq_ok hload
  refine ⟨⟨_, recordAt_stored hstore, ?_⟩, fun γ _ n hn => recordAt_unstored hstore hn⟩
  rw [recordAt_slot ha]

end

/-! ## What is recorded to a vault -/

/-- The shares of a position that is recorded to `k`. -/
def heldFor (k : Pubkey) (q : LenderPosition) : Nat :=
  if q.isInitialized = true ∧ q.owner = k then q.shares.toNat else 0

/-- The same of an account. As in the source, what decodes as a position is one. -/
def lentBy (k : Pubkey) (s : StoredAccount) : Nat :=
  ((tryFromSlice s.data : Option LenderPosition).map (heldFor k)).getD 0

/-- The shares that a vault counts. -/
def vaultShares (s : StoredAccount) : Option Nat :=
  (tryFromSlice s.data : Option VaultState).map (·.lenderShares.toNat)

/-- **The vault tracks its shares**: it counts what the positions that are recorded to it hold. -/
def TracksShares (k : Pubkey) (t : Accounts) : Prop :=
  ∀ n ∈ readAt none vaultShares t k, n = Table.total (lentBy k) t

instance (k : Pubkey) (t : Accounts) : Decidable (TracksShares k t) :=
  inferInstanceAs (Decidable (∀ n ∈ readAt none vaultShares t k, n = Table.total (lentBy k) t))

/-- What the position in slot `i` holds for `k`. -/
def heldAtSlot (k : Pubkey) (accounts : List AccountInfo) (i : Nat) : Nat :=
  ((recordAt LenderPosition accounts i).map (heldFor k)).getD 0

theorem data_reading {α : Type} [Borsh α] (hnil : tryFromSlice (α := α) [] = none) :
    Reading none fun s => (tryFromSlice s.data : Option α) where
  congr _ hdata := by rw [hdata]
  nil hdata := by rw [hdata, hnil]

theorem lentBy_reading (k : Pubkey) : Reading 0 (lentBy k) :=
  (data_reading (α := LenderPosition) rfl).map (g := fun o => (o.map (heldFor k)).getD 0)

theorem vaultShares_reading : Reading none vaultShares :=
  (data_reading (α := VaultState) rfl).map
    (g := Option.map fun v : VaultState => v.lenderShares.toNat)

section
variable {accounts out : List AccountInfo} {i : Nat} {a : AccountInfo} {k : Pubkey}

theorem lentBy_slot (ha : accounts[i]? = some a) :
    lentBy k a.toStored = heldAtSlot k accounts i := by
  unfold heldAtSlot
  rw [recordAt_slot ha]
  rfl

theorem vaultShares_slot (ha : accounts[i]? = some a) : vaultShares a.toStored =
    (recordAt VaultState accounts i).map (·.lenderShares.toNat) := by
  rw [recordAt_slot ha]
  rfl

/-- Slots that read the same hold the same. -/
theorem reads_lentBy (ws : List Nat) (hkeys : out.map (·.key) = accounts.map (·.key))
    (h : ∀ i, i ∉ ws → heldAtSlot k out i = heldAtSlot k accounts i) :
    ReadsAs (lentBy k) ws accounts out where
  keys := hkeys
  off := by
    intro i a o hi ha ho
    rw [lentBy_slot ha, lentBy_slot ho]
    exact h i hi

theorem reads_vaultShares (ws : List Nat) (hkeys : out.map (·.key) = accounts.map (·.key))
    (h : ∀ i, i ∉ ws → (recordAt VaultState out i).map (·.lenderShares.toNat) =
      (recordAt VaultState accounts i).map (·.lenderShares.toNat)) :
    ReadsAs vaultShares ws accounts out where
  keys := hkeys
  off := by
    intro i a o hi ha ho
    rw [vaultShares_slot ha, vaultShares_slot ho]
    exact h i hi

/-- The slot of a vault is no position. -/
theorem heldAtSlot_vault {v : VaultState} (hv : recordAt VaultState accounts i = some v) :
    heldAtSlot k accounts i = 0 := by
  unfold heldAtSlot
  rw [lender_apart_vault.recordAt_none hv]
  rfl

end

/-! ## One instruction -/

section
variable {t : Accounts} {instr : Instruction} {out : List AccountInfo} {k : Pubkey} {p : Option Nat}

/-- Off the position, the slots hold for `k` what they held. -/
theorem Lends.held {accounts : List AccountInfo} (h : Lends accounts out p) {i : Nat}
    (hi : i ∉ p) : heldAtSlot k out i = heldAtSlot k accounts i := by
  by_cases hfirst : i = 0
  · subst hfirst
    obtain ⟨v, v', hv, hv', -⟩ := h.vault
    rw [heldAtSlot_vault hv, heldAtSlot_vault hv']
  · unfold heldAtSlot
    rw [h.other LenderPosition lender_bystander i hfirst hi]

/-- An instruction that moves no shares. -/
theorem tracks_unmoved (hkeys : out.map (·.key) = (accountsOf t instr).map (·.key))
    (h : Lends (accountsOf t instr) out none) (hs : TracksShares k t) :
    TracksShares k (t.write (entries out)) := by
  have hlent : Table.total (lentBy k) (t.write (entries out)) = Table.total (lentBy k) t :=
    total_same fun key => (reads_lentBy [] hkeys fun i _ =>
      h.held (by simp)).other (lentBy_reading k) (by simp)
  have hvault : ∀ key, readAt none vaultShares (t.write (entries out)) key =
      readAt none vaultShares t key := by
    intro key
    refine (reads_vaultShares [] hkeys fun i _ => ?_).other vaultShares_reading (by simp)
    by_cases hfirst : i = 0
    · subst hfirst
      obtain ⟨v, v', hv, hv', hsame, -⟩ := h.vault
      rw [hv, hv', Option.map_some, Option.map_some, hsame rfl]
    · rw [h.other VaultState vault_bystander i hfirst (by simp)]
  intro n hn
  rw [hvault] at hn
  rw [hlent]
  exact hs n hn

/-- A move of another vault does not touch the positions of this one: it would be refused. -/
theorem tracks_elsewhere {i : Nat} (hkeys : out.map (·.key) = (accountsOf t instr).map (·.key))
    (h : Lends (accountsOf t instr) out (some i)) (hk : keyAt (accountsOf t instr) 0 ≠ some k)
    (hs : TracksShares k t) : TracksShares k (t.write (entries out)) := by
  obtain ⟨v, v', hv, hv', -, hmoved⟩ := h.vault
  obtain ⟨q, hq, -, ⟨howner, -⟩, hknown⟩ := hmoved i rfl
  have hforeign : q.owner ≠ k := fun heq => hk (heq ▸ howner)
  have hlent : Table.total (lentBy k) (t.write (entries out)) = Table.total (lentBy k) t := by
    refine total_same fun key => (reads_lentBy [] hkeys fun j _ => ?_).other
      (lentBy_reading k) (by simp)
    by_cases hj : j = i
    · subst hj
      have hafter : heldAtSlot k out j = 0 := by
        unfold heldAtSlot heldFor
        rw [hq, Option.map_some, Option.getD_some, if_neg fun hboth => hforeign hboth.2]
      rw [hafter]
      unfold heldAtSlot
      cases hq₀ : recordAt LenderPosition (accountsOf t instr) j with
      | none => rfl
      | some q₀ =>
        rw [Option.map_some, Option.getD_some, heldFor, if_neg]
        rintro ⟨hinit, heq⟩
        exact hforeign ((hknown q₀ hq₀ hinit).symm.trans heq)
    · exact h.held fun hmem => hj (Option.some.inj (Option.mem_def.mp hmem)).symm
  intro n hn
  rw [hlent]
  -- The key of the vault may be in no slot that was written but as a position.
  rcases (reads_vaultShares [0, i] hkeys fun j hj => by
      rw [h.other VaultState vault_bystander j (fun h0 => hj (by simp [h0]))
        fun hmem => hj (by simp [← Option.some.inj (Option.mem_def.mp hmem)])]).cases
    vaultShares_reading k with hsame | ⟨j, hj, o, ho, hkey, hnow⟩
  · rw [hsame] at hn
    exact hs n hn
  · simp only [List.mem_cons, List.not_mem_nil, or_false] at hj
    rcases hj with rfl | rfl
    · obtain ⟨a, ha, hak⟩ := slot_of_keys hkeys ho
      refine absurd ?_ hk
      rw [keyAt_slot ha, hak, hkey]
    · rw [hnow, vaultShares_slot ho, vault_apart_lender.recordAt_none hq] at hn
      cases hn

/-- **Which moves leave the vault right**: those on a position that has all its shares. -/
theorem move_tracks_iff {i : Nat} (hkeys : out.map (·.key) = (accountsOf t instr).map (·.key))
    (h : Lends (accountsOf t instr) out (some i)) (hk : keyAt (accountsOf t instr) 0 = some k)
    (honce : ListedOnce (accountsOf t instr) 0) (honce' : ListedOnce (accountsOf t instr) i) :
    TracksShares k (t.write (entries out)) ↔
      Table.total (lentBy k) t = heldAtSlot k (accountsOf t instr) i := by
  obtain ⟨v, v', hv, hv', -, hmoved⟩ := h.vault
  obtain ⟨q, hq, hshares, ⟨howner, hinit⟩, -⟩ := hmoved i rfl
  obtain rfl : k = q.owner := Option.some.inj (hk.symm.trans howner)
  -- What is counted now.
  obtain ⟨o, ho, -⟩ := recordAt_eq_some.mp hv'
  have hkey : o.key = q.owner := by
    obtain ⟨a, ha, hak⟩ := slot_of_keys hkeys ho
    rw [keyAt_slot ha, Option.some.injEq] at hk
    exact hak.symm.trans hk
  have hvault : readAt none vaultShares (t.write (entries out)) q.owner = some q.shares.toNat := by
    rw [← hkey, readAt_written hkeys honce ho, vaultShares_slot ho, hv', Option.map_some, hshares]
  -- What is held now.
  obtain ⟨o', ho', -⟩ := recordAt_eq_some.mp hq
  obtain ⟨b, hb, hbk⟩ := slot_of_keys hkeys ho'
  have hafter : readAt 0 (lentBy q.owner) (t.write (entries out)) o'.key = q.shares.toNat := by
    rw [readAt_written hkeys honce' ho', lentBy_slot ho']
    unfold heldAtSlot heldFor
    rw [hq, Option.map_some, Option.getD_some, if_pos ⟨hinit, rfl⟩]
  have hbefore : readAt 0 (lentBy q.owner) t o'.key =
      heldAtSlot q.owner (accountsOf t instr) i := by
    rw [← lentBy_slot hb, (lentBy_reading q.owner).slot hb, hbk]
  have hreads : ReadsAs (lentBy q.owner) [i] (accountsOf t instr) out :=
    reads_lentBy [i] hkeys fun j hj =>
      h.held fun hmem => hj (by simp [← Option.some.inj (Option.mem_def.mp hmem)])
  have hchange : Table.total (lentBy q.owner) (t.write (entries out)) +
        ([o'.key].map (Table.weight (lentBy q.owner) t)).sum =
      Table.total (lentBy q.owner) t +
        ([o'.key].map (Table.weight (lentBy q.owner) (t.write (entries out)))).sum := by
    refine Table.total_change (List.nodup_singleton _) fun key hne =>
      hreads.other (lentBy_reading q.owner) fun j hj a ha hak => hne ?_
    obtain rfl := List.mem_singleton.mp hj
    obtain rfl : b = a := Option.some.inj (hb.symm.trans ha)
    rw [List.mem_singleton, ← hbk, hak]
  simp only [List.map_cons, List.map_nil, List.sum_cons, List.sum_nil, Nat.add_zero] at hchange
  change _ + readAt 0 (lentBy q.owner) t o'.key =
    _ + readAt 0 (lentBy q.owner) (t.write (entries out)) o'.key at hchange
  rw [hbefore, hafter] at hchange
  unfold TracksShares
  rw [hvault]
  simp only [Option.mem_def, Option.some.injEq, forall_eq']
  omega

/-- A vault that is created holds no shares yet, and none are held for it. -/
theorem tracks_created {fee : UInt64} {mid : List AccountInfo}
    (hkeys : out.map (·.key) = (accountsOf t instr).map (·.key))
    (h : Vault.initVault (accountsOf t instr) fee = .ok mid)
    (hread : ∀ (α : Type) [Borsh α] (i : Nat), recordAt α out i = recordAt α mid i)
    (hnone : heldAtSlot k (accountsOf t instr) 0 = 0)
    (hfirst : keyAt (accountsOf t instr) 0 = some k →
      recordAt VaultState (accountsOf t instr) 0 = none → Table.total (lentBy k) t = 0)
    (hs : TracksShares k t) : TracksShares k (t.write (entries out)) := by
  obtain ⟨⟨v', hv', hshares⟩, hother⟩ := initVault_lends h
  have hout : recordAt VaultState out 0 = some v' := (hread _ 0).trans hv'
  have hlent : Table.total (lentBy k) (t.write (entries out)) = Table.total (lentBy k) t := by
    refine total_same fun key => (reads_lentBy [] hkeys fun i _ => ?_).other
      (lentBy_reading k) (by simp)
    by_cases hi : i = 0
    · subst hi
      rw [hnone, heldAtSlot_vault hout]
    · unfold heldAtSlot
      rw [hread, hother _ i hi]
  intro n hn
  rw [hlent]
  rcases (reads_vaultShares [0] hkeys fun i hi => by
      rw [hread, hother _ i (by simpa using hi)]).cases vaultShares_reading k with
    hsame | ⟨i, hi, o, ho, hkey, hnow⟩
  · rw [hsame] at hn
    exact hs n hn
  · obtain rfl := List.mem_singleton.mp hi
    obtain ⟨a, ha, hak⟩ := slot_of_keys hkeys ho
    rw [hnow, vaultShares_slot ho, hout, Option.map_some, Option.mem_def, Option.some.injEq] at hn
    subst hn
    have hslot : keyAt (accountsOf t instr) 0 = some k := by
      rw [keyAt_slot ha, hak, hkey]
    have hbefore := vaultShares_reading.slot ha
    rw [vaultShares_slot ha, hak, hkey] at hbefore
    cases hv : recordAt VaultState (accountsOf t instr) 0 with
    | none =>
      rw [hshares, hv, hfirst hslot hv]
      rfl
    | some v =>
      rw [hv, Option.map_some] at hbefore
      rw [hshares, hv]
      exact hs _ hbefore.symm

end

/-! ## Runs -/

/-- An instruction that creates a vault. -/
def creates : VaultInstruction → Bool
  | .initVault _ => true
  | _ => false

/-- The shares of the vault `k` are moved on the one position that has them all, and the vault and
    the position are each passed once. A vault is not created over a position, and not at a key that
    shares are recorded to. -/
def PositionCare (π : Profile) (k : Pubkey) (t : Accounts) (accounts : List AccountInfo)
    (ix : VaultInstruction) : Prop :=
  (keyAt accounts 0 = some k → ∀ i ∈ lenderSlot π accounts ix, ListedOnce accounts 0 ∧
    ListedOnce accounts i ∧ Table.total (lentBy k) t = heldAtSlot k accounts i) ∧
  (creates ix = true → heldAtSlot k accounts 0 = 0 ∧ (keyAt accounts 0 = some k →
    recordAt VaultState accounts 0 = none → Table.total (lentBy k) t = 0))

instance (π : Profile) (k : Pubkey) (t : Accounts) (accounts : List AccountInfo)
    (ix : VaultInstruction) : Decidable (PositionCare π k t accounts ix) :=
  inferInstanceAs (Decidable ((_ → _) ∧ (_ → _ ∧ (_ → _ → _))))

def PositionOk (π : Profile) (k : Pubkey) (_ : RuntimeTransaction) (t : Accounts)
    (instr : Instruction) : Prop :=
  ∀ ix ∈ (tryFromSlice instr.data : Option VaultInstruction),
    PositionCare π k t (accountsOf t instr) ix

instance (π : Profile) (k : Pubkey) (tx : RuntimeTransaction) (t : Accounts)
    (instr : Instruction) : Decidable (PositionOk π k tx t instr) :=
  inferInstanceAs (Decidable (∀ ix ∈ (tryFromSlice instr.data : Option VaultInstruction),
    PositionCare π k t (accountsOf t instr) ix))

/-- One instruction. -/
theorem tracks_step {ex : Executor} {k : Pubkey} {tx : RuntimeTransaction} {t t' : Accounts}
    {instr : Instruction} (hprog : instr.programId = ProgramIds.vaultProgram)
    (hok : PositionOk ex.machine.profile k tx t instr) (hs : TracksShares k t)
    (h : tableStep ex .commit tx t instr = some t') : TracksShares k t' := by
  obtain ⟨-, out, hout, rfl⟩ := tableStep_output h
  have hkeys := output_keys hout
  obtain ⟨th', hret⟩ := output_dispatch (by rw [hprog]; rfl) (by rw [hprog]; decide) hout
  rw [hprog] at hret
  obtain ⟨ix, mid, th₀, th₁, hix, hrun, hread⟩ := vault_runs hret
  obtain ⟨hmove, hcreate⟩ := hok ix hix
  by_cases hinit : ∃ fee, ix = .initVault fee
  · obtain ⟨fee, rfl⟩ := hinit
    obtain ⟨hnone, hfirst⟩ := hcreate rfl
    obtain ⟨hdone, -⟩ := Comp.returns_ofExcept.mp hrun
    exact tracks_created hkeys hdone hread hnone hfirst hs
  · have hlends := (vault_lends (fun fee heq => hinit ⟨fee, heq⟩) hrun).read hread
    cases hp : lenderSlot ex.machine.profile (accountsOf t instr) ix with
    | none =>
      rw [hp] at hlends
      exact tracks_unmoved hkeys hlends hs
    | some i =>
      rw [hp] at hlends
      by_cases hk : keyAt (accountsOf t instr) 0 = some k
      · obtain ⟨honce, honce', hall⟩ := hmove hk i hp
        exact (move_tracks_iff hkeys hlends hk honce honce').mpr hall
      · exact tracks_elsewhere hkeys hlends hk hs

/-- **A vault tracks its lender shares** through every run of instructions of the vault program, on
    whatever vaults, markets and positions, in which its own shares are moved on one position. -/
theorem shares_tracked (ex : Executor) (k : Pubkey) (w w' : World) (txs : List RuntimeTransaction)
    (hstart : TracksShares k w.state.accounts)
    (hmeets : Meets (programStep ProgramIds.vaultProgram ex)
      (CommitsMeet (PositionOk ex.machine.profile k) ex) w txs)
    (hrun : Lib.run (programStep ProgramIds.vaultProgram ex) w txs = some w') :
    TracksShares k w'.state.accounts :=
  programRun_invariant (I := TracksShares k) (fun _ _ _ _ hprog hok hs hstep =>
    tracks_step hprog hok hs hstep) hmeets hstart hrun

/-- The vault `0` with 1000 idle, and two markets for its asset, `6` and `16`, with their vaults. -/
def twoMarkets : World where
  state := { accounts := (∅ : Accounts).write (entries
    [recordAccount (.repeated 0) ProgramIds.vaultProgram idleVault,
      recordAccount (.repeated 2) ProgramIds.tokenProgram (assetTokens 1000),
      recordAccount (.repeated 6) ProgramIds.moneyMarketProgram (cashMarket 1500 1500),
      recordAccount (.repeated 7) ProgramIds.tokenProgram
        { assetTokens 1500 with owner := .repeated 6 },
      recordAccount (.repeated 16) ProgramIds.moneyMarketProgram (cashMarket 1500 1500),
      recordAccount (.repeated 17) ProgramIds.tokenProgram
        { assetTokens 1500 with owner := .repeated 16 }]) }

/-- 100 are lent to the first market. -/
def deployFirst : RuntimeTransaction :=
  signedBy [.repeated 9] [Builders.Vault.deploy (.repeated 0) (.repeated 2) (.repeated 6)
    (.repeated 10) (.repeated 7) (.repeated 9) 100]

/-- 40 of them are taken back. -/
def undeployFirst : RuntimeTransaction :=
  signedBy [.repeated 9] [Builders.Vault.undeploy (.repeated 0) (.repeated 2) (.repeated 6)
    (.repeated 10) (.repeated 7) (.repeated 9) 40]

/-- 100 are lent to the second market. -/
def deploySecond : RuntimeTransaction :=
  signedBy [.repeated 9] [Builders.Vault.deploy (.repeated 0) (.repeated 2) (.repeated 16)
    (.repeated 20) (.repeated 17) (.repeated 9) 100]

theorem shares_tracked_one : ∃ w', Lib.run (programStep ProgramIds.vaultProgram (.bare .dev))
    twoMarkets [deployFirst, undeployFirst] = some w' ∧
      readAt none vaultShares w'.state.accounts (.repeated 0) = some 60 ∧
      TracksShares (.repeated 0) w'.state.accounts := by
  have hcheck : (Lib.run (tableAfter (.bare .dev)) twoMarkets.state.accounts
      [deployFirst, undeployFirst]).any (fun t =>
        readAt none vaultShares t (.repeated 0) = some 60) = true := by decide +kernel
  obtain ⟨t, ht, hthen⟩ := (Option.any_eq_true _ _).mp hcheck
  obtain ⟨w', hrun, rfl, hmeets⟩ := programRun_tables ProgramIds.vaultProgram
    (PositionOk .dev (.repeated 0)) (w := twoMarkets) (by decide +kernel) rfl ht
    (by decide +kernel)
  exact ⟨w', hrun, of_decide_eq_true hthen,
    shares_tracked (.bare .dev) (.repeated 0) _ _ _ (by decide +kernel) hmeets hrun⟩

/-- **The first hundred are forgotten.** After a deposit in each of two markets the vault counts 100
    shares, and holds 200. -/
theorem second_market_untracked : ¬ ∀ (ex : Executor) (k : Pubkey) (w w' : World)
    (txs : List RuntimeTransaction), TracksShares k w.state.accounts →
    (∀ tx ∈ txs, ∀ instr ∈ tx.message.instructions, ∃ ix, tryFromSlice instr.data = some ix ∧
      ((∃ amount, ix = VaultInstruction.deploy amount) ∨ (∃ amount, ix = .undeploy amount) ∨
        ∃ shares least, ix = .withdraw shares least)) →
    Lib.run (programStep ProgramIds.vaultProgram ex) w txs = some w' →
    TracksShares k w'.state.accounts := by
  intro hclaim
  have hcheck : (Lib.run (tableAfter (.bare .dev)) twoMarkets.state.accounts
      [deployFirst, deploySecond]).any (fun t =>
        readAt none vaultShares t (.repeated 0) = some 100 ∧
          Table.total (lentBy (.repeated 0)) t = 200) = true := by decide +kernel
  obtain ⟨t, ht, hthen⟩ := (Option.any_eq_true _ _).mp hcheck
  obtain ⟨hcounted, hheld⟩ := of_decide_eq_true hthen
  obtain ⟨w', hrun, rfl, -⟩ := programRun_tables ProgramIds.vaultProgram
    (fun _ _ _ => True) (w := twoMarkets) (by decide +kernel) rfl ht
    ((Meets.of_forall fun _ _ => trivial).mono fun _ _ _ => Meets.of_forall fun _ _ => trivial)
  have htracks := hclaim (.bare .dev) (.repeated 0) _ _ _ (by decide +kernel) (fun tx htx => by
    simp only [List.mem_cons, List.not_mem_nil, or_false] at htx
    rcases htx with rfl | rfl
    · intro instr hinstr
      obtain rfl := List.mem_singleton.mp hinstr
      exact ⟨.deploy 100, by decide +kernel, .inl ⟨100, rfl⟩⟩
    · intro instr hinstr
      obtain rfl := List.mem_singleton.mp hinstr
      exact ⟨.deploy 100, by decide +kernel, .inl ⟨100, rfl⟩⟩) hrun 100 hcounted
  rw [hheld] at htracks
  exact absurd htracks (by decide)

end Proof
end Himsha
