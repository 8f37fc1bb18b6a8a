import Himsha.Proof.Frames

/-!
# Where the simple built-ins panic

`Calm` is said of a result that is no panic, and for each program here there is a predicate on its
accounts and its instruction that holds exactly where the program is calm (`system_calm`,
`token_calm` and so on). Overflow checks are on. A slot that is missing is the usual reason; the
others are an allocation that no process can make, and three sums in plain arithmetic.
-/

set_option autoImplicit false

namespace Himsha
namespace Proof

open Himsha.Lib Himsha.Runtime Himsha.Programs

/-- The result is no panic. -/
abbrev Calm {α : Type} (x : Outcome α) : Prop := Avoids Fault.panic x

/-- What a slot holds, if it is there and decodes. -/
def heldAt {α : Type} [Borsh α] (accounts : List AccountInfo) (i : Nat) : Option α :=
  accounts[i]?.bind (tryFromSlice ·.data)

section
variable {α β : Type} {accounts : List AccountInfo} {i : Nat}

theorem calm_bind {x : Outcome α} {f : α → Outcome β} :
    Calm (x >>= f) ↔ Calm x ∧ ∀ a, x = .ok a → Calm (f a) := avoids_bind

@[simp] theorem calm_fail {e : ProgramError} : Calm (fail e : Outcome α) := nofun

@[simp] theorem calm_require {c : Bool} {e : ProgramError} : Calm (require c e) := by
  cases c <;> exact nofun

@[simp] theorem calm_okOr {e : ProgramError} {o : Option α} : Calm (okOr e o) := by
  cases o <;> exact nofun

@[simp] theorem calm_orPanic {o : Option α} : Calm (orPanic o) ↔ o.isSome = true := by
  cases o with
  | none => exact ⟨fun h => absurd rfl h, nofun⟩
  | some a => exact ⟨fun _ => rfl, fun _ => nofun⟩

@[simp] theorem calm_slot : Calm (slot accounts i) ↔ i < accounts.length := by
  simp [slot]

@[simp] theorem calm_zeroed {space : UInt64} : Calm (zeroed space) ↔ space.toNat < 2 ^ 63 := by
  unfold zeroed
  split
  · exact ⟨fun _ => ‹_›, fun _ => nofun⟩
  · exact ⟨fun h => absurd rfl h, fun h => absurd h ‹_›⟩

@[simp] theorem calm_requireSigner {a : AccountInfo} : Calm a.requireSigner := calm_require

@[simp] theorem calm_writeData [Borsh α] {a : AccountInfo} {v : α} : Calm (a.writeData v) := by
  unfold AccountInfo.writeData
  split
  · cases toVec v <;> exact nofun
  · exact calm_fail

@[simp] theorem calm_load [Borsh α] :
    Calm (load accounts i : Outcome α) ↔ i < accounts.length := by
  unfold load AccountInfo.readData
  rw [calm_bind, calm_slot]
  exact and_iff_left fun _ _ => calm_okOr

@[simp] theorem calm_loadOr [Borsh α] {dflt : α} :
    Calm (loadOr accounts i dflt) ↔ i < accounts.length := by
  unfold loadOr
  rw [calm_bind, calm_slot]
  exact and_iff_left fun _ _ => avoids_pure

@[simp] theorem calm_store [Borsh α] {v : α} :
    Calm (store accounts i v) ↔ i < accounts.length := by
  unfold store
  rw [calm_bind, calm_slot]
  exact and_iff_left fun _ _ => .bind calm_writeData fun _ => avoids_pure

theorem slot_eq_ok_iff {a : AccountInfo} : slot accounts i = .ok a ↔ accounts[i]? = some a :=
  orPanic_eq_ok

theorem load_eq_ok_iff [Borsh α] {v : α} :
    load accounts i = .ok v ↔ heldAt accounts i = some v := by
  unfold load heldAt AccountInfo.readData slot
  cases accounts[i]? with
  | none => exact ⟨nofun, nofun⟩
  | some a => exact okOr_eq_ok

theorem heldAt_lt [Borsh α] {v : α} (h : heldAt accounts i = some v) : i < accounts.length := by
  obtain ⟨a, ha, -⟩ := Option.bind_eq_some_iff.mp h
  exact (List.getElem?_eq_some_iff.mp ha).1

/-- A step that cannot panic, and what comes after it. -/
theorem calm_okOr_bind {e : ProgramError} {o : Option α} {f : α → Outcome β} :
    Calm (okOr e o >>= f) ↔ ∀ a, o = some a → Calm (f a) := by
  rw [calm_bind, and_iff_right calm_okOr]
  simp only [okOr_eq_ok]

theorem calm_require_bind {c : Bool} {e : ProgramError} {f : Unit → Outcome β} :
    Calm (require c e >>= f) ↔ (c = true → Calm (f ())) := by
  rw [calm_bind, and_iff_right calm_require]
  simp only [require_eq_ok]
  exact ⟨fun h => h (), fun h _ => h⟩

theorem calm_orPanic_bind {o : Option α} {f : α → Outcome β} :
    Calm (orPanic o >>= f) ↔ o.isSome = true ∧ ∀ a, o = some a → Calm (f a) := by
  rw [calm_bind, calm_orPanic]
  simp only [orPanic_eq_ok]

/-- A step that needs its slot. -/
theorem calm_slot_bind {f : AccountInfo → Outcome β} :
    Calm (slot accounts i >>= f) ↔ ∃ a, accounts[i]? = some a ∧ Calm (f a) := by
  rw [calm_bind, calm_slot]
  simp only [slot_eq_ok_iff]
  constructor
  · rintro ⟨hi, h⟩
    exact ⟨_, List.getElem?_eq_getElem hi, h _ (List.getElem?_eq_getElem hi)⟩
  · rintro ⟨a, ha, h⟩
    refine ⟨(List.getElem?_eq_some_iff.mp ha).1, fun b hb => ?_⟩
    rw [ha, Option.some.injEq] at hb
    exact hb ▸ h

theorem calm_slot_known {a : AccountInfo} {f : AccountInfo → Outcome β}
    (h : accounts[i]? = some a) : Calm (slot accounts i >>= f) ↔ Calm (f a) := by
  rw [slot_eq_ok_iff.mpr h]
  rfl

theorem calm_load_bind [Borsh α] {f : α → Outcome β} :
    Calm ((load accounts i : Outcome α) >>= f) ↔
      i < accounts.length ∧ ∀ v, heldAt accounts i = some v → Calm (f v) := by
  rw [calm_bind, calm_load]
  simp only [load_eq_ok_iff]

theorem calm_loadOr_bind [Borsh α] {dflt : α} {f : α → Outcome β} :
    Calm (loadOr accounts i dflt >>= f) ↔
      i < accounts.length ∧ Calm (f ((heldAt accounts i).getD dflt)) := by
  unfold loadOr heldAt
  rw [bind_assoc, calm_slot_bind]
  constructor
  · rintro ⟨a, ha, h⟩
    refine ⟨(List.getElem?_eq_some_iff.mp ha).1, ?_⟩
    rw [ha]
    exact h
  · rintro ⟨hi, h⟩
    refine ⟨_, List.getElem?_eq_getElem hi, ?_⟩
    rw [List.getElem?_eq_getElem hi] at h
    exact h

end

/-! ## The system program -/

/-- It holds neither lamports nor data. -/
def Fresh (a : AccountInfo) : Prop := a.lamports = 0 ∧ a.data = []

/-- The payer, if it can act, has a new account beside it, and what it allocates there exists. -/
def SystemSafe (accounts : List AccountInfo) : System.SystemInstruction → Prop
  | .createAccount lamports space _ => ∀ payer ∈ accounts[0]?, payer.isSigner = true →
      lamports ≤ payer.lamports →
        ∃ account, accounts[1]? = some account ∧ (Fresh account → space.toNat < 2 ^ 63)
  | .createAccountWithAnchor _ space _ => ∀ payer ∈ accounts[0]?, payer.isSigner = true →
      ∃ account, accounts[1]? = some account ∧ (Fresh account → space.toNat < 2 ^ 63)
  | .allocate space => ∀ account ∈ accounts[0]?, account.isSigner = true →
      account.data.length < space.toNat → space.toNat < 2 ^ 63
  | .transfer _ | .assign _ => True

section
variable {accounts : List AccountInfo} {data : List UInt8} {β : Type}

theorem calm_ensureSigners_bind {f : Unit → Outcome β} :
    Calm (System.ensureSigners accounts 0 >>= f) ↔
      ∀ payer ∈ accounts[0]?, payer.isSigner = true → Calm (f ()) := by
  unfold System.ensureSigners
  cases accounts[0]? with
  | none => exact ⟨fun _ => nofun, fun _ => calm_fail⟩
  | some payer =>
    dsimp only
    rw [calm_require_bind]
    exact ⟨fun h b hb => Option.some.inj hb ▸ h, fun h => h payer rfl⟩

theorem calm_requireFresh_bind {a : AccountInfo} {f : Unit → Outcome β} :
    Calm (System.requireFresh a >>= f) ↔ (Fresh a → Calm (f ())) := by
  unfold System.requireFresh
  rw [calm_require_bind]
  simp [Fresh]

theorem calm_deductLamports_bind {a : AccountInfo} {n : UInt64} {f : AccountInfo → Outcome β} :
    Calm (System.deductLamports a n >>= f) ↔
      (n ≤ a.lamports → Calm (f { a with lamports := a.lamports - n })) := by
  unfold System.deductLamports checkedSub
  split
  · rename_i hle
    exact ⟨fun h _ => h, fun h => h hle⟩
  · rename_i hlt
    exact ⟨fun _ hle => absurd hle hlt, fun _ => calm_fail⟩

theorem calm_creditLamports {a : AccountInfo} {n : UInt64} : Calm (System.creditLamports a n) := by
  unfold System.creditLamports
  cases checkedAdd a.lamports n <;> exact nofun

theorem calm_zeroed_bind {space : UInt64} {f : List UInt8 → Outcome β}
    (hf : ∀ zeros, Calm (f zeros)) : Calm (zeroed space >>= f) ↔ space.toNat < 2 ^ 63 := by
  rw [calm_bind, calm_zeroed]
  exact and_iff_left fun zeros _ => hf zeros

theorem system_run_calm (ix : System.SystemInstruction) :
    Calm (System.run accounts ix) ↔ SystemSafe accounts ix := by
  cases ix with
  | createAccount lamports space owner =>
    unfold System.run SystemSafe
    rw [calm_ensureSigners_bind]
    refine forall_congr' fun payer => forall_congr' fun hpayer => forall_congr' fun _ => ?_
    rw [calm_slot_known hpayer, calm_deductLamports_bind]
    refine imp_congr_right fun _ => ?_
    dsimp only
    rw [calm_slot_bind, List.getElem?_set_ne Nat.zero_ne_one]
    refine exists_congr fun account => and_congr_right fun _ => ?_
    rw [calm_requireFresh_bind]
    exact imp_congr_right fun _ => calm_zeroed_bind fun _ => avoids_pure
  | createAccountWithAnchor utxo space owner =>
    unfold System.run SystemSafe
    rw [calm_ensureSigners_bind]
    refine forall_congr' fun payer => forall_congr' fun _ => forall_congr' fun _ => ?_
    rw [calm_slot_bind]
    refine exists_congr fun account => and_congr_right fun _ => ?_
    rw [calm_requireFresh_bind]
    exact imp_congr_right fun _ => calm_zeroed_bind fun _ => avoids_pure
  | transfer lamports =>
    refine iff_of_true ?_ trivial
    unfold System.run
    rw [calm_ensureSigners_bind]
    intro payer hpayer _
    rw [calm_require_bind]
    intro hlen
    rw [calm_slot_known hpayer, calm_deductLamports_bind]
    intro _
    dsimp only
    refine calm_slot_bind.mpr ⟨_, List.getElem?_eq_getElem ?_, .bind ?_ fun _ => avoids_pure⟩
    · rw [List.length_set]
      exact of_decide_eq_true hlen
    · exact calm_creditLamports
  | assign owner =>
    refine iff_of_true ?_ trivial
    unfold System.run
    rw [calm_ensureSigners_bind]
    intro payer hpayer _
    rw [calm_slot_known hpayer]
    exact avoids_pure
  | allocate space =>
    unfold System.run SystemSafe
    rw [calm_ensureSigners_bind]
    refine forall_congr' fun account => forall_congr' fun haccount => forall_congr' fun _ => ?_
    rw [calm_slot_known haccount]
    split
    · rename_i hgrows
      rw [calm_zeroed_bind fun _ => avoids_pure]
      exact ⟨fun h _ => h, fun h => h hgrows⟩
    · rename_i hfits
      exact iff_of_true avoids_pure fun hgrows => absurd hgrows hfits

theorem system_calm : Calm (System.process accounts data) ↔
    ∀ ix, tryFromSlice data = some ix → SystemSafe accounts ix := by
  unfold System.process
  rw [calm_okOr_bind]
  exact forall_congr' fun ix => imp_congr_right fun _ => system_run_calm ix

end

/-! ## The token program and the one that creates associated accounts -/

open Token in
/-- Every slot that is indexed is there; and where an account is closed, what both accounts hold
    fits. -/
def TokenSafe (accounts : List AccountInfo) : TokenInstruction → Prop
  | .initializeMint .. | .revoke | .freezeAccount | .thawAccount => 0 < accounts.length
  | .initializeAccount => 1 < accounts.length
  | .mintTo _ | .transfer _ | .burn _ => True
  | .approve _ => 0 < accounts.length ∧
      ((heldAt accounts 0 : Option TokenAccountState).isSome = true → 1 < accounts.length)
  | .closeAccount => 0 < accounts.length ∧
      ∀ token : TokenAccountState, heldAt accounts 0 = some token → token.amount = 0 →
        ∃ a dest, accounts[0]? = some a ∧ accounts[1]? = some dest ∧
          dest.lamports.toNat + a.lamports.toNat < 2 ^ 64

section
variable {accounts : List AccountInfo} {data : List UInt8} {β : Type}

theorem addU64_isSome {a b : UInt64} :
    (addU64 .dev a b).isSome = true ↔ a.toNat + b.toNat < 2 ^ 64 := by
  unfold addU64 Profile.plain
  split
  · exact ⟨fun _ => ‹_›, fun _ => rfl⟩
  · exact ⟨nofun, fun h => absurd h ‹_›⟩

theorem calm_requireThirdSigner_bind {f : Unit → Outcome β} :
    Calm (Token.requireThirdSigner accounts >>= f) ↔
      ∀ a, accounts[2]? = some a → a.isSigner = true → Calm (f ()) := by
  unfold Token.requireThirdSigner
  cases accounts[2]? with
  | none => exact ⟨fun _ => nofun, fun _ => calm_fail⟩
  | some a =>
    dsimp only
    unfold AccountInfo.requireSigner
    rw [calm_require_bind]
    exact ⟨fun h b hb => Option.some.inj hb ▸ h, fun h => h a rfl⟩

theorem calm_store_store {α γ : Type} [Borsh α] [Borsh γ] {v : α} {w : γ}
    (h : 1 < accounts.length) :
    Calm (store accounts 0 v >>= fun accounts => store accounts 1 w) := by
  refine calm_bind.mpr ⟨calm_store.mpr (by omega), fun mid hmid => calm_store.mpr ?_⟩
  obtain ⟨a, bytes, -, -, -, rfl⟩ := store_eq_ok hmid
  rwa [List.length_set]

/-- The three instructions that move tokens. -/
theorem calm_token_pair {α γ δ : Type} [Borsh α] [Borsh γ] {f : α → γ → Outcome δ}
    (hf : 1 < accounts.length → ∀ v w, Calm (f v w)) :
    Calm (Token.requireThirdSigner accounts >>= fun _ =>
      (load accounts 0 : Outcome α) >>= fun v => (load accounts 1 : Outcome γ) >>= f v) := by
  rw [calm_requireThirdSigner_bind]
  intro a ha _
  have hlen := (List.getElem?_eq_some_iff.mp ha).1
  rw [calm_load_bind]
  refine ⟨by omega, fun v _ => ?_⟩
  rw [calm_load_bind]
  exact ⟨by omega, fun w _ => hf (by omega) v w⟩

theorem token_run_calm (ix : Token.TokenInstruction) :
    Calm (Token.run .dev accounts ix) ↔ TokenSafe accounts ix := by
  cases ix with
  | initializeMint decimals authority freeze =>
    unfold Token.run TokenSafe
    rw [calm_loadOr_bind]
    refine and_iff_left_iff_imp.mpr fun hlen => ?_
    exact .bind calm_require fun _ => calm_store.mpr hlen
  | initializeAccount =>
    unfold Token.run TokenSafe
    rw [calm_slot_bind]
    constructor
    · rintro ⟨a, ha, -⟩
      exact (List.getElem?_eq_some_iff.mp ha).1
    · intro (hlen : 1 < accounts.length)
      refine ⟨_, List.getElem?_eq_getElem hlen, .bind calm_require fun _ =>
        calm_loadOr_bind.mpr ⟨by omega, .bind calm_require fun _ => calm_store.mpr (by omega)⟩⟩
  | mintTo amount =>
    refine iff_of_true (calm_token_pair fun hlen mint dest => ?_) trivial
    refine calm_slot_bind.mpr ⟨_, List.getElem?_eq_getElem (by omega), .bind calm_require fun _ =>
      .bind calm_require fun _ => .bind calm_okOr fun _ => .bind calm_okOr fun _ => ?_⟩
    exact calm_store_store hlen
  | transfer amount =>
    refine iff_of_true (calm_token_pair fun hlen source dest => ?_) trivial
    exact .bind calm_require fun _ => .bind calm_require fun _ => .bind calm_okOr fun _ =>
      .bind calm_okOr fun _ => calm_store_store hlen
  | burn amount =>
    refine iff_of_true (calm_token_pair fun hlen token mint => ?_) trivial
    exact .bind calm_require fun _ => .bind calm_okOr fun _ => .bind calm_okOr fun _ =>
      calm_store_store hlen
  | approve amount =>
    unfold Token.run TokenSafe
    rw [calm_load_bind]
    refine and_congr_right fun hlen => ?_
    rw [Option.isSome_iff_exists, forall_exists_index]
    refine forall_congr' fun token => imp_congr_right fun _ => ?_
    rw [calm_slot_bind]
    constructor
    · rintro ⟨a, ha, -⟩
      exact (List.getElem?_eq_some_iff.mp ha).1
    · exact fun h => ⟨_, List.getElem?_eq_getElem h, calm_store.mpr hlen⟩
  | revoke | freezeAccount =>
    unfold Token.run TokenSafe
    rw [calm_load_bind]
    exact and_iff_left_iff_imp.mpr fun hlen _ _ => calm_store.mpr hlen
  | thawAccount =>
    unfold Token.run TokenSafe
    rw [calm_load_bind]
    refine and_iff_left_iff_imp.mpr fun hlen _ _ => ?_
    exact .bind calm_require fun _ => calm_store.mpr hlen
  | closeAccount =>
    unfold Token.run TokenSafe
    rw [calm_load_bind]
    refine and_congr_right fun hlen => forall_congr' fun token => imp_congr_right fun _ => ?_
    rw [calm_require_bind, beq_iff_eq]
    refine imp_congr_right fun _ => ?_
    rw [calm_slot_bind]
    refine exists_congr fun a => ?_
    rw [calm_slot_bind, exists_and_left]
    refine and_congr_right fun _ => exists_congr fun dest => and_congr_right fun _ => ?_
    rw [calm_orPanic_bind, addU64_isSome]
    exact and_iff_left fun _ _ => avoids_pure

theorem token_calm : Calm (Token.process .dev accounts data) ↔
    ∀ ix, tryFromSlice data = some ix → TokenSafe accounts ix := by
  unfold Token.process
  rw [calm_okOr_bind]
  exact forall_congr' fun ix => imp_congr_right fun _ => token_run_calm ix

end

/-! ## NFT metadata -/

open NftMetadata in
/-- Every slot that is indexed is there, and the shares of the creators can be added up in `u16`. -/
def MetadataSafe (accounts : List AccountInfo) : MetadataInstruction → Prop
  | .create _ _ _ _ creators => 2 < accounts.length ∧
      ((heldAt accounts 0 : Option Metadata).all (·.name.isEmpty) = true →
        (creators.map (·.share.toNat)).sum < 2 ^ 16)
  | .update .. => 0 < accounts.length ∧
      ∀ m : Metadata, heldAt accounts 0 = some m → m.isMutable = true → 1 < accounts.length
  | .verifyCreator | .makeImmutable => 0 < accounts.length ∧
      ∀ m : Metadata, heldAt accounts 0 = some m → 1 < accounts.length

section
variable {accounts : List AccountInfo} {data : List UInt8} {timestamp : UInt64} {β : Type}

/-- Partial sums only grow, so the whole sum decides. -/
theorem shareSum_isSome (creators : List NftMetadata.Creator) :
    (NftMetadata.shareSum .dev creators).isSome = true ↔
      (creators.map (·.share.toNat)).sum < 2 ^ 16 := by
  have hfrom : ∀ (cs : List NftMetadata.Creator) (sum : Nat), sum < 2 ^ 16 →
      ((cs.foldlM (fun sum c => Profile.plain .dev 16 (sum + c.share.toNat)) sum).isSome = true ↔
        sum + (cs.map (·.share.toNat)).sum < 2 ^ 16) := by
    intro cs
    induction cs with
    | nil => exact fun sum hsum => iff_of_true rfl hsum
    | cons c rest ih =>
      intro sum _
      rw [List.foldlM_cons, List.map_cons, List.sum_cons, ← Nat.add_assoc]
      by_cases hfits : sum + c.share.toNat < 2 ^ 16
      · have hplain : Profile.plain .dev 16 (sum + c.share.toNat) = some (sum + c.share.toNat) :=
          if_pos hfits
        rw [hplain]
        exact ih _ hfits
      · have hplain : Profile.plain .dev 16 (sum + c.share.toNat) = none := if_neg hfits
        rw [hplain]
        exact iff_of_false nofun (by omega)
  rw [← Nat.zero_add (List.map _ creators).sum]
  exact hfrom creators 0 (by decide)

/-- Only whether the slot is there decides, where nothing after it can panic. -/
theorem calm_slot_last {i : Nat} {f : AccountInfo → Outcome β} (hf : ∀ a, Calm (f a)) :
    Calm (slot accounts i >>= f) ↔ i < accounts.length := by
  rw [calm_bind, calm_slot]
  exact and_iff_left fun a _ => hf a

theorem metadata_run_calm (ix : NftMetadata.MetadataInstruction) :
    Calm (NftMetadata.run .dev accounts ix) ↔ MetadataSafe accounts ix := by
  cases ix with
  | create name symbol uri sellerFeeBasisPoints creators =>
    unfold NftMetadata.run MetadataSafe
    dsimp only
    by_cases hlen : 2 < accounts.length
    · rw [and_iff_right hlen, calm_slot_known (List.getElem?_eq_getElem (i := 1) (by omega)),
        calm_slot_known (List.getElem?_eq_getElem hlen),
        calm_slot_known (List.getElem?_eq_getElem (i := 0) (by omega))]
      have hheld : (heldAt accounts 0 : Option NftMetadata.Metadata) =
          tryFromSlice accounts[0].data := by
        unfold heldAt
        rw [List.getElem?_eq_getElem (by omega)]
        rfl
      rw [hheld, calm_require_bind, calm_orPanic_bind, shareSum_isSome]
      refine imp_congr_right fun _ => and_iff_left fun _ _ => ?_
      exact .bind calm_require fun _ => calm_store.mpr (by omega)
    · refine iff_of_false (fun hcalm => hlen ?_) fun h => hlen h.1
      obtain ⟨mint, -, h⟩ := calm_slot_bind.mp hcalm
      obtain ⟨authority, hauthority, -⟩ := calm_slot_bind.mp h
      exact (List.getElem?_eq_some_iff.mp hauthority).1
  | update name uri sellerFeeBasisPoints =>
    unfold NftMetadata.run MetadataSafe
    rw [calm_load_bind]
    refine and_congr_right fun hlen => forall_congr' fun m => imp_congr_right fun _ => ?_
    rw [calm_require_bind]
    refine imp_congr_right fun _ => calm_slot_last fun a => ?_
    exact .bind calm_require fun _ => calm_store.mpr hlen
  | verifyCreator =>
    unfold NftMetadata.run MetadataSafe
    rw [calm_load_bind]
    refine and_congr_right fun hlen => forall_congr' fun m => imp_congr_right fun _ => ?_
    exact calm_slot_last fun a => calm_store.mpr hlen
  | makeImmutable =>
    unfold NftMetadata.run MetadataSafe
    rw [calm_load_bind]
    refine and_congr_right fun hlen => forall_congr' fun m => imp_congr_right fun _ => ?_
    exact calm_slot_last fun a => .bind calm_require fun _ => calm_store.mpr hlen

theorem metadata_calm : Calm (NftMetadata.process .dev accounts data) ↔
    ∀ ix, tryFromSlice data = some ix → MetadataSafe accounts ix := by
  unfold NftMetadata.process
  rw [calm_okOr_bind]
  exact forall_congr' fun ix => imp_congr_right fun _ => metadata_run_calm ix

/-! ## Ordinals lending -/

/-- What a borrower owes fits, where a repayment gets as far as asking. -/
def LendingSafe (accounts : List AccountInfo) (timestamp : UInt64) :
    Lending.LendingInstruction → Prop
  | .repayLoan inscriptionId _ amount => ∀ (coll : Lending.CollectionAccount) (loan : Lending.Loan),
      heldAt accounts 0 = some coll → coll.activeLoans[inscriptionId]? = some loan →
        saturatingSub timestamp loan.startedAt ≤ loan.loanPeriod → amount ≠ 0 →
          loan.loanValue.toNat +
            (saturatingMul loan.loanValue loan.interestRateBps / Lending.bps).toNat < 2 ^ 64
  | _ => True

theorem lending_run_calm (hasher : Lending.Hasher) (hlen : 1 < accounts.length)
    (ix : Lending.LendingInstruction) :
    Calm (Lending.run .dev hasher accounts timestamp ix) ↔ LendingSafe accounts timestamp ix := by
  have hfirst : 0 < accounts.length := by omega
  cases ix with
  | initCollection name =>
    refine iff_of_true (calm_slot_bind.mpr ⟨_, List.getElem?_eq_getElem hfirst, ?_⟩) trivial
    exact .bind calm_require fun _ => calm_store.mpr hfirst
  | placeBid bidUtxo loanValue loanPeriod interestRateBps ordinals payments =>
    refine iff_of_true (calm_load_bind.mpr ⟨hfirst, fun coll _ => ?_⟩) trivial
    exact .bind calm_require fun _ => calm_store.mpr hfirst
  | cancelBid bidUtxo =>
    refine iff_of_true (calm_load_bind.mpr ⟨hfirst, fun coll _ => ?_⟩) trivial
    exact .bind calm_require fun _ => calm_store.mpr hfirst
  | acceptBid inscriptionId inscriptionUtxo ordinals payments =>
    refine iff_of_true (calm_load_bind.mpr ⟨hfirst, fun coll _ => ?_⟩) trivial
    exact .bind calm_require fun _ => .bind calm_require fun _ => .bind calm_okOr fun _ =>
      calm_store.mpr hfirst
  | repayLoan inscriptionId repaymentUtxo amount =>
    unfold Lending.run LendingSafe
    rw [calm_load_bind, and_iff_right hfirst]
    refine forall_congr' fun coll => ?_
    rw [forall_comm]
    refine imp_congr_right fun _ => ?_
    rw [calm_okOr_bind]
    refine forall_congr' fun loan => imp_congr_right fun _ => ?_
    dsimp only
    split
    · rename_i hexpired
      refine iff_of_true (.bind (calm_store.mpr hfirst) fun _ => calm_fail) fun hle => ?_
      exact absurd hle (UInt64.not_le.mpr hexpired)
    · rename_i hopen
      rw [calm_require_bind, bne_iff_ne, calm_orPanic_bind, Lending.Loan.repaymentDue,
        addU64_isSome, imp_iff_right (UInt64.not_lt.mp hopen)]
      refine imp_congr_right fun _ => and_iff_left fun due _ => ?_
      split
      · exact calm_store.mpr hfirst
      · exact calm_store.mpr hfirst
  | claimDefault inscriptionId =>
    refine iff_of_true (calm_load_bind.mpr ⟨hfirst, fun coll _ => ?_⟩) trivial
    exact .bind calm_okOr fun _ => .bind calm_require fun _ => calm_store.mpr hfirst

theorem lending_calm (hasher : Lending.Hasher) :
    Calm (Lending.process .dev hasher accounts data timestamp) ↔
      ∀ ix, tryFromSlice data = some ix → (∃ a ∈ accounts[1]?, a.isSigner = true) →
        LendingSafe accounts timestamp ix := by
  unfold Lending.process
  rw [calm_okOr_bind]
  refine forall_congr' fun ix => imp_congr_right fun _ => ?_
  rw [calm_require_bind]
  cases hsecond : accounts[1]? with
  | none => exact iff_of_true nofun nofun
  | some a =>
    have hrun : Calm (Lending.run .dev hasher accounts timestamp ix) ↔
        LendingSafe accounts timestamp ix :=
      lending_run_calm hasher (List.getElem?_eq_some_iff.mp hsecond).1 ix
    simp [hrun]

/-! ## Runes and the oracle -/

/-- The third account is there where the authority check has passed. -/
theorem calm_runes_bind {f : Unit → Outcome β} (hf : 2 < accounts.length → Calm (f ())) :
    Calm (Runes.requireAuthority accounts >>= f) := by
  unfold Runes.requireAuthority
  rw [bind_assoc, calm_require_bind]
  intro hlen
  have hthree : 3 ≤ accounts.length := of_decide_eq_true hlen
  rw [bind_assoc, calm_slot_known (List.getElem?_eq_getElem (i := 2) (by omega))]
  exact .bind calm_requireSigner fun _ => hf (by omega)

theorem calm_store_then {α : Type} [Borsh α] {i : Nat} {v : α}
    {f : List AccountInfo → Outcome β} (hi : i < accounts.length)
    (hf : ∀ mid : List AccountInfo, mid.length = accounts.length → Calm (f mid)) :
    Calm (store accounts i v >>= f) := by
  refine calm_bind.mpr ⟨calm_store.mpr hi, fun mid hmid => hf mid ?_⟩
  obtain ⟨a, bytes, -, -, -, rfl⟩ := store_eq_ok hmid
  exact List.length_set

theorem calm_slot_there {i : Nat} {f : AccountInfo → Outcome β} (hi : i < accounts.length)
    (hf : ∀ a, Calm (f a)) : Calm (slot accounts i >>= f) :=
  (calm_slot_last hf).mpr hi

theorem calm_load_there {α : Type} [Borsh α] {i : Nat} {f : α → Outcome β}
    (hi : i < accounts.length) (hf : ∀ v, Calm (f v)) :
    Calm ((load accounts i : Outcome α) >>= f) :=
  calm_load_bind.mpr ⟨hi, fun v _ => hf v⟩

theorem calm_loadOr_there {α : Type} [Borsh α] {i : Nat} {dflt : α} {f : α → Outcome β}
    (hi : i < accounts.length) (hf : ∀ v, Calm (f v)) : Calm (loadOr accounts i dflt >>= f) :=
  calm_loadOr_bind.mpr ⟨hi, hf _⟩

theorem runes_calm : Calm (Runes.process accounts data timestamp) := by
  refine .bind calm_okOr fun ix => ?_
  cases ix with
  | etch name symbol divisibility premine terms =>
    refine calm_runes_bind fun hlen => .bind calm_require fun _ => .bind calm_require fun _ => ?_
    refine calm_slot_there (by omega) fun _ => calm_slot_there hlen fun _ =>
      calm_loadOr_there (by omega) fun _ => .bind calm_require fun _ =>
        calm_store_then (by omega) fun mid hmid => ?_
    split
    · exact calm_loadOr_there (by omega) fun _ => .bind calm_okOr fun _ => calm_store.mpr (by omega)
    · exact avoids_pure
  | mint =>
    refine calm_runes_bind fun hlen => calm_slot_there (by omega) fun _ =>
      calm_load_there (by omega) fun _ => .bind calm_require fun _ => .bind calm_okOr fun _ =>
      .bind calm_require fun _ => .bind calm_require fun _ => .bind calm_require fun _ =>
      .bind calm_okOr fun _ => .bind calm_okOr fun _ =>
      calm_store_then (by omega) fun mid hmid => ?_
    exact calm_loadOr_there (by omega) fun _ => calm_slot_there (by omega) fun _ =>
      .bind calm_okOr fun _ => calm_store.mpr (by omega)
  | transfer amount =>
    refine calm_runes_bind fun hlen => calm_load_there (by omega) fun _ =>
      .bind calm_require fun _ => calm_loadOr_there (by omega) fun _ => .bind calm_require fun _ =>
      .bind calm_okOr fun _ => calm_slot_there (by omega) fun _ => .bind calm_okOr fun _ =>
      calm_store_then (by omega) fun mid hmid => ?_
    exact calm_store.mpr (by omega)
  | burn amount =>
    refine calm_runes_bind fun hlen => calm_load_there (by omega) fun _ =>
      calm_load_there (by omega) fun _ => .bind calm_require fun _ => .bind calm_okOr fun _ =>
      .bind calm_okOr fun _ => calm_store_then (by omega) fun mid hmid => ?_
    exact calm_store.mpr (by omega)
  | initBalance =>
    refine calm_require_bind.mpr fun hlen => ?_
    have htwo : 2 ≤ accounts.length := of_decide_eq_true hlen
    exact calm_slot_there (by omega) fun _ => calm_loadOr_there (by omega) fun _ =>
      .bind calm_require fun _ => calm_store.mpr (by omega)

/-- The price is not zero where the move is measured, and the difference of two prices in basis
    points is far from the end of `u128`. -/
theorem deviationBps_isSome {old new : UInt64} (h : old ≠ 0) :
    (Oracle.deviationBps .dev old new).isSome = true := by
  have hnew := new.toNat_lt
  have hold := old.toNat_lt
  have hfits : (max old.toNat new.toNat - min old.toNat new.toNat) * Oracle.bps < 2 ^ 128 := by
    rw [show Oracle.bps = 10000 from rfl]
    omega
  have hpos : old.toNat ≠ 0 := fun hzero => h (UInt64.toNat_inj.mp hzero)
  simp only [Oracle.deviationBps, mulU128, Profile.plain, if_pos hfits, Option.bind_some, divU128,
    if_neg hpos, Option.isSome_some]

theorem calm_oracle_authority {feed : Oracle.PriceFeed} (hlen : 1 < accounts.length) :
    Calm (Oracle.requireAuthority feed accounts) :=
  calm_slot_there hlen fun _ => .bind calm_requireSigner fun _ => calm_require

theorem oracle_calm : Calm (Oracle.process .dev accounts data timestamp) := by
  refine .bind calm_okOr fun ix => calm_require_bind.mpr fun htwo => ?_
  have hlen : 2 ≤ accounts.length := of_decide_eq_true htwo
  cases ix with
  | initFeed maxDeviationBps maxSubmissionAge =>
    exact calm_slot_there (by omega) fun _ => .bind calm_requireSigner fun _ =>
      calm_loadOr_there (by omega) fun _ => .bind calm_require fun _ => calm_store.mpr (by omega)
  | updatePrice price =>
    refine calm_slot_there (by omega) fun _ => .bind calm_requireSigner fun _ =>
      calm_load_there (by omega) fun feed => .bind calm_require fun _ => .bind calm_require fun _ =>
      .bind calm_okOr fun submissions => ?_
    have hstore : ∀ feed : Oracle.PriceFeed, Calm (store accounts 0 feed) :=
      fun _ => calm_store.mpr (by omega)
    dsimp only
    split
    · exact hstore _
    · refine .bind calm_okOr fun median => ?_
      split
      · rename_i hmoves
        have hprice : feed.price ≠ 0 := by
          simp only [Bool.and_eq_true, bne_iff_ne] at hmoves
          exact hmoves.1
        refine .bind (calm_orPanic.mpr (deviationBps_isSome hprice)) fun _ => ?_
        exact .bind calm_require fun _ => hstore _
      · exact hstore _
  | addPublisher publisher =>
    exact calm_load_there (by omega) fun feed => .bind calm_require fun _ =>
      .bind (calm_oracle_authority (by omega)) fun _ => .bind calm_require fun _ =>
      .bind calm_require fun _ => calm_store.mpr (by omega)
  | removePublisher publisher =>
    exact calm_load_there (by omega) fun feed => .bind calm_require fun _ =>
      .bind (calm_oracle_authority (by omega)) fun _ => .bind calm_require fun _ =>
      .bind calm_require fun _ => calm_store.mpr (by omega)

end

end Proof
end Himsha
