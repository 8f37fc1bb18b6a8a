import Himsha.Proof.CalmCalls

/-!
# What the simple programs need of their accounts

`Needs` is what a handler needs of the accounts it is given: slots that it writes, slots that have
signed, and how many there are. Given that (`Suits`) it never complains of an account that is not
writable, of a missing signer or of missing accounts. What comes out of a step meets what went in,
so a program that writes twice or invokes others needs what its parts do.
-/

set_option autoImplicit false

namespace Himsha
namespace Proof

open Himsha.Lib Himsha.Runtime Himsha.Programs Himsha.Vm

/-- The errors of an account list that is not what the handler needs. -/
def Undeclared : Fault → Prop
  | .err .notWritable | .err .missingSigner | .err .notEnoughAccounts => True
  | _ => False

structure Needs where
  writes : List Nat
  signs : List Nat
  count : Nat

/-- Enough is there not to fail with `f`. Flags of slots that are written matter for one fault
only. -/
structure Suits (f : Fault) (accounts : List AccountInfo) (n : Needs) : Prop where
  writes : f = .err .notWritable → ∀ i ∈ n.writes, ∀ a, accounts[i]? = some a →
    a.isWritable = true
  signs : ∀ i ∈ n.signs, ∃ a, accounts[i]? = some a ∧ a.isSigner = true
  count : n.count ≤ accounts.length

/-- The flags of an account. -/
def flagsOf (a : AccountInfo) : Bool × Bool := (a.isSigner, a.isWritable)

/-- Slot by slot, the same flags. -/
def Flagged (accounts out : List AccountInfo) : Prop := out.map flagsOf = accounts.map flagsOf

section
variable {f : Fault} {accounts mid out : List AccountInfo} {n m : Needs}

theorem Flagged.refl : Flagged accounts accounts := rfl

theorem Flagged.trans (h : Flagged accounts mid) (h' : Flagged mid out) : Flagged accounts out :=
  Eq.trans h' h

theorem Flagged.slot (h : Flagged accounts out) {i : Nat} {b : AccountInfo}
    (hb : out[i]? = some b) : ∃ a, accounts[i]? = some a ∧ flagsOf a = flagsOf b := by
  have hi := congrArg (·[i]?) h
  simp only [List.getElem?_map, hb, Option.map_some] at hi
  obtain ⟨a, ha, hflags⟩ := Option.map_eq_some_iff.mp hi.symm
  exact ⟨a, ha, hflags⟩

/-- Only flags count. -/
theorem Suits.flagged (h : Suits f accounts n) (hflags : Flagged accounts out) : Suits f out n where
  writes hf i hi b hb := by
    obtain ⟨a, ha, heq⟩ := hflags.slot hb
    have hw := h.writes hf i hi a ha
    rw [← hw]
    exact (congrArg Prod.snd heq).symm
  signs i hi := by
    obtain ⟨a, ha, hs⟩ := h.signs i hi
    have hback : Flagged out accounts := Eq.symm hflags
    obtain ⟨b, hb, heq⟩ := hback.slot ha
    exact ⟨b, hb, (congrArg Prod.fst heq).trans hs⟩
  count := by
    have hlength := congrArg List.length hflags
    simp only [List.length_map] at hlength
    rw [hlength]
    exact h.count

theorem flagged_set {i : Nat} {a b : AccountInfo} (ha : accounts[i]? = some a)
    (hflags : flagsOf b = flagsOf a) : Flagged accounts (accounts.set i b) := by
  obtain ⟨hlt, rfl⟩ := List.getElem?_eq_some_iff.mp ha
  unfold Flagged
  rw [List.map_set, hflags, ← List.getElem_map flagsOf (h := by simpa using hlt),
    List.set_getElem_self]

theorem store_flagged {α : Type} [Borsh α] (i : Nat) (v : α) :
    Gives (store accounts i v) (Flagged accounts) := by
  intro out h
  obtain ⟨a, data, ha, -, -, rfl⟩ := store_eq_ok h
  exact flagged_set ha rfl

end

/-! ## Steps -/

section
variable {α β : Type} {f : Fault} {accounts : List AccountInfo} {n : Needs} {i : Nat}
  {e : ProgramError}

theorem Undeclared.ne {g : Fault} (hf : Undeclared f) (hg : ¬ Undeclared g) : g ≠ f := by
  intro heq
  exact hg (heq ▸ hf)

theorem Undeclared.not_runtime (hf : Undeclared f) : ¬ RuntimeError f := by
  intro h
  cases f with
  | err e => cases e <;> first | exact hf | exact h
  | panic => exact hf

theorem declares_require {c : Bool} (hf : Undeclared f) (he : ¬ Undeclared (.err e)) :
    Avoids f (require c e) := by
  cases c with
  | true => exact nofun
  | false => exact avoids_error.mpr (hf.ne he)

theorem declares_fail (hf : Undeclared f) (he : ¬ Undeclared (.err e)) :
    Avoids f (fail e : Outcome α) :=
  avoids_error.mpr (hf.ne he)

theorem declares_okOr {o : Option α} (hf : Undeclared f) (he : ¬ Undeclared (.err e)) :
    Avoids f (okOr e o) := by
  cases o with
  | none => exact declares_fail hf he
  | some a => exact nofun

theorem declares_orPanic {o : Option α} (hf : Undeclared f) : Avoids f (orPanic o) := by
  cases o with
  | none => exact avoids_error.mpr (hf.ne id)
  | some a => exact nofun

theorem declares_slot (hf : Undeclared f) : Avoids f (slot accounts i) := declares_orPanic hf

theorem declares_load [Borsh α] (hf : Undeclared f) : Avoids f (load accounts i : Outcome α) :=
  .bind (declares_slot hf) fun _ => declares_okOr hf id

theorem declares_loadOr [Borsh α] {dflt : α} (hf : Undeclared f) :
    Avoids f (loadOr accounts i dflt) :=
  .bind (declares_slot hf) fun _ => avoids_pure

theorem declares_zeroed {space : UInt64} (hf : Undeclared f) : Avoids f (zeroed space) := by
  unfold zeroed
  split
  · exact nofun
  · exact avoids_error.mpr (hf.ne id)

/-- There are as many accounts as the handler asks for. -/
theorem declares_enough {k : Nat} (h : k ≤ accounts.length) :
    Avoids f (require (decide (k ≤ accounts.length)) e) := by
  rw [decide_eq_true h]
  exact nofun

theorem Suits.stores [Borsh α] {v : α} (h : Suits f accounts n) (hf : Undeclared f)
    (hi : i ∈ n.writes) : Avoids f (store accounts i v) := by
  refine avoids_bind.mpr ⟨declares_slot hf, fun a ha => .bind ?_ fun _ => avoids_pure⟩
  unfold AccountInfo.writeData
  split
  · cases toVec v with
    | none => exact avoids_error.mpr (hf.ne id)
    | some d => exact nofun
  · rename_i hreadonly
    intro heq
    exact hreadonly (h.writes (Except.error.inj heq).symm i hi a (slot_eq_ok ha))

/-- A second write meets the same. -/
theorem Suits.store_then [Borsh α] {v : α} {g : List AccountInfo → Outcome β}
    (h : Suits f accounts n) (hf : Undeclared f) (hi : i ∈ n.writes)
    (hg : ∀ mid, Suits f mid n → Avoids f (g mid)) : Avoids f (store accounts i v >>= g) :=
  avoids_bind.mpr ⟨h.stores hf hi, fun mid hmid => hg mid (h.flagged (store_flagged i v mid hmid))⟩

/-- The slot that has to have signed has. -/
theorem Suits.signer {g : AccountInfo → Unit → Outcome β} (h : Suits f accounts n)
    (hi : i ∈ n.signs) (hg : ∀ a, accounts[i]? = some a → Avoids f (g a ())) :
    Avoids f (slot accounts i >>= fun a => a.requireSigner >>= g a) := by
  obtain ⟨a, ha, hs⟩ := h.signs i hi
  have hslot : slot accounts i = .ok a := orPanic_eq_ok.mpr ha
  have hsigner : a.requireSigner = .ok () := require_eq_ok.mpr hs
  rw [hslot]
  change Avoids f (a.requireSigner >>= g a)
  rw [hsigner]
  exact hg a ha

/-- What follows a step knows what came out of it. -/
theorem lift_avoids_ok {x : Outcome α} {g : α → Prog β} (hx : Avoids f x)
    (hg : ∀ a, x = .ok a → Comp.Avoids f (g a)) : Comp.Avoids f ((liftM x : Prog α) >>= g) :=
  .bind (Q := fun a => x = .ok a) (.ofExcept hx) (.ofExcept fun _ h => h) hg

/-- And in a program that invokes others. -/
theorem Suits.signer_then {g : AccountInfo → Unit → Prog β} (h : Suits f accounts n)
    (hf : Undeclared f) (hi : i ∈ n.signs) (hg : ∀ a, Comp.Avoids f (g a ())) :
    Comp.Avoids f ((liftM (slot accounts i) : Prog AccountInfo) >>= fun a =>
      (liftM a.requireSigner : Prog Unit) >>= g a) := by
  refine lift_avoids_ok (declares_slot hf) fun a ha => lift_avoids ?_ fun _ => hg a
  obtain ⟨b, hb, hs⟩ := h.signs i hi
  obtain rfl : a = b := Option.some.inj ((slot_eq_ok ha).symm.trans hb)
  unfold AccountInfo.requireSigner
  rw [hs]
  exact nofun

end

/-! ## The programs that invoke no other -/

/-- The system program looks at no writable flag; these are the slots that it changes. -/
def systemNeeds : System.SystemInstruction → Needs
  | .createAccount .. | .transfer _ => ⟨[0, 1], [0], 2⟩
  | .createAccountWithAnchor .. => ⟨[1], [0], 2⟩
  | .assign _ | .allocate _ => ⟨[0], [0], 1⟩

def tokenNeeds : Token.TokenInstruction → Needs
  | .initializeMint .. | .revoke | .freezeAccount | .thawAccount => ⟨[0], [], 1⟩
  | .initializeAccount | .approve _ => ⟨[0], [], 2⟩
  | .mintTo _ | .transfer _ | .burn _ => ⟨[0, 1], [2], 3⟩
  | .closeAccount => ⟨[0, 1], [], 2⟩

def nftMetadataNeeds : NftMetadata.MetadataInstruction → Needs
  | .create .. => ⟨[0], [], 3⟩
  | _ => ⟨[0], [], 2⟩

def lendingNeeds : Needs := ⟨[0], [1], 2⟩

def runesNeeds : Runes.RuneInstruction → Needs
  | .initBalance => ⟨[0], [], 2⟩
  | _ => ⟨[0, 1], [2], 3⟩

def oracleNeeds : Needs := ⟨[0], [1], 2⟩

section
variable {β : Type} {f : Fault} {accounts : List AccountInfo} {data : List UInt8}
  {timestamp : UInt64} {π : Profile}

theorem declares_ensureSigners {n : Needs} (h : Suits f accounts n) (hi : 0 ∈ n.signs) :
    Avoids f (System.ensureSigners accounts 0) := by
  obtain ⟨a, ha, hs⟩ := h.signs 0 hi
  unfold System.ensureSigners
  rw [ha]
  change Avoids f (require a.isSigner .missingSigner)
  rw [hs]
  exact nofun

theorem declares_deductLamports {a : AccountInfo} {lamports : UInt64} (hf : Undeclared f) :
    Avoids f (System.deductLamports a lamports) := by
  unfold System.deductLamports
  cases checkedSub a.lamports lamports with
  | none => exact avoids_error.mpr (hf.ne id)
  | some left => exact nofun

theorem declares_creditLamports {a : AccountInfo} {lamports : UInt64} (hf : Undeclared f) :
    Avoids f (System.creditLamports a lamports) := by
  unfold System.creditLamports
  cases checkedAdd a.lamports lamports with
  | none => exact avoids_error.mpr (hf.ne id)
  | some sum => exact nofun

theorem system_declares (hf : Undeclared f) {ix : System.SystemInstruction}
    (h : Suits f accounts (systemNeeds ix)) : Avoids f (System.run accounts ix) := by
  cases ix with
  | createAccount lamports space owner =>
    exact .bind (declares_ensureSigners h List.mem_cons_self) fun _ =>
      .bind (declares_slot hf) fun _ => .bind (declares_deductLamports hf) fun _ =>
      .bind (declares_slot hf) fun _ => .bind (declares_require hf id) fun _ =>
      .bind (declares_zeroed hf) fun _ => avoids_pure
  | createAccountWithAnchor utxo space owner =>
    exact .bind (declares_ensureSigners h List.mem_cons_self) fun _ =>
      .bind (declares_slot hf) fun _ => .bind (declares_require hf id) fun _ =>
      .bind (declares_zeroed hf) fun _ => avoids_pure
  | transfer lamports =>
    exact .bind (declares_ensureSigners h List.mem_cons_self) fun _ =>
      .bind (declares_enough h.count) fun _ => .bind (declares_slot hf) fun _ =>
      .bind (declares_deductLamports hf) fun _ => .bind (declares_slot hf) fun _ =>
      .bind (declares_creditLamports hf) fun _ => avoids_pure
  | assign owner =>
    exact .bind (declares_ensureSigners h List.mem_cons_self) fun _ =>
      .bind (declares_slot hf) fun _ => avoids_pure
  | allocate space =>
    refine .bind (declares_ensureSigners h List.mem_cons_self) fun _ =>
      .bind (declares_slot hf) fun a => ?_
    split
    · exact .bind (declares_zeroed hf) fun _ => avoids_pure
    · exact avoids_pure

theorem declares_requireThirdSigner {n : Needs} (h : Suits f accounts n) (hi : 2 ∈ n.signs) :
    Avoids f (Token.requireThirdSigner accounts) := by
  obtain ⟨a, ha, hs⟩ := h.signs 2 hi
  unfold Token.requireThirdSigner
  rw [ha]
  change Avoids f (require a.isSigner .missingSigner)
  rw [hs]
  exact nofun

/-- The two writes of an instruction that moves tokens. -/
theorem Suits.store_pair {α γ : Type} [Borsh α] [Borsh γ] {n : Needs} {i j : Nat} {v : α} {w : γ}
    (h : Suits f accounts n) (hf : Undeclared f) (hi : i ∈ n.writes) (hj : j ∈ n.writes) :
    Avoids f (store accounts i v >>= fun mid => store mid j w) :=
  h.store_then hf hi fun _ hmid => hmid.stores hf hj

theorem token_declares (hf : Undeclared f) {ix : Token.TokenInstruction}
    (h : Suits f accounts (tokenNeeds ix)) : Avoids f (Token.run π accounts ix) := by
  cases ix with
  | initializeMint =>
    exact .bind (declares_loadOr hf) fun _ => .bind (declares_require hf id) fun _ =>
      h.stores hf List.mem_cons_self
  | initializeAccount =>
    exact .bind (declares_slot hf) fun _ => .bind (declares_require hf id) fun _ =>
      .bind (declares_loadOr hf) fun _ => .bind (declares_require hf id) fun _ =>
      h.stores hf List.mem_cons_self
  | mintTo amount =>
    have hpair : Suits f accounts ⟨[0, 1], [2], 3⟩ := h
    exact .bind (declares_requireThirdSigner h List.mem_cons_self) fun _ =>
      .bind (declares_load hf) fun _ => .bind (declares_load hf) fun _ =>
      .bind (declares_slot hf) fun _ => .bind (declares_require hf id) fun _ =>
      .bind (declares_require hf id) fun _ => .bind (declares_okOr hf id) fun _ =>
      .bind (declares_okOr hf id) fun _ => hpair.store_pair hf (by decide) (by decide)
  | transfer amount =>
    have hpair : Suits f accounts ⟨[0, 1], [2], 3⟩ := h
    exact .bind (declares_requireThirdSigner h List.mem_cons_self) fun _ =>
      .bind (declares_load hf) fun _ => .bind (declares_load hf) fun _ =>
      .bind (declares_require hf id) fun _ => .bind (declares_require hf id) fun _ =>
      .bind (declares_okOr hf id) fun _ => .bind (declares_okOr hf id) fun _ =>
      hpair.store_pair hf (by decide) (by decide)
  | burn amount =>
    have hpair : Suits f accounts ⟨[0, 1], [2], 3⟩ := h
    exact .bind (declares_requireThirdSigner h List.mem_cons_self) fun _ =>
      .bind (declares_load hf) fun _ => .bind (declares_load hf) fun _ =>
      .bind (declares_require hf id) fun _ => .bind (declares_okOr hf id) fun _ =>
      .bind (declares_okOr hf id) fun _ => hpair.store_pair hf (by decide) (by decide)
  | approve amount =>
    exact .bind (declares_load hf) fun _ => .bind (declares_slot hf) fun _ =>
      h.stores hf List.mem_cons_self
  | revoke => exact .bind (declares_load hf) fun _ => h.stores hf List.mem_cons_self
  | freezeAccount => exact .bind (declares_load hf) fun _ => h.stores hf List.mem_cons_self
  | thawAccount =>
    exact .bind (declares_load hf) fun _ => .bind (declares_require hf id) fun _ =>
      h.stores hf List.mem_cons_self
  | closeAccount =>
    exact .bind (declares_load hf) fun _ => .bind (declares_require hf id) fun _ =>
      .bind (declares_slot hf) fun _ => .bind (declares_slot hf) fun _ =>
      .bind (declares_orPanic hf) fun _ => avoids_pure

theorem nftMetadata_declares (hf : Undeclared f) {ix : NftMetadata.MetadataInstruction}
    (h : Suits f accounts (nftMetadataNeeds ix)) : Avoids f (NftMetadata.run π accounts ix) := by
  cases ix with
  | create =>
    exact .bind (declares_slot hf) fun _ => .bind (declares_slot hf) fun _ =>
      .bind (declares_slot hf) fun _ => .bind (declares_require hf id) fun _ =>
      .bind (declares_orPanic hf) fun _ => .bind (declares_require hf id) fun _ =>
      h.stores hf List.mem_cons_self
  | update =>
    exact .bind (declares_load hf) fun _ => .bind (declares_require hf id) fun _ =>
      .bind (declares_slot hf) fun _ => .bind (declares_require hf id) fun _ =>
      h.stores hf List.mem_cons_self
  | verifyCreator =>
    exact .bind (declares_load hf) fun _ => .bind (declares_slot hf) fun _ =>
      h.stores hf List.mem_cons_self
  | makeImmutable =>
    exact .bind (declares_load hf) fun _ => .bind (declares_slot hf) fun _ =>
      .bind (declares_require hf id) fun _ => h.stores hf List.mem_cons_self

theorem lending_declares (hf : Undeclared f) {hasher : Lending.Hasher}
    {ix : Lending.LendingInstruction} (h : Suits f accounts lendingNeeds) :
    Avoids f (Lending.run π hasher accounts timestamp ix) := by
  cases ix with
  | initCollection =>
    exact .bind (declares_slot hf) fun _ => .bind (declares_require hf id) fun _ =>
      h.stores hf List.mem_cons_self
  | placeBid =>
    exact .bind (declares_load hf) fun _ => .bind (declares_require hf id) fun _ =>
      h.stores hf List.mem_cons_self
  | cancelBid =>
    exact .bind (declares_load hf) fun _ => .bind (declares_require hf id) fun _ =>
      h.stores hf List.mem_cons_self
  | acceptBid =>
    exact .bind (declares_load hf) fun _ => .bind (declares_require hf id) fun _ =>
      .bind (declares_require hf id) fun _ => .bind (declares_okOr hf id) fun _ =>
      h.stores hf List.mem_cons_self
  | repayLoan =>
    refine .bind (declares_load hf) fun _ => .bind (declares_okOr hf id) fun loan => ?_
    dsimp only
    split
    · exact .bind (h.stores hf List.mem_cons_self) fun _ => declares_fail hf id
    · refine .bind (declares_require hf id) fun _ => .bind (declares_orPanic hf) fun _ => ?_
      split
      · exact h.stores hf List.mem_cons_self
      · exact h.stores hf List.mem_cons_self
  | claimDefault =>
    exact .bind (declares_load hf) fun _ => .bind (declares_okOr hf id) fun _ =>
      .bind (declares_require hf id) fun _ => h.stores hf List.mem_cons_self

theorem declares_requireAuthority {n : Needs} (h : Suits f accounts n) (hi : 2 ∈ n.signs)
    (hcount : 3 ≤ n.count) : Avoids f (Runes.requireAuthority accounts) := by
  refine .bind (declares_enough (Nat.le_trans hcount h.count)) fun _ => ?_
  obtain ⟨a, ha, hs⟩ := h.signs 2 hi
  have hslot : slot accounts 2 = .ok a := orPanic_eq_ok.mpr ha
  have hsigner : a.requireSigner = .ok () := require_eq_ok.mpr hs
  rw [hslot]
  change Avoids f a.requireSigner
  rw [hsigner]
  exact nofun

theorem runes_declares (hf : Undeclared f) {ix : Runes.RuneInstruction}
    (h : Suits f accounts (runesNeeds ix)) : Avoids f (Runes.run accounts timestamp ix) := by
  cases ix with
  | etch name symbol divisibility premine terms =>
    have hpair : Suits f accounts ⟨[0, 1], [2], 3⟩ := h
    refine .bind (declares_requireAuthority h List.mem_cons_self (Nat.le_refl 3)) fun _ =>
      .bind (declares_require hf id) fun _ => .bind (declares_require hf id) fun _ =>
      .bind (declares_slot hf) fun _ => .bind (declares_slot hf) fun _ =>
      .bind (declares_loadOr hf) fun _ => .bind (declares_require hf id) fun _ =>
      hpair.store_then hf (by decide) fun mid hmid => ?_
    split
    · exact .bind (declares_loadOr hf) fun _ => .bind (declares_okOr hf id) fun _ =>
        hmid.stores hf (by decide)
    · exact avoids_pure
  | mint =>
    have hpair : Suits f accounts ⟨[0, 1], [2], 3⟩ := h
    exact .bind (declares_requireAuthority h List.mem_cons_self (Nat.le_refl 3)) fun _ =>
      .bind (declares_slot hf) fun _ => .bind (declares_load hf) fun _ =>
      .bind (declares_require hf id) fun _ => .bind (declares_okOr hf id) fun _ =>
      .bind (declares_require hf id) fun _ => .bind (declares_require hf id) fun _ =>
      .bind (declares_require hf id) fun _ => .bind (declares_okOr hf id) fun _ =>
      .bind (declares_okOr hf id) fun _ => hpair.store_then hf (by decide) fun mid hmid =>
      .bind (declares_loadOr hf) fun _ => .bind (declares_slot hf) fun _ =>
      .bind (declares_okOr hf id) fun _ => hmid.stores hf (by decide)
  | transfer amount =>
    have hpair : Suits f accounts ⟨[0, 1], [2], 3⟩ := h
    exact .bind (declares_requireAuthority h List.mem_cons_self (Nat.le_refl 3)) fun _ =>
      .bind (declares_load hf) fun _ => .bind (declares_require hf id) fun _ =>
      .bind (declares_loadOr hf) fun _ => .bind (declares_require hf id) fun _ =>
      .bind (declares_okOr hf id) fun _ => .bind (declares_slot hf) fun _ =>
      .bind (declares_okOr hf id) fun _ => hpair.store_pair hf (by decide) (by decide)
  | burn amount =>
    have hpair : Suits f accounts ⟨[0, 1], [2], 3⟩ := h
    exact .bind (declares_requireAuthority h List.mem_cons_self (Nat.le_refl 3)) fun _ =>
      .bind (declares_load hf) fun _ => .bind (declares_load hf) fun _ =>
      .bind (declares_require hf id) fun _ => .bind (declares_okOr hf id) fun _ =>
      .bind (declares_okOr hf id) fun _ => hpair.store_pair hf (by decide) (by decide)
  | initBalance =>
    exact .bind (declares_enough h.count) fun _ => .bind (declares_slot hf) fun _ =>
      .bind (declares_loadOr hf) fun _ => .bind (declares_require hf id) fun _ =>
      h.stores hf List.mem_cons_self

/-- The authority of a feed has signed. -/
theorem declares_oracleAuthority (hf : Undeclared f) {feed : Oracle.PriceFeed}
    (h : Suits f accounts oracleNeeds) : Avoids f (Oracle.requireAuthority feed accounts) :=
  h.signer List.mem_cons_self fun _ _ => declares_require hf id

theorem oracle_declares (hf : Undeclared f) {ix : Oracle.OracleInstruction}
    (h : Suits f accounts oracleNeeds) : Avoids f (Oracle.run π accounts timestamp ix) := by
  cases ix with
  | initFeed =>
    exact h.signer List.mem_cons_self fun _ _ => .bind (declares_loadOr hf) fun _ =>
      .bind (declares_require hf id) fun _ => h.stores hf List.mem_cons_self
  | updatePrice price =>
    refine h.signer List.mem_cons_self fun _ _ => .bind (declares_load hf) fun feed =>
      .bind (declares_require hf id) fun _ => .bind (declares_require hf id) fun _ =>
      .bind (declares_okOr hf id) fun _ => ?_
    dsimp only
    split
    · exact h.stores hf List.mem_cons_self
    · refine .bind (declares_okOr hf id) fun _ => ?_
      split
      · exact .bind (declares_orPanic hf) fun _ => .bind (declares_require hf id) fun _ =>
          h.stores hf List.mem_cons_self
      · exact h.stores hf List.mem_cons_self
  | addPublisher publisher =>
    exact .bind (declares_load hf) fun _ => .bind (declares_require hf id) fun _ =>
      .bind (declares_oracleAuthority hf h) fun _ => .bind (declares_require hf id) fun _ =>
      .bind (declares_require hf id) fun _ => h.stores hf List.mem_cons_self
  | removePublisher publisher =>
    exact .bind (declares_load hf) fun _ => .bind (declares_require hf id) fun _ =>
      .bind (declares_oracleAuthority hf h) fun _ => .bind (declares_require hf id) fun _ =>
      .bind (declares_require hf id) fun _ => h.stores hf List.mem_cons_self

end

end Proof
end Himsha
