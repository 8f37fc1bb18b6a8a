import Himsha.Proof.Frames
import Himsha.Proof.OwnerGate

/-!
# Accounts listed read-only

The writable flag is enforced where data is encoded, and an instruction that writes nothing else
leaves its read-only slots as they were, through any invocation (`readOnly`). Six instructions
change slots without looking at the flag, the five of the system program and the closing of a token
account. `heedsFlags` says when these happen to spare the read-only ones.
-/

set_option autoImplicit false

namespace Himsha
namespace Proof

open Himsha.Lib Himsha.Runtime Himsha.Programs Himsha.Vm

/-- No account that was listed read-only is different. -/
def ReadOnlyKept (accounts out : List AccountInfo) : Prop :=
  List.Forall₂ (fun a b => a.isWritable = false → sameState a b = true) accounts out

theorem sameState_iff {a b : AccountInfo} : sameState a b = true ↔
    a.lamports = b.lamports ∧ a.data = b.data ∧ a.owner = b.owner ∧
      a.executable = b.executable ∧ a.utxo = b.utxo := by
  simp [sameState, and_assoc]

/-- A read-only slot is the same, and stays read-only. -/
def readOnly : SlotRel where
  R a b := b.isWritable = a.isWritable ∧ (a.isWritable = false → sameState a b = true)
  refl a := ⟨rfl, fun _ => sameState_refl a⟩
  trans := by
    rintro a b c ⟨hflag, hsame⟩ ⟨hflag', hsame'⟩
    refine ⟨hflag'.trans hflag, fun hreadonly => ?_⟩
    obtain ⟨h₁, h₂, h₃, h₄, h₅⟩ := sameState_iff.mp (hsame hreadonly)
    obtain ⟨h₁', h₂', h₃', h₄', h₅'⟩ := sameState_iff.mp (hsame' (hflag ▸ hreadonly))
    exact sameState_iff.mpr ⟨h₁.trans h₁', h₂.trans h₂', h₃.trans h₃', h₄.trans h₄', h₅.trans h₅'⟩
  data data hw := ⟨rfl, fun hreadonly => absurd hw (by simp [hreadonly])⟩
  signer a isSigner := ⟨rfl, fun _ => sameState_iff.mpr ⟨rfl, rfl, rfl, rfl, rfl⟩⟩
  owner owner h hchanged :=
    ⟨h.1, fun hreadonly => absurd (h.2 hreadonly) (by simp [hchanged])⟩

/-! ## The gate -/

section
variable {programId : Pubkey} {pre post out : AccountInfo} {th th' : Thread}

/-- The gate hides no change. -/
theorem Gated.sameState_iff (h : Gated programId pre post th out th') :
    sameState pre out = true ↔ sameState pre post = true := by
  cases h with
  | first hchanged hblank =>
    unfold claimed
    split
    · rename_i howner
      rw [beq_iff_eq] at howner
      simp only [hchanged, Bool.false_eq_true, iff_false]
      intro hsame
      obtain ⟨h₁, h₂, -, h₄, h₅⟩ := Proof.sameState_iff.mp hsame
      have hback : sameState pre post = true :=
        Proof.sameState_iff.mpr ⟨h₁, h₂, howner.symm, h₄, h₅⟩
      simp [hchanged] at hback
    · rfl
  | _ => rfl

theorem gate_readOnly {before : List AccountInfo} :
    ∀ {after out : List AccountInfo} {th th' : Thread}, before.length = after.length →
      Comp.Returns (gate programId before after) th out th' →
      (ReadOnlyKept before out ↔ ReadOnlyKept before after) := by
  induction before with
  | nil =>
    intro after out th th' hlen h
    obtain rfl : after = [] := List.length_eq_zero_iff.mp hlen.symm
    obtain ⟨rfl, -⟩ := Comp.returns_pure.mp h
    exact Iff.rfl
  | cons pre before ih =>
    intro after out th th' hlen h
    cases after with
    | nil => simp at hlen
    | cons post after =>
      obtain ⟨o, th₁, os, hhead, htail, rfl⟩ := gate_cons.mp h
      have hrest := ih (by simpa using hlen) htail
      unfold ReadOnlyKept at hrest ⊢
      rw [List.forall₂_cons, List.forall₂_cons, hrest, (validateWrite_gated hhead).sameState_iff]

end

/-! ## The instructions that do not look at the flag -/

/-- The account in slot `i` is writable, or the instruction leaves it as it is. -/
def Heeds (accounts : List AccountInfo) (i : Nat) (idle : AccountInfo → Prop) : Prop :=
  ∀ a ∈ accounts[i]?, a.isWritable = false → idle a

instance (accounts : List AccountInfo) (i : Nat) (idle : AccountInfo → Prop)
    [DecidablePred idle] : Decidable (Heeds accounts i idle) :=
  inferInstanceAs (Decidable (∀ a ∈ accounts[i]?, a.isWritable = false → idle a))

/-- Where a system instruction spares the read-only slots: it moves nothing, allocates nothing and
    assigns the owner that is there already. -/
def systemHeeds (accounts : List AccountInfo) : System.SystemInstruction → Prop
  | .createAccount lamports space owner =>
      Heeds accounts 0 (fun _ => lamports = 0) ∧
        Heeds accounts 1 fun a => lamports = 0 ∧ space = 0 ∧ a.owner = owner
  | .createAccountWithAnchor utxo space owner =>
      Heeds accounts 1 fun a => space = 0 ∧ a.owner = owner ∧ a.utxo = some utxo
  | .transfer lamports =>
      Heeds accounts 0 (fun _ => lamports = 0) ∧ Heeds accounts 1 fun _ => lamports = 0
  | .assign owner => Heeds accounts 0 fun a => a.owner = owner
  | .allocate space => Heeds accounts 0 fun a => space.toNat ≤ a.data.length

/-- Where an instruction spares the read-only slots. A token account that is closed has to be
    writable, and its destination as well, unless there is nothing to send there. -/
def heedsFlags (programId : Pubkey) (accounts : List AccountInfo) (data : List UInt8) : Prop :=
  if programId = ProgramIds.systemProgram then
    ∀ ix ∈ (tryFromSlice data : Option System.SystemInstruction), systemHeeds accounts ix
  else if programId = ProgramIds.tokenProgram then
    tryFromSlice data = some Token.TokenInstruction.closeAccount →
      Heeds accounts 0 (fun _ => False) ∧
        Heeds accounts 1 fun _ => ∀ a ∈ accounts[0]?, a.lamports = 0
  else True

instance (accounts : List AccountInfo) : DecidablePred (systemHeeds accounts)
  | .createAccount .. => inferInstanceAs (Decidable (Heeds .. ∧ Heeds ..))
  | .createAccountWithAnchor .. => inferInstanceAs (Decidable (Heeds ..))
  | .transfer .. => inferInstanceAs (Decidable (Heeds .. ∧ Heeds ..))
  | .assign .. => inferInstanceAs (Decidable (Heeds ..))
  | .allocate .. => inferInstanceAs (Decidable (Heeds ..))

instance (programId : Pubkey) (accounts : List AccountInfo) (data : List UInt8) :
    Decidable (heedsFlags programId accounts data) :=
  inferInstanceAs (Decidable (if programId = ProgramIds.systemProgram then _
    else if programId = ProgramIds.tokenProgram then _ else True))

section
variable {a b a' b' : AccountInfo} {rest mid : List AccountInfo}

theorem ReadOnlyKept.refl (accounts : List AccountInfo) : ReadOnlyKept accounts accounts :=
  List.forall₂_same.mpr fun a _ _ => sameState_refl a

theorem readOnlyKept_first : ReadOnlyKept (a :: rest) (a' :: rest) ↔
    (a.isWritable = false → sameState a a' = true) := by
  unfold ReadOnlyKept
  rw [List.forall₂_cons]
  exact and_iff_left (ReadOnlyKept.refl rest)

theorem readOnlyKept_pair : ReadOnlyKept (a :: b :: rest) (a' :: b' :: rest) ↔
    (a.isWritable = false → sameState a a' = true) ∧
      (b.isWritable = false → sameState b b' = true) := by
  unfold ReadOnlyKept
  rw [List.forall₂_cons, List.forall₂_cons]
  exact and_congr_right fun _ => and_iff_left (ReadOnlyKept.refl rest)

theorem heeds_first {idle : AccountInfo → Prop} :
    Heeds (a :: rest) 0 idle ↔ (a.isWritable = false → idle a) := by
  simp [Heeds]

theorem heeds_second {idle : AccountInfo → Prop} :
    Heeds (a :: b :: rest) 1 idle ↔ (b.isWritable = false → idle b) := by
  simp [Heeds]

/-- An amount that can be taken from a balance leaves it as it was only if it is zero. -/
theorem eq_left_iff {held n left : UInt64} (h : left.toNat + n.toNat = held.toNat) :
    held = left ↔ n = 0 := by
  rw [← UInt64.toNat_inj, ← UInt64.toNat_inj, UInt64.toNat_zero]
  omega

theorem eq_add_iff {held n : UInt64} : held = held + n ↔ n = 0 := by
  constructor
  · intro h
    have hsum := congrArg UInt64.toNat h
    rw [UInt64.toNat_add] at hsum
    have hheld := held.toNat_lt
    have hn := n.toNat_lt
    rw [← UInt64.toNat_inj, UInt64.toNat_zero]
    omega
  · rintro rfl
    simp

end

theorem zeroed_gives (space : UInt64) :
    Gives (zeroed space) fun data => data = List.replicate space.toNat 0 := by
  intro data h
  unfold zeroed at h
  split at h
  · exact (Except.ok.inj h).symm
  · simp at h

theorem eq_cons_of_first {accounts : List AccountInfo} {a : AccountInfo}
    (ha : accounts[0]? = some a) : ∃ rest, accounts = a :: rest := by
  cases accounts with
  | nil => simp at ha
  | cons a' rest => exact ⟨rest, by simpa using ha⟩

theorem ensureSigners_signed {accounts : List AccountInfo} {u : Unit}
    (h : System.ensureSigners accounts 0 = .ok u) :
    ∃ a, accounts[0]? = some a ∧ a.isSigner = true := by
  unfold System.ensureSigners at h
  split at h
  · rename_i a ha
    exact ⟨a, ha, require_eq_ok.mp h⟩
  · simp at h

/-- The five instructions of the system program. -/
theorem system_heeds (accounts : List AccountInfo) (ix : System.SystemInstruction) :
    Gives (System.run accounts ix) fun mid =>
      ReadOnlyKept accounts mid ↔ systemHeeds accounts ix := by
  cases ix with
  | createAccount lamports space owner =>
    refine .seq fun _ => .bind (slot_gives accounts 0) fun a ha =>
      .bind (deductLamports_gives a lamports) fun a' ha' => .bind (slot_gives _ 1) fun b hb =>
      .bind (Q := fun _ => b.lamports = 0 ∧ b.data = []) (fun _ h => ?_) fun _ hfresh =>
      .bind (zeroed_gives space) fun data hdata => .ok ?_
    · simpa [System.requireFresh] using h
    obtain ⟨left, hsub, rfl⟩ := ha'
    rw [List.getElem?_set_ne (by simp)] at hb
    obtain ⟨rest, rfl⟩ := eq_cons_cons ha hb
    subst hdata
    obtain ⟨hlamports, hempty⟩ := hfresh
    have hspace : ([] : List UInt8) = List.replicate space.toNat 0 ↔ space = 0 := by
      rw [eq_comm, List.replicate_eq_nil_iff, ← UInt64.toNat_inj, UInt64.toNat_zero]
    simp only [List.set_cons_zero, List.set_cons_succ, readOnlyKept_pair, sameState_iff,
      systemHeeds, heeds_first, heeds_second, hlamports, hempty, eq_left_iff hsub, hspace,
      and_true, @eq_comm UInt64 0]
  | createAccountWithAnchor utxo space owner =>
    refine .bind (Q := fun _ => ∃ a, accounts[0]? = some a ∧ a.isSigner = true)
      (fun _ h => ensureSigners_signed h) fun _ hfirst => .bind (slot_gives accounts 1) fun b hb =>
      .bind (Q := fun _ => b.data = []) (fun _ h => ?_) fun _ hempty =>
      .bind (zeroed_gives space) fun data hdata => .ok ?_
    · simp only [System.requireFresh, require_eq_ok, Bool.and_eq_true, List.isEmpty_iff] at h
      exact h.2
    obtain ⟨a, ha, -⟩ := hfirst
    obtain ⟨rest, rfl⟩ := eq_cons_cons ha hb
    subst hdata
    have hspace : ([] : List UInt8) = List.replicate space.toNat 0 ↔ space = 0 := by
      rw [eq_comm, List.replicate_eq_nil_iff, ← UInt64.toNat_inj, UInt64.toNat_zero]
    simp only [List.set_cons_zero, List.set_cons_succ, readOnlyKept_pair, sameState_refl,
      sameState_iff, systemHeeds, heeds_second, hempty, hspace, implies_true, true_and]
  | transfer lamports =>
    refine .seq fun _ => .seq fun _ => .bind (slot_gives accounts 0) fun a ha =>
      .bind (deductLamports_gives a lamports) fun a' ha' => .bind (slot_gives _ 1) fun b hb =>
      .bind (creditLamports_gives b lamports) fun b' hb' => .ok ?_
    obtain ⟨left, hsub, rfl⟩ := ha'
    rw [List.getElem?_set_ne (by simp)] at hb
    obtain ⟨rest, rfl⟩ := eq_cons_cons ha hb
    subst hb'
    simp only [List.set_cons_zero, List.set_cons_succ, readOnlyKept_pair, sameState_iff,
      systemHeeds, heeds_first, heeds_second, eq_left_iff hsub, eq_add_iff, and_true]
  | assign owner =>
    refine .seq fun _ => .bind (slot_gives accounts 0) fun a ha => .ok ?_
    obtain ⟨rest, rfl⟩ := eq_cons_of_first ha
    simp only [List.set_cons_zero, readOnlyKept_first, sameState_iff, systemHeeds, heeds_first,
      true_and, and_true]
  | allocate space =>
    refine .seq fun _ => .bind (slot_gives accounts 0) fun a ha => ?_
    obtain ⟨rest, rfl⟩ := eq_cons_of_first ha
    by_cases hgrow : space.toNat > a.data.length
    · rw [if_pos hgrow]
      refine .bind (zeroed_gives space) fun data hdata => .ok ?_
      subst hdata
      have hlonger : a.data ≠ a.data ++ (List.replicate space.toNat 0).drop a.data.length := by
        intro heq
        have hlen := congrArg List.length heq
        simp only [List.length_append, List.length_drop, List.length_replicate] at hlen
        omega
      simp only [List.set_cons_zero, readOnlyKept_first, sameState_iff, systemHeeds, heeds_first,
        hlonger, false_and, and_false, Nat.not_le.mpr hgrow]
    · rw [if_neg hgrow]
      refine .ok ?_
      simp only [systemHeeds, heeds_first, Nat.not_lt.mp hgrow, implies_true, iff_true]
      exact ReadOnlyKept.refl _

/-- The closing of a token account. -/
theorem closeAccount_heeds (π : Profile) (accounts : List AccountInfo) :
    Gives (Token.run π accounts .closeAccount) fun mid => ReadOnlyKept accounts mid ↔
      Heeds accounts 0 (fun _ => False) ∧
        Heeds accounts 1 fun _ => ∀ a ∈ accounts[0]?, a.lamports = 0 := by
  intro mid h
  obtain ⟨token, hload, h₁⟩ := bind_eq_ok.mp h
  obtain ⟨_, -, h₂⟩ := bind_eq_ok.mp h₁
  obtain ⟨a, ha, h₃⟩ := bind_eq_ok.mp h₂
  obtain ⟨b, hb, h₄⟩ := bind_eq_ok.mp h₃
  obtain ⟨lamports, hsum, h₅⟩ := bind_eq_ok.mp h₄
  obtain ⟨rest, rfl⟩ := eq_cons_cons (slot_eq_ok ha) (slot_eq_ok hb)
  obtain ⟨a', ha', hdata⟩ := load_eq_ok hload
  cases ha'
  cases h₅
  have hlamports := addU64_eq (orPanic_eq_ok.mp hsum)
  subst hlamports
  have hheld : a.data ≠ [] := by
    intro hnil
    rw [hnil, Token.token_nil] at hdata
    cases hdata
  simp only [List.set_cons_zero, List.set_cons_succ, readOnlyKept_pair, sameState_iff, heeds_first,
    heeds_second, hheld, eq_add_iff, and_true, and_false, List.getElem?_cons_zero,
    Option.mem_some_iff, forall_eq']

/-- **What a built-in does to its read-only slots.** They are the same after a run that succeeds,
    with everything it invoked, exactly where the instruction heeds their flags. All but six
    instructions do by themselves. -/
theorem readOnly_kept_iff {π : Profile} {hasher : Lending.Hasher} {programId : Pubkey}
    {accounts out : List AccountInfo} {data : List UInt8} {timestamp : UInt64} {th th' : Thread}
    (h : Comp.Returns (dispatch π hasher programId accounts data timestamp) th out th') :
    ReadOnlyKept accounts out ↔ heedsFlags programId accounts data := by
  obtain ⟨_, _, -, h₁⟩ := Comp.returns_bind.mp h
  obtain ⟨mid, _, hrun, hgate⟩ := Comp.returns_bind.mp h₁
  obtain ⟨hlen, hgate'⟩ := validateWrites_returns.mp hgate
  rw [gate_readOnly hlen hgate']
  unfold heedsFlags
  by_cases hsys : programId = ProgramIds.systemProgram
  · unfold runBuiltin at hrun
    rw [if_pos hsys] at hrun ⊢
    obtain ⟨ix, hix, hmid⟩ := bind_eq_ok.mp (Comp.returns_ofExcept.mp hrun).1
    rw [okOr_eq_ok.mp hix]
    simpa using system_heeds accounts ix mid hmid
  rw [if_neg hsys]
  by_cases hclose : programId = ProgramIds.tokenProgram ∧
      tryFromSlice data = some Token.TokenInstruction.closeAccount
  · obtain ⟨rfl, hdata⟩ := hclose
    rw [runBuiltin_token] at hrun
    rw [if_pos rfl, hdata]
    obtain ⟨ix, hix, hmid⟩ := bind_eq_ok.mp (Comp.returns_ofExcept.mp hrun).1
    rw [okOr_eq_ok, hdata, Option.some.injEq] at hix
    subst hix
    simpa using closeAccount_heeds π accounts mid hmid
  · have hkept := SlotRel.runBuiltin_kept (S := readOnly) π hasher accounts timestamp hsys
      (fun htoken hdata => hclose ⟨htoken, hdata⟩) _ _ _ hrun
    refine ⟨fun _ => ?_, fun _ => hkept.imp fun _ _ hslot => hslot.2⟩
    split
    · rename_i htoken
      exact fun hdata => absurd ⟨htoken, hdata⟩ hclose
    · trivial

/-- Two wallets, the second listed with the given flag. -/
def purses (writable : Bool) : List AccountInfo :=
  [{ key := .repeated 1, lamports := 10, data := [], owner := ProgramIds.systemProgram
     isSigner := true },
    { key := .repeated 2, lamports := 3, data := [], owner := ProgramIds.systemProgram
      isWritable := writable }]

/-- A transfer between them, and what the two slots hold afterwards. -/
def transferPurses (writable : Bool) : Except Fault (List AccountInfo) × Thread :=
  Comp.exec (dispatch .dev .sorted ProgramIds.systemProgram (purses writable)
    ((toVec (System.SystemInstruction.transfer 4)).getD []) 0) {}

theorem readOnly_kept_transfer : ∃ out, (transferPurses true).1 = .ok out ∧
    ReadOnlyKept (purses true) out := by
  obtain ⟨out, hout⟩ : ∃ out, (transferPurses true).1 = .ok out := ⟨_, rfl⟩
  have hreturns : Comp.Returns _ ({} : Thread) out _ := Prod.ext hout rfl
  exact ⟨out, hout, (readOnly_kept_iff hreturns).mpr (by decide)⟩

/-- **A read-only account is credited.** The destination of a system transfer that is listed
    read-only ends up with the amount. -/
theorem readOnly_credited : ¬ ∀ (π : Profile) (hasher : Lending.Hasher) (programId : Pubkey)
    (accounts : List AccountInfo) (data : List UInt8) (timestamp : UInt64)
    (out : List AccountInfo), isBuiltin programId = true →
      (Comp.exec (dispatch π hasher programId accounts data timestamp) {}).1 = .ok out →
      ReadOnlyKept accounts out := by
  intro hclaim
  obtain ⟨out, hout⟩ : ∃ out, (transferPurses false).1 = .ok out := ⟨_, rfl⟩
  have hkept := hclaim .dev .sorted _ (purses false) _ 0 out (by decide) hout
  have hreturns : Comp.Returns _ ({} : Thread) out _ := Prod.ext hout rfl
  have hheeds := (readOnly_kept_iff hreturns).mp hkept
  exact absurd hheeds (by decide)

end Proof
end Himsha
