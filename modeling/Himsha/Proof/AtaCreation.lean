import Himsha.Proof.DepositRuns

/-!
# Associated token accounts

`Create` checks the address and hands an empty account to the token program, in a window of the
account and the mint; an account with data is left as it is. The window has no owner in it, so the
token program records the zero key. `ata_create_iff` says for which inputs the account comes out as
the token account of its owner and mint.
-/

set_option autoImplicit false

namespace Himsha
namespace Proof

open Himsha.Lib Himsha.Runtime Himsha.Programs Himsha.Vm

open Token

/-! ## The invocation -/

/-- What the token program records in the window of an account and a mint. -/
def openedFor (mint : Pubkey) : TokenAccountState :=
  { mint, owner := default, state := .initialized }

section
variable {π : Profile} {hasher : Lending.Hasher} {timestamp : UInt64}
  {accounts out : List AccountInfo} {data : List UInt8} {a m : AccountInfo} {th th' : Thread}

/-- The run in the window, on an account without data. -/
theorem initialize_run {mid : List AccountInfo} (hempty : a.data = [])
    (h : Token.run π [a, m] .initializeAccount = .ok mid) :
    ∃ d, toVec (openedFor m.key) = some d ∧ mid = [{ a with data := d }, m] := by
  obtain ⟨m', hm, h₁⟩ := bind_eq_ok.mp h
  obtain rfl : m = m' := Option.some.inj (slot_eq_ok hm)
  obtain ⟨_, -, h₂⟩ := bind_eq_ok.mp h₁
  obtain ⟨state, hstate, h₃⟩ := bind_eq_ok.mp h₂
  obtain ⟨_, -, h₄⟩ := bind_eq_ok.mp h₃
  obtain rfl : state = {} := by
    have hnone : tryFromSlice (α := TokenAccountState) a.data = none := by
      rw [hempty]
      decide
    unfold loadOr at hstate
    rw [show slot [a, m] 0 = .ok a from rfl] at hstate
    simpa [hnone, bind, Except.bind, pure, Except.pure] using hstate.symm
  obtain ⟨a', d, ha', -, hd, rfl⟩ := store_eq_ok h₄
  obtain rfl : a = a' := Option.some.inj ha'
  exact ⟨d, hd, rfl⟩

/-- The invocation: the account is opened, and belongs to the token program. -/
theorem initialize_call (htrail : th.approved = ∅) (ha : accounts[1]? = some a)
    (hm : accounts[3]? = some m) (hempty : a.data = [])
    (h : Comp.Returns (Token.invoke π accounts [1, 3] [] .initializeAccount) th out th') :
    ∃ d, toVec (openedFor m.key) = some d ∧
      out = accounts.set 1 { a with data := d, owner := ProgramIds.tokenProgram } := by
  obtain ⟨data, th₀, hdata, h₁⟩ := Comp.returns_bind.mp h
  obtain ⟨hvec, rfl⟩ := Comp.returns_ofExcept.mp hdata
  obtain ⟨window, after, gated, th₁, th₂, th₃, hwindow, -, hstart, hprocess, hgate, -, rfl⟩ :=
    invoke_returns h₁
  have hwin : windowOf accounts [1, 3] = .ok [a, m] := by
    simp [windowOf, ha, hm, okOr, bind, Except.bind, pure, Except.pure]
  obtain rfl : [a, m] = window := Except.ok.inj (hwin.symm.trans hwindow)
  obtain ⟨hrun, rfl⟩ := Comp.returns_ofExcept.mp hprocess
  obtain ⟨ix', hix, hrun⟩ := bind_eq_ok.mp hrun
  obtain rfl : TokenInstruction.initializeAccount = ix' := by
    have hback := tryFromSlice_toVec (okOr_eq_ok.mp hvec)
    rw [okOr_eq_ok.mp hix] at hback
    exact (Option.some.inj hback).symm
  obtain ⟨d, hd, rfl⟩ := initialize_run hempty hrun
  refine ⟨d, hd, ?_⟩
  obtain ⟨o, _, os, hfirst, htail, rfl⟩ := gate_cons.mp hgate
  obtain ⟨o', _, os', hsecond, hnone, rfl⟩ := gate_cons.mp htail
  obtain ⟨rfl, -⟩ := Comp.returns_pure.mp hnone
  obtain rfl := validateWrite_untouched hsecond
  have hdne : d ≠ [] := data_ne_nil (by decide) (tryFromSlice_toVec hd)
  have hchanges : a.data ≠ d := fun h => hdne (h.symm.trans hempty)
  obtain rfl : o = { a with data := d, owner := ProgramIds.tokenProgram } := by
    cases validateWrite_gated hfirst with
    | unchanged hsame => simp [sameState, hchanges] at hsame
    | owned _ hown => rw [← hown]
    | credited _ hcredit =>
      simp [creditOnly, Ne.symm hchanges] at hcredit
    | first _ hblank => simp [claimed]
    | again _ hlook _ =>
      rw [hstart, htrail] at hlook
      simp at hlook
  apply List.ext_getElem?
  intro n
  obtain ⟨hlt, hget⟩ := List.getElem?_eq_some_iff.mp ha
  simp only [writeBack, List.zip_cons_cons, List.zip_nil_right, List.foldl_cons, List.foldl_nil,
    List.getElem?_modify, List.getElem?_set]
  by_cases h3 : 3 = n
  · subst h3
    simp [hm]
  · by_cases h1 : 1 = n
    · subst h1
      simp [hlt, hget]
    · simp [h1, h3]

/-! ## The program -/

/-- A gate on one slot. -/
theorem gate_set {programId : Pubkey} {post : AccountInfo} {accounts : List AccountInfo} :
    ∀ {out : List AccountInfo} {i : Nat} {pre : AccountInfo} {th th' : Thread},
      accounts[i]? = some pre →
      Comp.Returns (gate programId accounts (accounts.set i post)) th out th' →
      ∃ o th₁ th₂, Comp.Returns (validateWrite programId pre post) th₁ o th₂ ∧
        out = accounts.set i o := by
  induction accounts with
  | nil =>
    intro out i pre th th' hpre
    simp at hpre
  | cons a rest ih =>
    intro out i pre th th' hpre h
    cases i with
    | zero =>
      obtain rfl : a = pre := by simpa using hpre
      obtain ⟨o, th₁, os, hhead, htail, rfl⟩ := gate_cons.mp h
      exact ⟨o, th, th₁, hhead, by rw [gate_untouched htail, List.set_cons_zero]⟩
    | succ i =>
      obtain ⟨o, th₁, os, hhead, htail, rfl⟩ := gate_cons.mp h
      obtain ⟨o', th₂, th₃, hslot, rfl⟩ := ih (by simpa using hpre) htail
      exact ⟨o', th₂, th₃, hslot, by rw [validateWrite_untouched hhead, List.set_cons_succ]⟩

/-- The checks that `Create` makes: `a` is the account for `o` and `m`. -/
structure AtaChecked (accounts : List AccountInfo) (data : List UInt8) (a o m : AccountInfo) :
    Prop where
  decoded : tryFromSlice data = some Ata.AtaInstruction.create
  enough : 4 ≤ accounts.length
  ata : accounts[1]? = some a
  owner : accounts[2]? = some o
  mint : accounts[3]? = some m
  address : Ata.getAssociatedTokenAddress o.key m.key = a.key

/-- **Inversion of `Create`.** -/
theorem ata_returns (htrail : th.approved = ∅)
    (h : Comp.Returns (Ata.process π accounts data) th out th') :
    ∃ a o m, AtaChecked accounts data a o m ∧ ((a.data ≠ [] ∧ out = accounts) ∨
      a.data = [] ∧ ∃ d, toVec (openedFor m.key) = some d ∧
        out = accounts.set 1 { a with data := d, owner := ProgramIds.tokenProgram }) := by
  obtain ⟨ix, hix, h₁⟩ := returns_lift h
  cases ix
  obtain ⟨_, henough, h₂⟩ := returns_lift h₁
  obtain ⟨a, ha, h₃⟩ := returns_lift h₂
  obtain ⟨o, ho, h₄⟩ := returns_lift h₃
  obtain ⟨m, hm, h₅⟩ := returns_lift h₄
  obtain ⟨_, haddress, h₆⟩ := returns_lift h₅
  refine ⟨a, o, m, ⟨okOr_eq_ok.mp hix, by simpa using henough, slot_eq_ok ha, slot_eq_ok ho,
    slot_eq_ok hm, by simpa using haddress⟩, ?_⟩
  split at h₆
  · rename_i hdata
    exact .inl ⟨by simpa using hdata, (Comp.returns_pure.mp h₆).1⟩
  · rename_i hdata
    have hempty : a.data = [] := by simpa using hdata
    exact .inr ⟨hempty, initialize_call htrail (slot_eq_ok ha) (slot_eq_ok hm) hempty h₆⟩

/-- An account with data is left as it is. -/
theorem ata_again {o : AccountInfo} (h : AtaChecked accounts data a o m) (hdata : a.data ≠ [])
    (th : Thread) : Comp.Returns (Ata.process π accounts data) th accounts th := by
  refine lift_returns (okOr_eq_ok.mpr h.decoded) ?_
  refine lift_returns (v := ()) (require_eq_ok.mpr (decide_eq_true h.enough)) ?_
  refine lift_returns (orPanic_eq_ok.mpr h.ata) ?_
  refine lift_returns (orPanic_eq_ok.mpr h.owner) ?_
  refine lift_returns (orPanic_eq_ok.mpr h.mint) ?_
  refine lift_returns (v := ()) (require_eq_ok.mpr (by simpa using h.address)) ?_
  rw [if_pos (by simpa using hdata)]
  rfl

/-- The outermost run of the program. -/
theorem ata_dispatch
    (h : Comp.Returns (dispatch π hasher ProgramIds.ataProgram accounts data timestamp) th out
      th') :
    ∃ a o m, AtaChecked accounts data a o m ∧ ((a.data ≠ [] ∧ out = accounts) ∨
      a.data = [] ∧ ∃ d a' th₁ th₂, toVec (openedFor m.key) = some d ∧
        Comp.Returns (validateWrite ProgramIds.ataProgram a
          { a with data := d, owner := ProgramIds.tokenProgram }) th₁ a' th₂ ∧
        out = accounts.set 1 a') := by
  obtain ⟨mid, th₀, th₁, htrail, hrun, hgate⟩ := dispatch_returns h
  obtain ⟨-, hgate'⟩ := validateWrites_returns.mp hgate
  obtain ⟨a, o, m, hchecked, ⟨hdata, rfl⟩ | ⟨hempty, d, hd, rfl⟩⟩ :=
    ata_returns (π := π) htrail hrun
  · exact ⟨a, o, m, hchecked, .inl ⟨hdata, gate_untouched hgate'⟩⟩
  · obtain ⟨a', th₂, th₃, hslot, rfl⟩ := gate_set hchecked.ata hgate'
    exact ⟨a, o, m, hchecked, .inr ⟨hempty, d, a', th₂, th₃, hd, hslot, rfl⟩⟩

/-! ## What comes out -/

/-- The second slot is a token account of the owner and the mint. -/
def HoldsAta (accounts out : List AccountInfo) : Prop :=
  ∃ a x, out[1]? = some a ∧ a.owner = ProgramIds.tokenProgram ∧
    tryFromSlice (α := TokenAccountState) a.data = some x ∧
    (x.state = .initialized ∨ x.state = .frozen) ∧
    keyAt accounts 2 = some x.owner ∧ keyAt accounts 3 = some x.mint

/-- An account with data is such a token account already; one without is for the zero key, and it is
    not a blank account of the token program. -/
def AtaFits (accounts : List AccountInfo) : Prop :=
  ∃ a, accounts[1]? = some a ∧
    ((a.data ≠ [] ∧ HoldsAta accounts accounts) ∨
      a.data = [] ∧ keyAt accounts 2 = some default ∧
        ¬ (a.owner = ProgramIds.tokenProgram ∧ isBlank a = true))

/-- Whose the opened account is: the gate of the program gives a blank account of the token program
    the program itself. -/
theorem opened_owner {a' : AccountInfo} {d : List UInt8} (hempty : a.data = []) (hd : d ≠ [])
    (h : Comp.Returns (validateWrite ProgramIds.ataProgram a
      { a with data := d, owner := ProgramIds.tokenProgram }) th a' th') :
    a'.owner = ProgramIds.tokenProgram ↔
      ¬ (a.owner = ProgramIds.tokenProgram ∧ isBlank a = true) := by
  have hchanges : ¬ d = a.data := fun heq => hd (heq.trans hempty)
  have hother : ProgramIds.ataProgram ≠ ProgramIds.tokenProgram := by decide
  cases validateWrite_gated h with
  | unchanged hsame => simp [sameState, Ne.symm hchanges] at hsame
  | owned _ hown =>
    refine iff_of_true rfl fun hboth => hother ?_
    rw [← hown, hboth.1]
  | credited _ hcredit => simp [creditOnly, hchanges] at hcredit
  | first _ hblank =>
    unfold claimed
    by_cases hown : a.owner = ProgramIds.tokenProgram
    · simp [hown, hblank, hother]
    · simp [hown, Ne.symm hown]
  | again hforeign _ _ => exact iff_of_true rfl fun hboth => hforeign (.inr (.inr hboth.2))

theorem opened_holds_iff {o a' : AccountInfo} {d : List UInt8}
    (hchecked : AtaChecked accounts data a o m) (hempty : a.data = [])
    (hd : toVec (openedFor m.key) = some d)
    (hslot : Comp.Returns (validateWrite ProgramIds.ataProgram a
      { a with data := d, owner := ProgramIds.tokenProgram }) th a' th') :
    HoldsAta accounts (accounts.set 1 a') ↔ keyAt accounts 2 = some default ∧
      ¬ (a.owner = ProgramIds.tokenProgram ∧ isBlank a = true) := by
  have hread := tryFromSlice_toVec hd
  have howner := opened_owner hempty (data_ne_nil (by decide) hread) hslot
  have hat : (accounts.set 1 a')[1]? = some a' :=
    List.getElem?_set_self (Nat.lt_of_lt_of_le (by decide) hchecked.enough)
  have hdata : a'.data = d := (validateWrite_gated hslot).data
  rw [← hdata] at hread
  constructor
  · rintro ⟨b, x, hb, htoken, hx, -, hkey, -⟩
    rw [hat, Option.some.injEq] at hb
    subst hb
    rw [hread, Option.some.injEq] at hx
    subst hx
    exact ⟨hkey, howner.mp htoken⟩
  · rintro ⟨hkey, hfits⟩
    refine ⟨a', openedFor m.key, hat, howner.mpr hfits, hread, .inl rfl, hkey, ?_⟩
    exact keyAt_slot hchecked.mint

/-- **When `Create` leaves the associated token account.** Wherever the instruction succeeds, the
    account comes out as the token account of the owner and the mint if and only if the accounts
    fit; and whatever comes out, to create it again succeeds and leaves everything as it is, with
    these accounts or others. -/
theorem ata_create_iff (π : Profile) (hasher : Lending.Hasher) (accounts : List AccountInfo)
    (data : List UInt8) (timestamp : UInt64) (th th' : Thread) (out : List AccountInfo)
    (h : Comp.Returns (dispatch π hasher ProgramIds.ataProgram accounts data timestamp) th out
      th') :
    (HoldsAta accounts out ↔ AtaFits accounts) ∧
    (∀ th₁, ∃ th₂,
      Comp.Returns (dispatch π hasher ProgramIds.ataProgram out data timestamp) th₁ out th₂) ∧
    ∀ (accounts' out' : List AccountInfo) (data' : List UInt8) (timestamp' : UInt64)
      (th₁ th₂ : Thread), accounts'[1]? = out[1]? →
      Comp.Returns (dispatch π hasher ProgramIds.ataProgram accounts' data' timestamp') th₁ out'
        th₂ → out' = accounts' := by
  obtain ⟨a, o, m, hchecked, hcases⟩ := ata_dispatch h
  -- In both cases something is in the slot that has data, under the same key.
  obtain ⟨a', hout, hkey, hdata⟩ : ∃ a', out = accounts.set 1 a' ∧ a'.key = a.key ∧
      a'.data ≠ [] := by
    rcases hcases with ⟨hdata, rfl⟩ | ⟨-, d, a', th₁, th₂, hd, hslot, hout⟩
    · obtain ⟨hlt, rfl⟩ := List.getElem?_eq_some_iff.mp hchecked.ata
      exact ⟨_, (List.set_getElem_self hlt).symm, rfl, hdata⟩
    · have hgated := validateWrite_gated hslot
      refine ⟨a', hout, hgated.key, ?_⟩
      rw [hgated.data]
      exact data_ne_nil (by decide) (tryFromSlice_toVec hd)
  have hlt : 1 < accounts.length := Nat.lt_of_lt_of_le (by decide) hchecked.enough
  have hslot : out[1]? = some a' := by
    rw [hout]
    exact List.getElem?_set_self hlt
  refine ⟨?_, ?_, ?_⟩
  · rcases hcases with ⟨hfull, rfl⟩ | ⟨hempty, d, b, th₁, th₂, hd, hgated, rfl⟩
    · constructor
      · exact fun hholds => ⟨a, hchecked.ata, .inl ⟨hfull, hholds⟩⟩
      · rintro ⟨b, hb, ⟨-, hholds⟩ | ⟨hempty, -⟩⟩
        · exact hholds
        · rw [hchecked.ata, Option.some.injEq] at hb
          exact absurd (hb ▸ hempty) hfull
    · rw [opened_holds_iff hchecked hempty hd hgated]
      constructor
      · exact fun hfits => ⟨a, hchecked.ata, .inr ⟨hempty, hfits⟩⟩
      · rintro ⟨b, hb, hfits⟩
        rw [hchecked.ata, Option.some.injEq] at hb
        subst hb
        rcases hfits with ⟨hfull, -⟩ | ⟨-, hfits⟩
        · exact absurd hempty hfull
        · exact hfits
  · intro th₁
    have hagain : AtaChecked out data a' o m := by
      refine ⟨hchecked.decoded, ?_, hslot, ?_, ?_, hchecked.address.trans hkey.symm⟩
      · rw [hout, List.length_set]
        exact hchecked.enough
      · rw [hout, List.getElem?_set_ne (by decide)]
        exact hchecked.owner
      · rw [hout, List.getElem?_set_ne (by decide)]
        exact hchecked.mint
    have hdirect : List.Forall₂ (Direct ProgramIds.ataProgram) out out :=
      List.forall₂_same.mpr fun b _ => .inr (.inl (creditOnly_of_sameState (sameState_refl b)))
    obtain ⟨same, th₂, hgate⟩ := gate_of_direct hdirect (beginExecution th₁)
    obtain rfl := gate_untouched hgate
    exact ⟨th₂, Comp.returns_bind.mpr ⟨(), beginExecution th₁, rfl, Comp.returns_bind.mpr
      ⟨same, beginExecution th₁, ata_again hagain hdata _,
        validateWrites_returns.mpr ⟨rfl, hgate⟩⟩⟩⟩
  · intro accounts' out' data' timestamp' th₁ th₂ hsame hrepeat
    obtain ⟨b, o', m', hchecked', ⟨-, rfl⟩ | ⟨hempty, -⟩⟩ := ata_dispatch hrepeat
    · rfl
    · rw [hchecked'.ata, hslot, Option.some.injEq] at hsame
      exact absurd (hsame ▸ hempty) hdata

end

/-- The accounts of a `Create` for an owner, of an account nobody has touched. -/
def createFor (owner : Pubkey) : List AccountInfo :=
  let mint : Pubkey := .repeated 5
  [{ key := .repeated 1, lamports := 0, data := [], owner := ProgramIds.systemProgram,
      isSigner := true },
    { key := Ata.getAssociatedTokenAddress owner mint, lamports := 0, data := [],
      owner := ProgramIds.ataProgram },
    { key := owner, lamports := 0, data := [], owner := ProgramIds.systemProgram,
      isWritable := false },
    { recordAccount mint ProgramIds.tokenProgram ({ isInitialized := true } : MintState) with
      isWritable := false }]

/-- The run of the instruction. -/
def createOutput (owner : Pubkey) : Except Fault (List AccountInfo) :=
  (Comp.exec (dispatch .dev .sorted ProgramIds.ataProgram (createFor owner) [0] 0) {}).1

/-- The account of the zero key. -/
theorem ata_create_zero : ∃ out, createOutput default = .ok out ∧
    HoldsAta (createFor default) out := by
  obtain ⟨out, hout⟩ : ∃ out, createOutput default = .ok out := by
    have hok : (createOutput default).isOk = true := by decide +kernel
    cases hrun : createOutput default with
    | ok out => exact ⟨out, rfl⟩
    | error fault => simp [hrun, Except.isOk, Except.toBool] at hok
  refine ⟨out, hout, ?_⟩
  exact (ata_create_iff .dev .sorted (createFor default) [0] 0 {} _ out
    (Comp.returns_of_ok hout)).1.mpr ⟨_, rfl, .inr ⟨rfl, rfl, by decide⟩⟩

/-- **An associated token account without its owner.** The account that is created for a key records
    the zero key. -/
theorem ata_owner_lost : ∃ out, createOutput (.repeated 7) = .ok out ∧
    recordAt TokenAccountState out 1 = some (openedFor (.repeated 5)) ∧
    ¬ HoldsAta (createFor (.repeated 7)) out := by
  have hrun : (createOutput (.repeated 7)).toOption.bind (recordAt TokenAccountState · 1) =
      some (openedFor (.repeated 5)) := by
    decide +kernel
  obtain ⟨out, hout, hrecord⟩ := Option.bind_eq_some_iff.mp hrun
  refine ⟨out, eq_ok_of_toOption hout, hrecord, ?_⟩
  rintro ⟨a, x, ha, -, hx, -, hkey, -⟩
  obtain ⟨b, hb, hread⟩ := recordAt_eq_some.mp hrecord
  rw [ha, Option.some.injEq] at hb
  subst hb
  rw [hx, Option.some.injEq] at hread
  subst hread
  exact absurd hkey (by decide)

end Proof
end Himsha
