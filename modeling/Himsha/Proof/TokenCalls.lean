import Himsha.Proof.CpiGate
import Himsha.Proof.Frames
import Himsha.Proof.Records

/-!
# Calls of the token program

Programs that hold tokens move, mint and burn them by invoking the token program on three of their
slots. A call that succeeds rewrites the data of the first two and nothing else (`Rewritten`), and
approves no other key.
-/

set_option autoImplicit false

namespace Himsha
namespace Proof

open Himsha.Lib Himsha.Runtime Himsha.Programs Himsha.Vm Token

/-- Of a table, the slots `i` and `j` were rewritten: they held `v` and `w` and hold `v'` and
    `w'`. -/
structure Rewritten {α β : Type} [Borsh α] [Borsh β] (accounts out : List AccountInfo) (i j : Nat)
    (a b : AccountInfo) (v v' : α) (w w' : β) : Prop where
  slots : accounts[i]? = some a ∧ accounts[j]? = some b
  writable : a.isWritable = true ∧ b.isWritable = true
  ne : a.key ≠ b.key
  held : tryFromSlice a.data = some v ∧ tryFromSlice b.data = some w
  written : ∃ d e, toVec v' = some d ∧ toVec w' = some e ∧
    out = (accounts.set i { a with data := d }).set j { b with data := e }

namespace Rewritten

variable {α β : Type} [Borsh α] [Borsh β] {accounts out : List AccountInfo} {i j n : Nat}
  {a b : AccountInfo} {v v' : α} {w w' : β}

theorem left (h : Rewritten accounts out i j a b v v' w w') (hij : i ≠ j) :
    ∃ d, toVec v' = some d ∧ out[i]? = some { a with data := d } := by
  obtain ⟨d, e, hd, -, rfl⟩ := h.written
  have hlt := (List.getElem?_eq_some_iff.mp h.slots.1).1
  refine ⟨d, hd, ?_⟩
  rw [List.getElem?_set_ne hij.symm, List.getElem?_set_self hlt]

theorem right (h : Rewritten accounts out i j a b v v' w w') :
    ∃ e, toVec w' = some e ∧ out[j]? = some { b with data := e } := by
  obtain ⟨d, e, -, he, rfl⟩ := h.written
  have hlt := (List.getElem?_eq_some_iff.mp h.slots.2).1
  refine ⟨e, he, ?_⟩
  rw [List.getElem?_set_self (by rw [List.length_set]; exact hlt)]

theorem other (h : Rewritten accounts out i j a b v v' w w') (hi : n ≠ i) (hj : n ≠ j) :
    out[n]? = accounts[n]? := by
  obtain ⟨d, e, -, -, rfl⟩ := h.written
  rw [List.getElem?_set_ne hj.symm, List.getElem?_set_ne hi.symm]

/-- The record in the first slot, and in the second. -/
theorem reads (h : Rewritten accounts out i j a b v v' w w') (hij : i ≠ j) :
    (∃ o, out[i]? = some o ∧ tryFromSlice o.data = some v') ∧
      ∃ o, out[j]? = some o ∧ tryFromSlice o.data = some w' := by
  obtain ⟨d, hd, ho⟩ := h.left hij
  obtain ⟨e, he, ho'⟩ := h.right
  exact ⟨⟨_, ho, tryFromSlice_toVec hd⟩, _, ho', tryFromSlice_toVec he⟩

end Rewritten

/-! ## Records in slots -/

def keyAt (accounts : List AccountInfo) (i : Nat) : Option Pubkey := accounts[i]?.map (·.key)

/-- The record in a slot. -/
def recordAt (α : Type) [Borsh α] (accounts : List AccountInfo) (i : Nat) : Option α :=
  accounts[i]?.bind fun a => tryFromSlice a.data

/-- An account that holds a record. -/
def recordAccount {α : Type} [Borsh α] (key owner : Pubkey) (v : α) : AccountInfo where
  key := key
  lamports := 1
  data := (toVec v).getD []
  owner := owner

section
variable {α : Type} [Borsh α] {accounts out : List AccountInfo} {i j n : Nat} {v : α}

theorem recordAt_eq_some : recordAt α accounts i = some v ↔
    ∃ a, accounts[i]? = some a ∧ tryFromSlice a.data = some v :=
  Option.bind_eq_some_iff

theorem recordAt_slot {a : AccountInfo} (ha : accounts[i]? = some a) :
    recordAt α accounts i = tryFromSlice a.data := by
  unfold recordAt
  rw [ha, Option.bind_some]

theorem keyAt_slot {a : AccountInfo} (ha : accounts[i]? = some a) :
    keyAt accounts i = some a.key := by
  unfold keyAt
  rw [ha, Option.map_some]

theorem recordAt_of_load (h : load accounts i = .ok v) : recordAt α accounts i = some v := by
  obtain ⟨a, ha, hdata⟩ := load_eq_ok h
  exact recordAt_eq_some.mpr ⟨a, ha, hdata⟩

theorem recordAt_congr (h : out[i]? = accounts[i]?) : recordAt α out i = recordAt α accounts i := by
  unfold recordAt
  rw [h]

/-- What the gate lets through reads as it was left. -/
theorem recordAt_data (h : out.map (·.data) = accounts.map (·.data)) :
    recordAt α out i = recordAt α accounts i := by
  have hi := congrArg (·[i]?) h
  simp only [List.getElem?_map] at hi
  unfold recordAt
  cases ha : accounts[i]? with
  | none =>
    rw [ha] at hi
    rw [Option.map_eq_none_iff.mp hi]
  | some a =>
    rw [ha, Option.map_some] at hi
    obtain ⟨o, ho, hdata⟩ := Option.map_eq_some_iff.mp hi
    rw [ho, Option.bind_some, Option.bind_some, hdata]

theorem recordAt_stored (h : store accounts i v = .ok out) : recordAt α out i = some v := by
  obtain ⟨a, d, ha, -, hd, rfl⟩ := store_eq_ok h
  have hlt := (List.getElem?_eq_some_iff.mp ha).1
  exact recordAt_eq_some.mpr ⟨_, List.getElem?_set_self hlt, tryFromSlice_toVec hd⟩

theorem recordAt_unstored {β : Type} [Borsh β] {w : β} (h : store accounts i w = .ok out)
    (hn : n ≠ i) : recordAt α out n = recordAt α accounts n := by
  obtain ⟨a, d, ha, -, hd, rfl⟩ := store_eq_ok h
  exact recordAt_congr (List.getElem?_set_ne hn.symm)

variable {β : Type} [Borsh β] {a b : AccountInfo} {v' : α} {w w' : β}

namespace Rewritten

theorem recordAt_before (h : Rewritten accounts out i j a b v v' w w') :
    recordAt α accounts i = some v ∧ recordAt β accounts j = some w :=
  ⟨recordAt_eq_some.mpr ⟨a, h.slots.1, h.held.1⟩, recordAt_eq_some.mpr ⟨b, h.slots.2, h.held.2⟩⟩

theorem recordAt_after (h : Rewritten accounts out i j a b v v' w w') (hij : i ≠ j) :
    recordAt α out i = some v' ∧ recordAt β out j = some w' :=
  ⟨recordAt_eq_some.mpr (h.reads hij).1, recordAt_eq_some.mpr (h.reads hij).2⟩

theorem keyAt (h : Rewritten accounts out i j a b v v' w w') (hij : i ≠ j) :
    Proof.keyAt out n = Proof.keyAt accounts n := by
  unfold Proof.keyAt
  by_cases hi : n = i
  · obtain ⟨d, -, ho⟩ := h.left hij
    rw [hi, ho, h.slots.1]
    rfl
  · by_cases hj : n = j
    · obtain ⟨e, -, ho⟩ := h.right
      rw [hj, ho, h.slots.2]
      rfl
    · rw [h.other hi hj]

theorem recordAt_other {γ : Type} [Borsh γ] (h : Rewritten accounts out i j a b v v' w w')
    (hi : n ≠ i) (hj : n ≠ j) : recordAt γ out n = recordAt γ accounts n :=
  recordAt_congr (h.other hi hj)

end Rewritten

end

/-- A record was rewritten where that is the token program's to do: in an account of its own, to
    what it held already, or under a key that was approved before. -/
def OwnWrite {α : Type} (th : Thread) (a : AccountInfo) (v v' : α) : Prop :=
  a.owner = ProgramIds.tokenProgram ∨ v' = v ∨ a.key ∈ th.approved

/-- What a call approves is under the keys of the slots it writes, and these are its own. -/
structure TokenTrail {α β : Type} (th th' : Thread) (a b : AccountInfo) (v v' : α)
    (w w' : β) : Prop where
  approves : ∀ k ∈ th'.approved, k = a.key ∨ k = b.key ∨ k ∈ th.approved
  first : OwnWrite th a v v'
  second : OwnWrite th b w w'

/-- The checks of a program that come before what it invokes. -/
theorem returns_lift {α β : Type} {x : Outcome α} {f : α → Prog β} {th th' : Thread} {b : β}
    (h : Comp.Returns ((liftM x : Prog α) >>= f) th b th') :
    ∃ a, x = .ok a ∧ Comp.Returns (f a) th b th' := by
  obtain ⟨a, _, hx, hrest⟩ := Comp.returns_bind.mp h
  obtain ⟨hok, rfl⟩ := Comp.returns_ofExcept.mp hx
  exact ⟨a, hok, hrest⟩

/-! ## Windows of three -/

/-- An account without its signer mark. -/
def unsigned (a : AccountInfo) : AccountInfo := { a with isSigner := false }

theorem eq_of_unsigned {a b : AccountInfo} (h : unsigned a = unsigned b) :
    b = { a with isSigner := b.isSigner } := by
  cases a
  cases b
  simp only [unsigned, AccountInfo.mk.injEq] at h ⊢
  tauto

theorem markSigners_unsigned (window : List AccountInfo) (signers : List Nat) :
    (markSigners window signers).map unsigned = window.map unsigned := by
  unfold markSigners
  induction signers generalizing window with
  | nil => rfl
  | cons n rest ih =>
    rw [List.foldl_cons, ih]
    apply List.ext_getElem?
    intro m
    rw [List.getElem?_map, List.getElem?_map, List.getElem?_modify]
    cases window[m]? with
    | none => rfl
    | some a =>
      simp only [Option.map_some]
      split <;> rfl

section
variable {accounts window : List AccountInfo} {i j k : Nat} {a b c : AccountInfo}

theorem windowOf_three (h : windowOf accounts [i, j, k] = .ok window) :
    ∃ a b c, window = [a, b, c] ∧ accounts[i]? = some a ∧ accounts[j]? = some b ∧
      accounts[k]? = some c := by
  cases SlotRel.windowOf_gives accounts [i, j, k] window h with
  | cons ha hrest =>
    cases hrest with
    | cons hb hrest =>
      cases hrest with
      | cons hc hrest =>
        cases hrest
        exact ⟨_, _, _, rfl, ha, hb, hc⟩

/-- A slot that was not in the window is as it was. -/
theorem writeBack_other {indices : List Nat} {n : Nat} (hn : n ∉ indices) :
    (writeBack accounts window indices)[n]? = accounts[n]? := by
  unfold writeBack
  induction window generalizing accounts indices with
  | nil => rfl
  | cons x window ih =>
    cases indices with
    | nil => rfl
    | cons m indices =>
      rw [List.mem_cons, not_or] at hn
      rw [List.zip_cons_cons, List.foldl_cons, ih hn.2]
      exact List.getElem?_modify_ne _ _ (Ne.symm hn.1)

theorem invoke_other {out : List AccountInfo} {indices signers : List Nat} {data : List UInt8}
    {callee : Pubkey} {process : Process} {th th' : Thread} {n : Nat}
    (h : Comp.Returns (invokeSignedIndexed accounts indices signers data callee process) th out
      th') (hn : n ∉ indices) : out[n]? = accounts[n]? := by
  obtain ⟨_, _, _, _, _, _, -, -, -, -, -, -, rfl⟩ := invoke_returns h
  exact writeBack_other hn

theorem markSigners_three (signers : List Nat) : ∃ s s' s'' : Bool,
    markSigners [a, b, c] signers =
      [{ a with isSigner := s }, { b with isSigner := s' }, { c with isSigner := s'' }] := by
  have hmap := markSigners_unsigned [a, b, c] signers
  match hm : markSigners [a, b, c] signers with
  | [] | [_] | [_, _] | _ :: _ :: _ :: _ :: _ => simp [hm] at hmap
  | [x, y, z] =>
    simp only [hm, List.map_cons, List.map_nil, List.cons.injEq, and_true] at hmap
    refine ⟨x.isSigner, y.isSigner, z.isSigner, ?_⟩
    rw [← eq_of_unsigned hmap.1.symm, ← eq_of_unsigned hmap.2.1.symm,
      ← eq_of_unsigned hmap.2.2.symm]

/-- Putting back a window of which the first two slots were rewritten. -/
theorem writeBack_three {d e : List UInt8} {s s' s'' : Bool} (hij : i ≠ j) (hik : i ≠ k)
    (hjk : j ≠ k) (ha : accounts[i]? = some a) (hb : accounts[j]? = some b)
    (hc : accounts[k]? = some c) :
    writeBack accounts [{ a with data := d, isSigner := s }, { b with data := e, isSigner := s' },
        { c with isSigner := s'' }] [i, j, k] =
      (accounts.set i { a with data := d }).set j { b with data := e } := by
  apply List.ext_getElem?
  intro n
  obtain ⟨hlti, hgeti⟩ := List.getElem?_eq_some_iff.mp ha
  obtain ⟨hltj, hgetj⟩ := List.getElem?_eq_some_iff.mp hb
  simp only [writeBack, List.zip_cons_cons, List.zip_nil_right, List.foldl_cons, List.foldl_nil,
    List.getElem?_modify, List.getElem?_set, List.length_set]
  by_cases hk : k = n
  · subst hk
    simp [hik, hjk, hc]
  · by_cases hj : j = n
    · subst hj
      simp [hij, hk, hltj, hgetj]
    · by_cases hi : i = n
      · subst hi
        simp [hj, hk, hlti, hgeti]
      · simp [hi, hj, hk]

end

/-! ## The calls -/

theorem data_ne_nil {α : Type} [Borsh α] {data : List UInt8} {v : α}
    (hnil : tryFromSlice (α := α) [] = none) (h : tryFromSlice data = some v) : data ≠ [] := by
  rintro rfl
  rw [hnil] at h
  simp at h

theorem isBlank_eq_false {a : AccountInfo} (h : a.data ≠ []) : isBlank a = false := by
  cases hdata : a.data with
  | nil => exact absurd hdata h
  | cons x xs => simp [isBlank, hdata]

/-- What the gate of the token program lets through. -/
theorem Passed.ownWrite {α : Type} [Borsh α] {known : Prop} {a post out : AccountInfo}
    {v v' : α} {d : List UInt8} {s : Bool} (hfull : a.data ≠ [])
    (h : Passed ProgramIds.tokenProgram known a { post with data := d, isSigner := s } out)
    (hv : tryFromSlice a.data = some v) (hd : toVec v' = some d) :
    a.owner = ProgramIds.tokenProgram ∨ v' = v ∨ known := by
  rcases h.allowed with hdata | howner | ⟨hempty, -⟩ | hknown
  · right; left
    have hback : tryFromSlice a.data = some v' := by
      rw [← hdata]
      exact tryFromSlice_toVec hd
    exact Option.some.inj (hback.symm.trans hv)
  · exact .inl howner
  · exact absurd hempty hfull
  · exact .inr (.inr hknown)

/-- A slot that has data comes out of the gate as the program left it. -/
theorem validateWrite_nonblank {programId : Pubkey} {pre post out : AccountInfo} {th th' : Thread}
    (hdata : pre.data ≠ []) (h : Comp.Returns (validateWrite programId pre post) th out th') :
    out = post := by
  cases validateWrite_gated h with
  | first _ hblank => exact absurd hblank (by simp [isBlank_eq_false hdata])
  | _ => rfl

section
variable {π : Profile} {accounts out : List AccountInfo} {i j k : Nat} {signers : List Nat}
  {ix : TokenInstruction} {th th' : Thread}

/-- A call on three slots: the program runs on them, and what it writes to the first two is put
    back. -/
theorem token_call (hij : i ≠ j) (hik : i ≠ k) (hjk : j ≠ k)
    (h : Comp.Returns (Token.invoke π accounts [i, j, k] signers ix) th out th') :
    ∃ window mid : List AccountInfo, Token.run π window ix = .ok mid ∧
      ∀ {α β : Type} [Borsh α] [Borsh β] (x y : AccountInfo) (rest : List AccountInfo)
        (v v' : α) (w w' : β), tryFromSlice (α := α) [] = none → tryFromSlice (α := β) [] = none →
        WritesPair window mid x y rest v v' w w' →
        ∃ a b, x.key = a.key ∧ Rewritten accounts out i j a b v v' w w' ∧
          TokenTrail th th' a b v v' w w' := by
  obtain ⟨data, th₀, hdata, h₁⟩ := Comp.returns_bind.mp h
  obtain ⟨hvec, rfl⟩ := Comp.returns_ofExcept.mp hdata
  obtain ⟨win, after, gated, th₁, th₂, th₃, hwindow, hdup, hstart, hprocess, hgate, hend, rfl⟩ :=
    invoke_returns h₁
  obtain ⟨hrun, rfl⟩ := Comp.returns_ofExcept.mp hprocess
  obtain ⟨ix', hix, hrun⟩ := bind_eq_ok.mp hrun
  obtain rfl : ix = ix' := by
    have hback := tryFromSlice_toVec (okOr_eq_ok.mp hvec)
    rw [okOr_eq_ok.mp hix] at hback
    exact (Option.some.inj hback).symm
  obtain ⟨a, b, c, rfl, ha, hb, hc⟩ := windowOf_three hwindow
  obtain ⟨s, s', s'', hmarked⟩ := markSigners_three (a := a) (b := b) (c := c) signers
  refine ⟨_, after, hrun, fun {α β} _ _ x y rest v v' w w' hnil hnil' hwrites => ?_⟩
  obtain ⟨hgiven, hwritable, ⟨hv, hw⟩, d, e, hd, he, rfl⟩ := hwrites
  rw [hmarked] at hgiven
  simp only [List.cons.injEq] at hgiven
  obtain ⟨rfl, rfl, rfl⟩ := hgiven
  have hfull : a.data ≠ [] := data_ne_nil hnil hv
  have hfull' : b.data ≠ [] := data_ne_nil hnil' hw
  obtain ⟨o, _, os, hfirst, htail, rfl⟩ := gate_cons.mp hgate
  obtain ⟨o', _, os', hsecond, htail', rfl⟩ := gate_cons.mp htail
  obtain ⟨o'', _, os'', hthird, hnone, rfl⟩ := gate_cons.mp htail'
  obtain ⟨rfl, rfl⟩ := Comp.returns_pure.mp hnone
  obtain ⟨hpassed, htrail⟩ := validateWrite_passed (by rfl) hfirst
  obtain ⟨hpassed', htrail'⟩ := validateWrite_passed (by rfl) hsecond
  -- The authority is as it was, but for the mark.
  unfold validateWrite at hthird
  rw [if_pos (by simp [sameState])] at hthird
  obtain ⟨rfl, rfl⟩ := Comp.returns_pure.mp hthird
  obtain rfl := validateWrite_nonblank hfull hfirst
  obtain rfl := validateWrite_nonblank hfull' hsecond
  have hne := keys_ne hdup hwritable
  refine ⟨a, b, rfl, ⟨⟨ha, hb⟩, hwritable, hne, ⟨hv, hw⟩, d, e, hd, he, ?_⟩, ?_, ?_, ?_⟩
  · exact writeBack_three hij hik hjk ha hb hc
  · intro n hn
    rw [hend] at hn
    rcases htrail' n hn with hsecond' | hn
    · exact .inr (.inl hsecond')
    · rcases htrail n hn with hfirst' | hn
      · exact .inl hfirst'
      · exact .inr (.inr (hstart ▸ hn))
  · rcases hpassed.ownWrite hfull hv hd with howner | hsame | hknown
    · exact .inl howner
    · exact .inr (.inl hsame)
    · exact .inr (.inr (hstart ▸ hknown))
  · rcases hpassed'.ownWrite hfull' hw he with howner | hsame | hknown
    · exact .inl howner
    · exact .inr (.inl hsame)
    · rcases htrail _ hknown with hfirst' | hknown
      · exact absurd hfirst'.symm hne
      · exact .inr (.inr (hstart ▸ hknown))

/-- Tokens moved from one account to another of the same mint. -/
theorem transfer_call {n : UInt64} (hij : i ≠ j) (hik : i ≠ k) (hjk : j ≠ k)
    (h : Comp.Returns (Token.invoke π accounts [i, j, k] signers (.transfer n)) th out th') :
    ∃ a b, ∃ (source dest : TokenAccountState) (left amount : UInt64),
      Rewritten accounts out i j a b source { source with amount := left } dest
        { dest with amount } ∧
      TokenTrail th th' a b source { source with amount := left } dest { dest with amount } ∧
      source.mint = dest.mint ∧
      left.toNat + n.toNat = source.amount.toNat ∧ amount.toNat = dest.amount.toNat + n.toNat := by
  obtain ⟨window, mid, hrun, hcall⟩ := token_call hij hik hjk h
  obtain ⟨x, y, rest, source, dest, left, amount, hwrites, hmint, hleft, hamount⟩ :=
    token_run_post hrun
  obtain ⟨a, b, -, hrewritten, htrail⟩ := hcall x y rest _ _ _ _ token_nil token_nil hwrites
  exact ⟨a, b, source, dest, left, amount, hrewritten, htrail, hmint, hleft, hamount⟩

/-- Tokens of the mint in the first slot were issued to the second. -/
theorem mintTo_call {n : UInt64} (hij : i ≠ j) (hik : i ≠ k) (hjk : j ≠ k)
    (h : Comp.Returns (Token.invoke π accounts [i, j, k] signers (.mintTo n)) th out th') :
    ∃ a b, ∃ (mint : MintState) (dest : TokenAccountState) (supply amount : UInt64),
      Rewritten accounts out i j a b mint { mint with supply } dest { dest with amount } ∧
      TokenTrail th th' a b mint { mint with supply } dest { dest with amount } ∧
      dest.mint = a.key ∧
      supply.toNat = mint.supply.toNat + n.toNat ∧ amount.toNat = dest.amount.toNat + n.toNat := by
  obtain ⟨window, mid, hrun, hcall⟩ := token_call hij hik hjk h
  obtain ⟨x, y, rest, mint, dest, supply, amount, hwrites, hmint, hsupply, hamount⟩ :=
    token_run_post hrun
  obtain ⟨a, b, hkey, hrewritten, htrail⟩ := hcall x y rest _ _ _ _ mint_nil token_nil hwrites
  exact ⟨a, b, mint, dest, supply, amount, hrewritten, htrail, hmint.trans hkey, hsupply, hamount⟩

/-- Tokens in the first slot were burned, off the supply of the mint in the second. -/
theorem burn_call {n : UInt64} (hij : i ≠ j) (hik : i ≠ k) (hjk : j ≠ k)
    (h : Comp.Returns (Token.invoke π accounts [i, j, k] signers (.burn n)) th out th') :
    ∃ a b, ∃ (token : TokenAccountState) (mint : MintState) (left supply : UInt64),
      Rewritten accounts out i j a b token { token with amount := left } mint
        { mint with supply } ∧
      TokenTrail th th' a b token { token with amount := left } mint { mint with supply } ∧
      left.toNat + n.toNat = token.amount.toNat ∧ supply.toNat + n.toNat = mint.supply.toNat := by
  obtain ⟨window, mid, hrun, hcall⟩ := token_call hij hik hjk h
  obtain ⟨x, y, rest, token, mint, left, supply, hwrites, hleft, hsupply⟩ := token_run_post hrun
  obtain ⟨a, b, -, hrewritten, htrail⟩ := hcall x y rest _ _ _ _ token_nil mint_nil hwrites
  exact ⟨a, b, token, mint, left, supply, hrewritten, htrail, hleft, hsupply⟩

end

/-! ## What a call did to a slot -/

/-- The record in slot `i` before and after. -/
def Changed (α : Type) [Borsh α] (accounts out : List AccountInfo) (i : Nat)
    (R : α → α → Prop) : Prop :=
  ∃ v ∈ recordAt α accounts i, ∃ v' ∈ recordAt α out i, R v v'

/-- The token account in slot `i` received `n`. -/
def Received (accounts out : List AccountInfo) (i n : Nat) : Prop :=
  Changed TokenAccountState accounts out i fun token token' =>
    token' = { token with amount := token'.amount } ∧
      token'.amount.toNat = token.amount.toNat + n

/-- The token account in slot `i` paid `n`. -/
def Paid (accounts out : List AccountInfo) (i n : Nat) : Prop :=
  Changed TokenAccountState accounts out i fun token token' =>
    token' = { token with amount := token'.amount } ∧
      token'.amount.toNat + n = token.amount.toNat

/-- The mint in slot `i` issued `n`. -/
def Issued (accounts out : List AccountInfo) (i n : Nat) : Prop :=
  Changed MintState accounts out i fun mint mint' =>
    mint' = { mint with supply := mint'.supply } ∧
      mint'.supply.toNat = mint.supply.toNat + n

/-- Of the mint in slot `i`, `n` were burned. -/
def Burned (accounts out : List AccountInfo) (i n : Nat) : Prop :=
  Changed MintState accounts out i fun mint mint' =>
    mint' = { mint with supply := mint'.supply } ∧
      mint'.supply.toNat + n = mint.supply.toNat

section
variable {α β : Type} [Borsh α] [Borsh β] {accounts out : List AccountInfo} {i j : Nat}
  {a b : AccountInfo} {v v' : α} {w w' : β}

/-- A slot that reads the same there has changed the same there. -/
theorem Changed.congr {accounts' out' : List AccountInfo} {R : α → α → Prop}
    (hbefore : recordAt α accounts' i = recordAt α accounts i)
    (hafter : recordAt α out' i = recordAt α out i) (h : Changed α accounts out i R) :
    Changed α accounts' out' i R := by
  unfold Changed
  rw [hbefore, hafter]
  exact h

theorem Rewritten.changed (h : Rewritten accounts out i j a b v v' w w') (hij : i ≠ j)
    {R : α → α → Prop} (hR : R v v') : Changed α accounts out i R :=
  ⟨v, h.recordAt_before.1, v', (h.recordAt_after hij).1, hR⟩

theorem Rewritten.changed' (h : Rewritten accounts out i j a b v v' w w') (hij : i ≠ j)
    {R : β → β → Prop} (hR : R w w') : Changed β accounts out j R :=
  ⟨w, h.recordAt_before.2, w', (h.recordAt_after hij).2, hR⟩

end

end Proof
end Himsha
