import Himsha.Proof.OwnerGate
import Himsha.Proof.Overlay

/-!
# What a token instruction does to its slots

Token instructions write to their first slot, or to their first two, and the owner gate has the
last word on each write. `Passed` is what the gate lets through; with it, a write that changes
anything was made to an account the token program owns, or to a blank one that it then owns.
-/

set_option autoImplicit false

namespace Himsha
namespace Proof

open Himsha.Lib Himsha.Runtime Himsha.Programs Himsha.Vm Himsha.Node

/-! ## The owner gate -/

/-- One slot of a program that leaves owners alone, before and after the gate. `known` says that
    a state was already approved under this key. -/
structure Passed (programId : Pubkey) (known : Prop) (pre post out : AccountInfo) : Prop where
  key : out.key = post.key
  data : out.data = post.data
  owner : out.owner = pre.owner ∨ (pre.data = [] ∧ out.owner = programId)
  allowed : post.data = pre.data ∨ pre.owner = programId ∨
    (pre.data = [] ∧ out.owner = programId) ∨ known

/-- What one slot of the gate does, and which keys are approved after it. -/
theorem validateWrite_passed {programId : Pubkey} {pre post out : AccountInfo} {th th' : Thread}
    (howner : post.owner = pre.owner)
    (h : Comp.Returns (validateWrite programId pre post) th out th') :
    Passed programId (post.key ∈ th.approved) pre post out ∧
      ∀ k ∈ th'.approved, k = post.key ∨ k ∈ th.approved := by
  have hgated := validateWrite_gated h
  refine ⟨?_, hgated.approved⟩
  cases hgated with
  | unchanged hsame =>
    simp only [sameState, Bool.and_eq_true, beq_iff_eq] at hsame
    exact ⟨rfl, rfl, .inl howner, .inl hsame.1.1.1.2.symm⟩
  | owned hchanged hown => exact ⟨rfl, rfl, .inl howner, .inr (.inl hown)⟩
  | credited hchanged hcredit =>
    simp only [creditOnly, Bool.and_eq_true, beq_iff_eq] at hcredit
    exact ⟨rfl, rfl, .inl howner, .inl hcredit.1.1.1.2⟩
  | first hchanged hblank =>
    have hempty : pre.data = [] := by
      simp only [isBlank, Bool.and_eq_true, List.isEmpty_iff] at hblank
      exact hblank.1.1.2
    have hclaimed : claimed programId pre post = { post with owner := programId } :=
      if_pos (by simpa using howner)
    rw [hclaimed]
    exact ⟨rfl, rfl, .inr ⟨hempty, rfl⟩, .inr (.inr (.inl ⟨hempty, rfl⟩))⟩
  | again hforeign hlook hsame =>
    exact ⟨rfl, rfl, .inl howner, .inr (.inr (.inr (Finmap.mem_of_lookup_eq_some hlook)))⟩

section
variable {programId : Pubkey} {a a' b b' : AccountInfo} {rest out : List AccountInfo}
  {th th' : Thread}

/-- The gate on a table of which one slot was touched, with nothing approved before. -/
theorem gate_first (happ : th.approved = ∅)
    (h : Comp.Returns (validateWrites programId (a :: rest) (a' :: rest)) th out th')
    (ha : a'.owner = a.owner) :
    ∃ o, out = o :: rest ∧ Passed programId False a a' o := by
  obtain ⟨-, h₁⟩ := validateWrites_returns.mp h
  obtain ⟨o, _, os, hhead, htail, rfl⟩ := gate_cons.mp h₁
  obtain ⟨hpassed, -⟩ := validateWrite_passed ha hhead
  rw [happ] at hpassed
  refine ⟨o, by rw [gate_untouched htail], hpassed.key, hpassed.data, hpassed.owner, ?_⟩
  exact hpassed.allowed.imp_right fun h => h.imp_right fun h => h.imp_right
    fun hmem => Finmap.notMem_empty hmem

/-- The same for two slots. A state approved for the first one may be approved again. -/
theorem gate_pair (happ : th.approved = ∅)
    (h : Comp.Returns (validateWrites programId (a :: b :: rest) (a' :: b' :: rest)) th out th')
    (ha : a'.owner = a.owner) (hb : b'.owner = b.owner) :
    ∃ o o', out = o :: o' :: rest ∧ Passed programId False a a' o ∧
      Passed programId (b'.key = a'.key) b b' o' := by
  obtain ⟨-, h₁⟩ := validateWrites_returns.mp h
  obtain ⟨o, _, os, hfirst, hrest, rfl⟩ := gate_cons.mp h₁
  obtain ⟨o', _, os', hsecond, htail, rfl⟩ := gate_cons.mp hrest
  obtain ⟨hpassed, hknown⟩ := validateWrite_passed ha hfirst
  obtain ⟨hpassed', -⟩ := validateWrite_passed hb hsecond
  rw [happ] at hpassed hknown
  refine ⟨o, o', by rw [gate_untouched htail], ⟨hpassed.key, hpassed.data, hpassed.owner, ?_⟩,
    ⟨hpassed'.key, hpassed'.data, hpassed'.owner, ?_⟩⟩
  · exact hpassed.allowed.imp_right fun h => h.imp_right fun h => h.imp_right
      fun hmem => Finmap.notMem_empty hmem
  · refine hpassed'.allowed.imp_right fun h => h.imp_right fun h => h.imp_right fun hmem => ?_
    exact (hknown _ hmem).resolve_right fun hmem' => Finmap.notMem_empty hmem'

end

/-! ## The instructions -/

open Token

/-- The first slot was rewritten with `v`. -/
structure WritesFirst {α : Type} [Borsh α] (accounts mid : List AccountInfo) (a : AccountInfo)
    (rest : List AccountInfo) (v : α) : Prop where
  given : accounts = a :: rest
  written : ∃ data, toVec v = some data ∧ mid = { a with data } :: rest

/-- The first two slots held `v` and `w`, and were rewritten with `v'` and `w'`. -/
structure WritesPair {α β : Type} [Borsh α] [Borsh β] (accounts mid : List AccountInfo)
    (a b : AccountInfo) (rest : List AccountInfo) (v v' : α) (w w' : β) : Prop where
  given : accounts = a :: b :: rest
  writable : a.isWritable = true ∧ b.isWritable = true
  held : tryFromSlice a.data = some v ∧ tryFromSlice b.data = some w
  written : ∃ d e, toVec v' = some d ∧ toVec w' = some e ∧
    mid = { a with data := d } :: { b with data := e } :: rest

/-- What an instruction that succeeds finds in its slots and leaves there. -/
def TokenPost (accounts mid : List AccountInfo) : TokenInstruction → Prop
  | .initializeMint _ _ _ => ∃ a rest, ∃ mint : MintState,
      WritesFirst accounts mid a rest mint ∧
      ((tryFromSlice a.data).getD ({} : MintState)).isInitialized = false ∧
      mint.isInitialized = true ∧
      mint.supply = ((tryFromSlice a.data).getD ({} : MintState)).supply
  | .initializeAccount => ∃ a rest, ∃ token : TokenAccountState,
      WritesFirst accounts mid a rest token ∧
      ((tryFromSlice a.data).getD ({} : TokenAccountState)).state = .uninitialized ∧
      token.state = .initialized ∧
      token.amount = ((tryFromSlice a.data).getD ({} : TokenAccountState)).amount
  | .mintTo n => ∃ a b rest mint dest supply amount,
      WritesPair accounts mid a b rest mint ({ mint with supply } : MintState) dest
        ({ dest with amount } : TokenAccountState) ∧
      dest.mint = a.key ∧ supply.toNat = mint.supply.toNat + n.toNat ∧
      amount.toNat = dest.amount.toNat + n.toNat
  | .transfer n => ∃ a b rest source dest left amount,
      WritesPair accounts mid a b rest source ({ source with amount := left } : TokenAccountState)
        dest ({ dest with amount } : TokenAccountState) ∧
      source.mint = dest.mint ∧ left.toNat + n.toNat = source.amount.toNat ∧
      amount.toNat = dest.amount.toNat + n.toNat
  | .burn n => ∃ a b rest token mint left supply,
      WritesPair accounts mid a b rest token ({ token with amount := left } : TokenAccountState)
        mint ({ mint with supply } : MintState) ∧
      left.toNat + n.toNat = token.amount.toNat ∧ supply.toNat + n.toNat = mint.supply.toNat
  | .closeAccount => ∃ a b rest lamports, ∃ token : TokenAccountState,
      accounts = a :: b :: rest ∧ tryFromSlice a.data = some token ∧ token.amount = 0 ∧
      mid = { a with lamports := 0, data := [] } :: { b with lamports } :: rest
  | _ => ∃ a rest, ∃ token token' : TokenAccountState,
      WritesFirst accounts mid a rest token' ∧ tryFromSlice a.data = some token ∧
      token'.mint = token.mint ∧ token'.amount = token.amount ∧
      (token'.state = .uninitialized → token.state = .uninitialized)

section
variable {accounts mid : List AccountInfo}

theorem store_first {α : Type} [Borsh α] {v : α} (h : store accounts 0 v = .ok mid) :
    ∃ a rest, accounts[0]? = some a ∧ WritesFirst accounts mid a rest v := by
  obtain ⟨a, data, ha, -, hdata, rfl⟩ := store_eq_ok h
  cases accounts with
  | nil => simp at ha
  | cons a' rest =>
    simp only [List.getElem?_cons_zero, Option.some.injEq] at ha
    subst ha
    exact ⟨a', rest, rfl, rfl, data, hdata, rfl⟩

theorem store_pair {α β : Type} [Borsh α] [Borsh β] {v v' : α} {w w' : β}
    (hv : load accounts 0 = .ok v) (hw : load accounts 1 = .ok w)
    (h : (store accounts 0 v' >>= fun mid => store mid 1 w') = .ok mid) :
    ∃ a b rest, WritesPair accounts mid a b rest v v' w w' := by
  obtain ⟨m, hfirst, hsecond⟩ := bind_eq_ok.mp h
  obtain ⟨a, d, ha, haw, hd, rfl⟩ := store_eq_ok hfirst
  obtain ⟨b, e, hb, hbw, he, rfl⟩ := store_eq_ok hsecond
  rw [List.getElem?_set_ne (by simp)] at hb
  obtain ⟨rest, rfl⟩ := eq_cons_cons ha hb
  obtain ⟨a', ha', hdv⟩ := load_eq_ok hv
  obtain ⟨b', hb', hdw⟩ := load_eq_ok hw
  cases ha'
  cases hb'
  exact ⟨a, b, rest, rfl, ⟨haw, hbw⟩, ⟨hdv, hdw⟩, d, e, hd, he, rfl⟩

theorem touch_post {token token' : TokenAccountState} (hload : load accounts 0 = .ok token)
    (h : store accounts 0 token' = .ok mid) (hmint : token'.mint = token.mint)
    (hamount : token'.amount = token.amount)
    (hstate : token'.state = .uninitialized → token.state = .uninitialized) :
    ∃ a rest, ∃ token token' : TokenAccountState, WritesFirst accounts mid a rest token' ∧
      tryFromSlice a.data = some token ∧ token'.mint = token.mint ∧
      token'.amount = token.amount ∧
      (token'.state = .uninitialized → token.state = .uninitialized) := by
  obtain ⟨a, rest, ha, hwrites⟩ := store_first h
  obtain ⟨a', ha', hdata⟩ := load_eq_ok hload
  rw [ha, Option.some.injEq] at ha'
  subst ha'
  exact ⟨a, rest, token, token', hwrites, hdata, hmint, hamount, hstate⟩

/-- **Inversion of a token instruction that succeeded.** -/
theorem token_run_post {π : Profile} {ix : TokenInstruction}
    (h : Token.run π accounts ix = .ok mid) : TokenPost accounts mid ix := by
  cases ix with
  | initializeMint decimals authority freeze =>
    obtain ⟨mint, hload, h₁⟩ := bind_eq_ok.mp h
    obtain ⟨_, hinit, h₂⟩ := bind_eq_ok.mp h₁
    obtain ⟨a, rest, ha, hwrites⟩ := store_first h₂
    obtain ⟨a', ha', rfl⟩ := loadOr_eq_ok hload
    rw [ha, Option.some.injEq] at ha'
    subst ha'
    exact ⟨a, rest, _, hwrites, by simpa using hinit, rfl, rfl⟩
  | initializeAccount =>
    obtain ⟨mintAcc, -, h₁⟩ := bind_eq_ok.mp h
    obtain ⟨_, -, h₂⟩ := bind_eq_ok.mp h₁
    obtain ⟨token, hload, h₃⟩ := bind_eq_ok.mp h₂
    obtain ⟨_, hstate, h₄⟩ := bind_eq_ok.mp h₃
    obtain ⟨a, rest, ha, hwrites⟩ := store_first h₄
    obtain ⟨a', ha', rfl⟩ := loadOr_eq_ok hload
    rw [ha, Option.some.injEq] at ha'
    subst ha'
    exact ⟨a, rest, _, hwrites, by simpa using hstate, rfl, rfl⟩
  | mintTo n =>
    obtain ⟨_, -, h₁⟩ := bind_eq_ok.mp h
    obtain ⟨mint, hmint, h₂⟩ := bind_eq_ok.mp h₁
    obtain ⟨dest, hdest, h₃⟩ := bind_eq_ok.mp h₂
    obtain ⟨first, hfirst, h₄⟩ := bind_eq_ok.mp h₃
    obtain ⟨_, hkey, h₅⟩ := bind_eq_ok.mp h₄
    obtain ⟨_, -, h₆⟩ := bind_eq_ok.mp h₅
    obtain ⟨supply, hsupply, h₇⟩ := bind_eq_ok.mp h₆
    obtain ⟨amount, hamount, h₈⟩ := bind_eq_ok.mp h₇
    obtain ⟨a, b, rest, hwrites⟩ := store_pair hmint hdest h₈
    have hfirst' := slot_eq_ok hfirst
    rw [hwrites.given] at hfirst'
    obtain rfl : a = first := by simpa using hfirst'
    exact ⟨a, b, rest, mint, dest, supply, amount, hwrites, by simpa using hkey,
      checkedAdd_eq_some (okOr_eq_ok.mp hsupply), checkedAdd_eq_some (okOr_eq_ok.mp hamount)⟩
  | transfer n =>
    obtain ⟨_, -, h₁⟩ := bind_eq_ok.mp h
    obtain ⟨source, hsource, h₂⟩ := bind_eq_ok.mp h₁
    obtain ⟨dest, hdest, h₃⟩ := bind_eq_ok.mp h₂
    obtain ⟨_, hmint, h₄⟩ := bind_eq_ok.mp h₃
    obtain ⟨_, -, h₅⟩ := bind_eq_ok.mp h₄
    obtain ⟨left, hleft, h₆⟩ := bind_eq_ok.mp h₅
    obtain ⟨amount, hamount, h₇⟩ := bind_eq_ok.mp h₆
    obtain ⟨a, b, rest, hwrites⟩ := store_pair hsource hdest h₇
    exact ⟨a, b, rest, source, dest, left, amount, hwrites, by simpa using hmint,
      checkedSub_eq_some (okOr_eq_ok.mp hleft), checkedAdd_eq_some (okOr_eq_ok.mp hamount)⟩
  | burn n =>
    obtain ⟨_, -, h₁⟩ := bind_eq_ok.mp h
    obtain ⟨token, htoken, h₂⟩ := bind_eq_ok.mp h₁
    obtain ⟨mint, hmint, h₃⟩ := bind_eq_ok.mp h₂
    obtain ⟨_, -, h₄⟩ := bind_eq_ok.mp h₃
    obtain ⟨left, hleft, h₅⟩ := bind_eq_ok.mp h₄
    obtain ⟨supply, hsupply, h₆⟩ := bind_eq_ok.mp h₅
    obtain ⟨a, b, rest, hwrites⟩ := store_pair htoken hmint h₆
    exact ⟨a, b, rest, token, mint, left, supply, hwrites,
      checkedSub_eq_some (okOr_eq_ok.mp hleft), checkedSub_eq_some (okOr_eq_ok.mp hsupply)⟩
  | approve n =>
    obtain ⟨token, hload, h₁⟩ := bind_eq_ok.mp h
    obtain ⟨_, -, h₂⟩ := bind_eq_ok.mp h₁
    exact touch_post hload h₂ rfl rfl id
  | revoke =>
    obtain ⟨token, hload, h₁⟩ := bind_eq_ok.mp h
    exact touch_post hload h₁ rfl rfl id
  | freezeAccount =>
    obtain ⟨token, hload, h₁⟩ := bind_eq_ok.mp h
    exact touch_post hload h₁ rfl rfl fun hstate => absurd hstate (by simp)
  | thawAccount =>
    obtain ⟨token, hload, h₁⟩ := bind_eq_ok.mp h
    obtain ⟨_, -, h₂⟩ := bind_eq_ok.mp h₁
    exact touch_post hload h₂ rfl rfl fun hstate => absurd hstate (by simp)
  | closeAccount =>
    obtain ⟨token, hload, h₁⟩ := bind_eq_ok.mp h
    obtain ⟨_, hamount, h₂⟩ := bind_eq_ok.mp h₁
    obtain ⟨a, ha, h₃⟩ := bind_eq_ok.mp h₂
    obtain ⟨b, hb, h₄⟩ := bind_eq_ok.mp h₃
    obtain ⟨lamports, -, h₅⟩ := bind_eq_ok.mp h₄
    obtain ⟨rest, rfl⟩ := eq_cons_cons (slot_eq_ok ha) (slot_eq_ok hb)
    obtain ⟨a', ha', hdata⟩ := load_eq_ok hload
    cases ha'
    cases h₅
    exact ⟨a, b, rest, lamports, token, rfl, hdata, by simpa using hamount, rfl⟩

end

/-- A token instruction, from its decoding to the gate. -/
theorem token_output {ex : Executor} {mode : Mode} {tx : RuntimeTransaction} {instr : Instruction}
    {accounts out : List AccountInfo} (hprog : instr.programId = ProgramIds.tokenProgram)
    (h : output ex mode tx instr accounts = some out) :
    ∃ ix mid, ∃ th th' : Thread, tryFromSlice instr.data = some ix ∧
      TokenPost accounts mid ix ∧ th.approved = ∅ ∧
      Comp.Returns (validateWrites ProgramIds.tokenProgram accounts mid) th out th' := by
  have hkept : ∀ updated, kept mode instr updated = updated := by
    intro updated
    unfold kept
    rw [if_neg]
    rw [hprog]
    exact fun hlending => absurd hlending.2 (by decide)
  unfold output executeProgram at h
  rw [hprog, if_pos (by decide)] at h
  split at h
  · rename_i t hexec
    obtain ⟨s', hret, -⟩ := executeNative_eq_ok hexec
    simp only [hkept, Option.some.injEq] at h
    rw [h] at hret
    obtain ⟨_, th, hbegin, h₁⟩ := Comp.returns_bind.mp hret
    obtain ⟨mid, _, hrun, hgate⟩ := Comp.returns_bind.mp h₁
    rw [runBuiltin_token] at hrun
    obtain ⟨hprocess, rfl⟩ := Comp.returns_ofExcept.mp hrun
    obtain ⟨ix, hix, hrun'⟩ := bind_eq_ok.mp hprocess
    refine ⟨ix, mid, _, s', okOr_eq_ok.mp hix, token_run_post hrun', ?_, hgate⟩
    rw [Comp.returns_modify.mp hbegin]
    rfl
  · simp at h

end Proof
end Himsha
