import Himsha.Proof.ProgramRuns

/-!
# The authorities of a mint

A mint records who may issue its tokens and who may freeze its accounts. MintTo asks for the
signature of some third account, freezing and thawing ask for none, an account can be closed while
it is frozen, and what is initialised may be written over an account of the other kind.
`AuthorityOk` is the comparison with the record where there is none, and `token_authority` says
that with it every instruction of every run is authorized.
-/

set_option autoImplicit false

namespace Himsha
namespace Proof

open Himsha.Lib Himsha.Runtime Himsha.Programs Himsha.Vm Himsha.Node Token

/-! ## Mints and token accounts of a table -/

def mintAt (t : Accounts) (k : Pubkey) : Option MintState :=
  readAt none (decoded MintState ProgramIds.tokenProgram) t k

def tokenAt (t : Accounts) (k : Pubkey) : Option TokenAccountState :=
  readAt none (decoded TokenAccountState ProgramIds.tokenProgram) t k

def isFrozen (x : Option TokenAccountState) : Bool := x.any (·.state == .frozen)

/-- The freeze authority of the account's own mint is among the signers. -/
def FreezerSigned (t : Accounts) (accounts : List AccountInfo) (x : TokenAccountState) : Prop :=
  ∃ mint ∈ mintAt t x.mint, mint.isInitialized = true ∧
    ∃ key ∈ mint.freezeAuthority, SignedBy accounts key

/-- **What an instruction is authorized to do to mints and token accounts.** -/
structure Authorized (accounts : List AccountInfo) (t t' : Accounts) : Prop where
  /-- A supply grows only with the signature of the mint authority. -/
  supply : ∀ k x x', mintAt t k = some x → mintAt t' k = some x' → x.supply < x'.supply →
    ∃ key ∈ x.mintAuthority, SignedBy accounts key
  /-- The authorities of a mint stay. -/
  authorities : ∀ k x, mintAt t k = some x → x.isInitialized = true → ∃ x',
    mintAt t' k = some x' ∧ x'.isInitialized = true ∧ x'.mintAuthority = x.mintAuthority ∧
      x'.freezeAuthority = x.freezeAuthority
  /-- An account is frozen or no longer frozen only with the signature of the freeze authority. -/
  frozen : ∀ k, isFrozen (tokenAt t' k) ≠ isFrozen (tokenAt t k) →
    ∃ x, tokenAt t k = some x ∧ FreezerSigned t accounts x

/-! ## What the instructions have to be given -/

/-- The mint authority of a mint in the slot is among the signers. -/
def IssuerSigned (accounts : List AccountInfo) (a : AccountInfo) : Prop :=
  ∀ mint ∈ (tryFromSlice a.data : Option MintState),
    ∃ key ∈ mint.mintAuthority, SignedBy accounts key

/-- A token account in the slot that satisfies `p` has its freezer among the signers. -/
def FreezerSigns (t : Accounts) (accounts : List AccountInfo) (p : AccountState → Prop)
    (a : AccountInfo) : Prop :=
  ∀ x ∈ (tryFromSlice a.data : Option TokenAccountState), p x.state →
    FreezerSigned t accounts x

/-- Instructions that the recorded authorities have signed where it takes one. -/
def AuthorityCare (t : Accounts) (accounts : List AccountInfo) : TokenInstruction → Prop
  | .initializeMint _ _ _ => ∀ a ∈ accounts[0]?, FreezerSigns t accounts (· = .frozen) a
  | .initializeAccount => ∀ a ∈ accounts[0]?,
      ∀ mint ∈ (tryFromSlice a.data : Option MintState), mint.isInitialized = false
  | .mintTo n => n = 0 ∨ ∀ a ∈ accounts[0]?, IssuerSigned accounts a
  | .freezeAccount => ∀ a ∈ accounts[0]?, FreezerSigns t accounts (· ≠ .frozen) a
  | .thawAccount => ∀ a ∈ accounts[0]?, FreezerSigns t accounts (· = .frozen) a
  | .closeAccount => ∀ a ∈ accounts[0]?, FreezerSigns t accounts (· = .frozen) a
  | .transfer _ | .burn _ | .approve _ | .revoke => True

/-- The token instructions that the recorded authorities have signed. -/
def AuthorityOk (t : Accounts) (instr : Instruction) : Prop :=
  ∀ ix ∈ (tryFromSlice instr.data : Option TokenInstruction),
    AuthorityCare t (accountsOf t instr) ix

instance (t : Accounts) (accounts : List AccountInfo) (x : TokenAccountState) :
    Decidable (FreezerSigned t accounts x) :=
  inferInstanceAs (Decidable (∃ mint ∈ mintAt t x.mint, mint.isInitialized = true ∧
    ∃ key ∈ mint.freezeAuthority, SignedBy accounts key))

instance (accounts : List AccountInfo) (a : AccountInfo) : Decidable (IssuerSigned accounts a) :=
  inferInstanceAs (Decidable (∀ mint ∈ (tryFromSlice a.data : Option MintState),
    ∃ key ∈ mint.mintAuthority, SignedBy accounts key))

instance (t : Accounts) (accounts : List AccountInfo) (p : AccountState → Prop) [DecidablePred p]
    (a : AccountInfo) : Decidable (FreezerSigns t accounts p a) :=
  inferInstanceAs (Decidable (∀ x ∈ (tryFromSlice a.data : Option TokenAccountState),
    p x.state → FreezerSigned t accounts x))

instance (t : Accounts) (accounts : List AccountInfo) :
    DecidablePred (AuthorityCare t accounts)
  | .initializeMint _ _ _ | .thawAccount | .closeAccount =>
      inferInstanceAs (Decidable (∀ a ∈ accounts[0]?, FreezerSigns t accounts (· = .frozen) a))
  | .initializeAccount => inferInstanceAs (Decidable (∀ a ∈ accounts[0]?,
      ∀ mint ∈ (tryFromSlice a.data : Option MintState), mint.isInitialized = false))
  | .mintTo n => inferInstanceAs (Decidable (n = 0 ∨ ∀ a ∈ accounts[0]?, IssuerSigned accounts a))
  | .freezeAccount =>
      inferInstanceAs (Decidable (∀ a ∈ accounts[0]?, FreezerSigns t accounts (· ≠ .frozen) a))
  | .transfer _ | .burn _ | .approve _ | .revoke => isTrue trivial

instance (t : Accounts) (instr : Instruction) : Decidable (AuthorityOk t instr) :=
  inferInstanceAs (Decidable (∀ ix ∈ (tryFromSlice instr.data : Option TokenInstruction),
    AuthorityCare t (accountsOf t instr) ix))

/-! ## What an instruction does to a slot -/

/-- Both kinds of record at once. -/
def kinds (s : StoredAccount) : Option MintState × Option TokenAccountState :=
  (decoded MintState ProgramIds.tokenProgram s,
    decoded TokenAccountState ProgramIds.tokenProgram s)

/-- One record, before and after. -/
structure Allowed (t : Accounts) (accounts : List AccountInfo)
    (x x' : Option MintState × Option TokenAccountState) : Prop where
  supply : ∀ m m', x.1 = some m → x'.1 = some m' → m.supply < m'.supply →
    ∃ key ∈ m.mintAuthority, SignedBy accounts key
  authorities : ∀ m, x.1 = some m → m.isInitialized = true → ∃ m', x'.1 = some m' ∧
    m'.isInitialized = true ∧ m'.mintAuthority = m.mintAuthority ∧
      m'.freezeAuthority = m.freezeAuthority
  frozen : isFrozen x'.2 ≠ isFrozen x.2 → ∃ y, x.2 = some y ∧ FreezerSigned t accounts y

section
variable {t : Accounts} {accounts : List AccountInfo} {known : Prop} {a o : AccountInfo}
  {d : List UInt8} {m m' : MintState} {x x' : TokenAccountState}

theorem kinds_reading : Reading (none, none) kinds where
  congr howner hdata := by
    unfold kinds
    rw [(decoded_reading mint_nil).congr howner hdata,
      (decoded_reading token_nil).congr howner hdata]
  nil hdata := by
    unfold kinds
    rw [(decoded_reading mint_nil).nil hdata, (decoded_reading token_nil).nil hdata]

theorem kinds_mint {s : StoredAccount} (howner : s.owner = ProgramIds.tokenProgram)
    (h : tryFromSlice s.data = some m) : kinds s = (some m, none) := by
  unfold kinds decoded
  rw [if_pos howner, if_pos howner, h, mint_not_token h]

theorem kinds_token {s : StoredAccount} (howner : s.owner = ProgramIds.tokenProgram)
    (h : tryFromSlice s.data = some x) : kinds s = (none, some x) := by
  unfold kinds decoded
  rw [if_pos howner, if_pos howner, h, token_not_mint h]

theorem Allowed.refl (y : Option MintState × Option TokenAccountState) :
    Allowed t accounts y y := by
  constructor
  · intro m m' hm hm' hlt
    rw [hm, Option.some.injEq] at hm'
    rw [hm'] at hlt
    exact absurd hlt (UInt64.lt_irrefl _)
  · exact fun m hm hinit => ⟨m, hm, hinit, rfl, rfl⟩
  · exact fun hne => absurd rfl hne

/-- A mint that is written back keeps its authorities. -/
theorem allowed_mint
    (h : Passed ProgramIds.tokenProgram known a { a with data := d } o) (hknown : ¬ known)
    (hm : tryFromSlice a.data = some m) (hd : toVec m' = some d)
    (hkept : m'.isInitialized = m.isInitialized ∧ m'.mintAuthority = m.mintAuthority ∧
      m'.freezeAuthority = m.freezeAuthority)
    (hsupply : m.supply < m'.supply → ∃ key ∈ m.mintAuthority, SignedBy accounts key) :
    Allowed t accounts (kinds a.toStored) (kinds o.toStored) := by
  by_cases hsame : m' = m
  · subst hsame
    rw [kinds_reading.left h (data_eq_of_same hm hd)]
    exact .refl _
  · obtain ⟨hown, hown', hm'⟩ := h.changed mint_nil hknown hm hd hsame
    rw [kinds_mint (s := a.toStored) hown hm, kinds_mint (s := o.toStored) hown' hm']
    constructor
    · intro n n' hn hn' hlt
      cases hn
      cases hn'
      exact hsupply hlt
    · intro n hn hinit
      cases hn
      exact ⟨m', rfl, hkept.1.trans hinit, hkept.2⟩
    · exact fun hne => absurd rfl hne

/-- A token account that is written back is as frozen as it was, or its freezer signed. -/
theorem allowed_token
    (h : Passed ProgramIds.tokenProgram known a { a with data := d } o) (hknown : ¬ known)
    (hx : tryFromSlice a.data = some x) (hd : toVec x' = some d)
    (hfrozen : isFrozen (some x') ≠ isFrozen (some x) → FreezerSigned t accounts x) :
    Allowed t accounts (kinds a.toStored) (kinds o.toStored) := by
  by_cases hsame : x' = x
  · subst hsame
    rw [kinds_reading.left h (data_eq_of_same hx hd)]
    exact .refl _
  · obtain ⟨hown, hown', hx'⟩ := h.changed token_nil hknown hx hd hsame
    rw [kinds_token (s := a.toStored) hown hx, kinds_token (s := o.toStored) hown' hx']
    constructor
    · intro n n' hn
      cases hn
    · intro n hn
      cases hn
    · exact fun hne => ⟨x, rfl, hfrozen hne⟩

/-- A new record of either kind replaces no mint that is in use, and no frozen account whose
    freezer has not signed. -/
theorem allowed_fresh {y : Option MintState × Option TokenAccountState}
    (hown : a.owner = ProgramIds.tokenProgram ∨ a.data = [])
    (hsupply : ∀ m m' : MintState, tryFromSlice a.data = some m → y.1 = some m' → m'.supply = m.supply)
    (hfresh : ∀ m : MintState, tryFromSlice a.data = some m → m.isInitialized = false)
    (hthawed : isFrozen y.2 = false) (hsigned : FreezerSigns t accounts (· = .frozen) a) :
    Allowed t accounts (kinds a.toStored) y := by
  rcases hown with howner | hnil
  · have hmint : (kinds a.toStored).1 = tryFromSlice a.data := if_pos howner
    have htoken : (kinds a.toStored).2 = tryFromSlice a.data := if_pos howner
    constructor
    · intro m m' hm hm' hlt
      rw [hsupply m m' (hmint ▸ hm) hm'] at hlt
      exact absurd hlt (UInt64.lt_irrefl _)
    · intro m hm hinit
      rw [hfresh m (hmint ▸ hm)] at hinit
      simp at hinit
    · intro hne
      rw [hthawed, htoken] at hne
      cases hx : (tryFromSlice a.data : Option TokenAccountState) with
      | none => simp [hx, isFrozen] at hne
      | some x =>
        have hstate : x.state = .frozen := by simpa [hx, isFrozen] using hne
        exact ⟨x, htoken.trans hx, hsigned x hx hstate⟩
  · rw [kinds_reading.nil (s := a.toStored) hnil]
    constructor
    · intro m m' hm
      cases hm
    · intro m hm
      cases hm
    · intro hne
      rw [hthawed] at hne
      exact absurd rfl hne

end

/-! ## One instruction -/

section
variable {t t' : Accounts} {instr : Instruction} {a b o o' : AccountInfo}
  {rest out : List AccountInfo}

theorem kinds_readAt (t : Accounts) (k : Pubkey) :
    readAt (none, none) kinds t k = (mintAt t k, tokenAt t k) := by
  unfold mintAt tokenAt readAt
  cases t.lookup k with
  | none => rfl
  | some s => rfl

theorem authorized_of_slots (hkeys : out.map (·.key) = (accountsOf t instr).map (·.key))
    (hslots : ∀ (i : Nat) (a o : AccountInfo), (accountsOf t instr)[i]? = some a →
      out[i]? = some o →
      Allowed t (accountsOf t instr) (kinds a.toStored) (kinds o.toStored)) :
    Authorized (accountsOf t instr) t (t.write (entries out)) := by
  have hall : ∀ k, Allowed t (accountsOf t instr) (mintAt t k, tokenAt t k)
      (mintAt (t.write (entries out)) k, tokenAt (t.write (entries out)) k) := by
    intro k
    rw [← kinds_readAt, ← kinds_readAt]
    exact readAt_relates (R := fun _ => Allowed t (accountsOf t instr)) kinds_reading
      (fun _ y => .refl y) hkeys hslots k
  exact ⟨fun k => (hall k).supply, fun k => (hall k).authorities, fun k => (hall k).frozen⟩

theorem authorized_first (hacc : accountsOf t instr = a :: rest) (hkey : o.key = a.key)
    (h : Allowed t (accountsOf t instr) (kinds a.toStored) (kinds o.toStored)) :
    Authorized (accountsOf t instr) t (t.write (entries (o :: rest))) := by
  refine authorized_of_slots (by rw [hacc]; simp [hkey]) fun i x y hx hy => ?_
  rw [hacc] at hx
  match i with
  | 0 =>
    cases hx
    cases hy
    exact h
  | i + 1 =>
    rw [List.getElem?_cons_succ] at hx hy
    rw [hx, Option.some.injEq] at hy
    exact hy ▸ .refl _

theorem authorized_pair (hacc : accountsOf t instr = a :: b :: rest) (hkey : o.key = a.key)
    (hkey' : o'.key = b.key)
    (h : Allowed t (accountsOf t instr) (kinds a.toStored) (kinds o.toStored))
    (h' : Allowed t (accountsOf t instr) (kinds b.toStored) (kinds o'.toStored)) :
    Authorized (accountsOf t instr) t (t.write (entries (o :: o' :: rest))) := by
  refine authorized_of_slots (by rw [hacc]; simp [hkey, hkey']) fun i x y hx hy => ?_
  rw [hacc] at hx
  match i with
  | 0 =>
    cases hx
    cases hy
    exact h
  | 1 =>
    cases hx
    cases hy
    exact h'
  | i + 2 =>
    rw [List.getElem?_cons_succ, List.getElem?_cons_succ] at hx hy
    rw [hx, Option.some.injEq] at hy
    exact hy ▸ .refl _

/-- The first slot holds a token account and is written back. -/
theorem touch_writes {mid : List AccountInfo} {x x' : TokenAccountState}
    (hload : load (accountsOf t instr) 0 = .ok x)
    (h : store (accountsOf t instr) 0 x' = .ok mid) :
    ∃ a rest, WritesFirst (accountsOf t instr) mid a rest x' ∧
      tryFromSlice a.data = some x := by
  obtain ⟨a, rest, ha, hwrites⟩ := store_first h
  obtain ⟨a', ha', hdata⟩ := load_eq_ok hload
  rw [ha, Option.some.injEq] at ha'
  exact ⟨a, rest, hwrites, ha' ▸ hdata⟩

end

section
variable {ex : Executor} {tx : RuntimeTransaction} {t t' : Accounts} {instr : Instruction}

/-- A token instruction, from the program to the gate. -/
theorem token_tableStep (hprog : instr.programId = ProgramIds.tokenProgram)
    (h : tableStep ex .commit tx t instr = some t') :
    rejectDuplicateWritable (accountsOf t instr) = .ok () ∧ ∃ ix mid out, ∃ th th' : Thread,
      tryFromSlice instr.data = some ix ∧
      Token.run ex.machine.profile (accountsOf t instr) ix = .ok mid ∧ th.approved = ∅ ∧
      Comp.Returns (validateWrites ProgramIds.tokenProgram (accountsOf t instr) mid) th out th' ∧
      t' = t.write (entries out) := by
  obtain ⟨hdup, out, hout, rfl⟩ := tableStep_output h
  obtain ⟨th', hret⟩ := output_dispatch (by rw [hprog]; decide) (by rw [hprog]; decide) hout
  rw [hprog] at hret
  obtain ⟨mid, th, hmid, happ, hgate⟩ := dispatch_ofExcept (runBuiltin_token _ _ _ _ _) hret
  obtain ⟨ix, hix, hrun'⟩ := bind_eq_ok.mp hmid
  exact ⟨hdup, ix, mid, out, th, th', okOr_eq_ok.mp hix, hrun', happ, hgate, rfl⟩

/-- **Every instruction that the recorded authorities signed is authorized.** -/
theorem token_authorized (hprog : instr.programId = ProgramIds.tokenProgram)
    (hok : AuthorityOk t instr) (h : tableStep ex .commit tx t instr = some t') :
    Authorized (accountsOf t instr) t t' := by
  obtain ⟨hdup, ix, mid, out, th, th', hix, hrun, happ, hgate, rfl⟩ := token_tableStep hprog h
  have hcare := hok ix hix
  have hpost := token_run_post hrun
  have htouch : ∀ {x x' : TokenAccountState} {p : AccountState → Prop},
      load (accountsOf t instr) 0 = .ok x → store (accountsOf t instr) 0 x' = .ok mid →
      (∀ a ∈ (accountsOf t instr)[0]?, FreezerSigns t (accountsOf t instr) p a) →
      (isFrozen (some x') ≠ isFrozen (some x) → p x.state) →
      Authorized (accountsOf t instr) t (t.write (entries out)) := by
    intro x x' p hload hstore hsigns hp
    obtain ⟨a, rest, ⟨hacc, d, hd, rfl⟩, hx⟩ := touch_writes hload hstore
    rw [hacc] at hgate
    obtain ⟨o, rfl, hpassed⟩ := gate_first happ hgate rfl
    have hslot := hsigns a (by rw [hacc]; rfl)
    exact authorized_first hacc hpassed.key
      (allowed_token hpassed not_false hx hd fun hne => hslot x hx (hp hne))
  cases ix with
  | initializeMint decimals authority freeze =>
    obtain ⟨a, rest, mint, ⟨hacc, d, hd, rfl⟩, hfresh, hinit, hsupply⟩ := hpost
    have hslot := hcare a (by rw [hacc]; rfl)
    rw [hacc] at hgate
    obtain ⟨o, rfl, hpassed⟩ := gate_first happ hgate rfl
    have hother : tryFromSlice a.data ≠ some mint := by
      intro heq
      rw [heq, Option.getD_some, hinit] at hfresh
      simp at hfresh
    obtain ⟨hown, hown', hm⟩ := hpassed.filled not_false hd hother
    refine authorized_first hacc hpassed.key ?_
    rw [kinds_mint (s := o.toStored) hown' hm]
    refine allowed_fresh hown (fun m m' hdec heq => ?_) (fun m hdec => ?_) rfl hslot
    · cases heq
      rw [hsupply, hdec, Option.getD_some]
    · rw [hdec, Option.getD_some] at hfresh
      exact hfresh
  | initializeAccount =>
    obtain ⟨a, rest, token, ⟨hacc, d, hd, rfl⟩, hfresh, hstate, -⟩ := hpost
    have hslot := hcare a (by rw [hacc]; rfl)
    rw [hacc] at hgate
    obtain ⟨o, rfl, hpassed⟩ := gate_first happ hgate rfl
    have hother : tryFromSlice a.data ≠ some token := by
      intro heq
      rw [heq, Option.getD_some, hstate] at hfresh
      simp at hfresh
    obtain ⟨hown, hown', hx⟩ := hpassed.filled not_false hd hother
    refine authorized_first hacc hpassed.key ?_
    rw [kinds_token (s := o.toStored) hown' hx]
    refine allowed_fresh hown (fun m m' _ heq => ?_) hslot ?_ fun x hdec hfrozen => ?_
    · cases heq
    · simp [isFrozen, hstate]
    · rw [show tryFromSlice a.data = some x from hdec, Option.getD_some, hfrozen] at hfresh
      simp at hfresh
  | mintTo n =>
    obtain ⟨a, b, rest, mint, dest, supply, amount, hwrites, -, hsupply, -⟩ := hpost
    obtain ⟨hacc, hwritable, ⟨hv, hw⟩, d, e, hd, he, rfl⟩ := hwrites
    have hne := keys_ne (hacc ▸ hdup) hwritable
    rw [hacc] at hgate
    obtain ⟨o, o', rfl, hpassed, hpassed'⟩ := gate_pair happ hgate rfl rfl
    refine authorized_pair hacc hpassed.key hpassed'.key
      (allowed_mint hpassed not_false hv hd ⟨rfl, rfl, rfl⟩ fun hlt => ?_)
      (allowed_token hpassed' (fun heq => hne heq.symm) hw he fun hfrozen => absurd rfl hfrozen)
    rcases hcare with rfl | hsigned
    · have hgrown : mint.supply.toNat < supply.toNat := UInt64.lt_iff_toNat_lt.mp hlt
      rw [UInt64.toNat_zero] at hsupply
      omega
    · exact hsigned a (by rw [hacc]; rfl) mint hv
  | transfer n =>
    obtain ⟨a, b, rest, source, dest, left, amount, hwrites, -, -, -⟩ := hpost
    obtain ⟨hacc, hwritable, ⟨hv, hw⟩, d, e, hd, he, rfl⟩ := hwrites
    have hne := keys_ne (hacc ▸ hdup) hwritable
    rw [hacc] at hgate
    obtain ⟨o, o', rfl, hpassed, hpassed'⟩ := gate_pair happ hgate rfl rfl
    exact authorized_pair hacc hpassed.key hpassed'.key
      (allowed_token hpassed not_false hv hd fun hfrozen => absurd rfl hfrozen)
      (allowed_token hpassed' (fun heq => hne heq.symm) hw he fun hfrozen => absurd rfl hfrozen)
  | burn n =>
    obtain ⟨a, b, rest, token, mint, left, supply, hwrites, -, hsupply⟩ := hpost
    obtain ⟨hacc, hwritable, ⟨hv, hw⟩, d, e, hd, he, rfl⟩ := hwrites
    have hne := keys_ne (hacc ▸ hdup) hwritable
    rw [hacc] at hgate
    obtain ⟨o, o', rfl, hpassed, hpassed'⟩ := gate_pair happ hgate rfl rfl
    refine authorized_pair hacc hpassed.key hpassed'.key
      (allowed_token hpassed not_false hv hd fun hfrozen => absurd rfl hfrozen)
      (allowed_mint hpassed' (fun heq => hne heq.symm) hw he ⟨rfl, rfl, rfl⟩ fun hlt => ?_)
    have hgrown : mint.supply.toNat < supply.toNat := UInt64.lt_iff_toNat_lt.mp hlt
    omega
  | approve n =>
    obtain ⟨token, hload, h₁⟩ := bind_eq_ok.mp hrun
    obtain ⟨_, -, h₂⟩ := bind_eq_ok.mp h₁
    exact htouch (p := fun _ => False) hload h₂ (fun _ _ _ _ hp => hp.elim)
      fun hne => absurd rfl hne
  | revoke =>
    obtain ⟨token, hload, h₁⟩ := bind_eq_ok.mp hrun
    exact htouch (p := fun _ => False) hload h₁ (fun _ _ _ _ hp => hp.elim)
      fun hne => absurd rfl hne
  | freezeAccount =>
    obtain ⟨token, hload, h₁⟩ := bind_eq_ok.mp hrun
    exact htouch hload h₁ hcare fun hne heq => hne (by simp [isFrozen, heq])
  | thawAccount =>
    obtain ⟨token, hload, h₁⟩ := bind_eq_ok.mp hrun
    obtain ⟨_, hfrozen, h₂⟩ := bind_eq_ok.mp h₁
    exact htouch hload h₂ hcare fun _ => by simpa using require_eq_ok.mp hfrozen
  | closeAccount =>
    obtain ⟨a, b, rest, lamports, token, hacc, hx, -, rfl⟩ := hpost
    have hslot := hcare a (by rw [hacc]; rfl)
    rw [hacc] at hgate
    obtain ⟨o, o', rfl, hpassed, hpassed'⟩ := gate_pair happ hgate rfl rfl
    refine authorized_pair hacc hpassed.key hpassed'.key ?_ ?_
    · rw [kinds_reading.nil (s := o.toStored) hpassed.data]
      refine allowed_fresh ?_ (fun m m' _ heq => ?_) (fun m hdec => ?_) rfl hslot
      · rcases hpassed.allowed with hnil | howner | ⟨hnil, -⟩ | hknown
        · exact .inr hnil.symm
        · exact .inl howner
        · exact .inr hnil
        · exact hknown.elim
      · cases heq
      · rw [token_not_mint hx] at hdec
        cases hdec
    · rw [kinds_reading.left hpassed' rfl]
      exact .refl _

end

/-! ## Runs -/

/-- What a committed instruction does is authorized. -/
def StepAuthorized (ex : Executor) (tx : RuntimeTransaction) (t : Accounts)
    (instr : Instruction) : Prop :=
  ∀ t', tableStep ex .commit tx t instr = some t' → Authorized (accountsOf t instr) t t'

/-- Mints that are in use stay in use, under the same authorities. -/
def MintsKept (t t' : Accounts) : Prop :=
  ∀ k x, mintAt t k = some x → x.isInitialized = true → ∃ x', mintAt t' k = some x' ∧
    x'.isInitialized = true ∧ x'.mintAuthority = x.mintAuthority ∧
      x'.freezeAuthority = x.freezeAuthority

theorem MintsKept.trans {t t' t'' : Accounts} (h : MintsKept t t') (h' : MintsKept t' t'') :
    MintsKept t t'' := by
  intro k x hx hinit
  obtain ⟨y, hy, hinit', hissuer, hfreezer⟩ := h k x hx hinit
  obtain ⟨z, hz, hinit'', hissuer', hfreezer'⟩ := h' k y hy hinit'
  exact ⟨z, hz, hinit'', hissuer'.trans hissuer, hfreezer'.trans hfreezer⟩

/-- **The authorities are obeyed.** In every run of token transactions whose committed instructions
    the recorded authorities have signed as `AuthorityCare` says, supplies grow, accounts are
    frozen and accounts are thawed only with the signature of the authority recorded for it, in
    every instruction of the run, and no mint changes its authorities. -/
theorem token_authority (ex : Executor) (w w' : World) (txs : List RuntimeTransaction)
    (hmeets : Meets (programStep ProgramIds.tokenProgram ex)
      (CommitsMeet (fun _ => AuthorityOk) ex) w txs)
    (hrun : Lib.run (programStep ProgramIds.tokenProgram ex) w txs = some w') :
    Meets (programStep ProgramIds.tokenProgram ex) (CommitsMeet (StepAuthorized ex) ex) w txs ∧
      MintsKept w.state.accounts w'.state.accounts := by
  constructor
  · exact programRun_each (I := fun _ => True) (fun _ _ _ _ _ _ _ _ => trivial)
      (fun tx t instr hprog hok _ t' hstep => token_authorized hprog hok hstep) hmeets trivial hrun
  · have hrefl : MintsKept w.state.accounts w.state.accounts :=
      fun k x hx hinit => ⟨x, hx, hinit, rfl, rfl⟩
    refine programRun_invariant (I := MintsKept w.state.accounts)
      (fun tx t instr t' hprog hok hkept hstep => ?_) hmeets hrefl hrun
    exact hkept.trans (token_authorized hprog hok hstep).authorities

/-- A mint `1` with nothing issued, under the authority `9`, and an account `2` of it. -/
def mintedBy9 : World where
  state :=
    { accounts := (∅ : Accounts).write
        [(.repeated 1, ⟨1, (toVec ({ mintAuthority := some (.repeated 9), isInitialized := true } :
            MintState)).getD [], ProgramIds.tokenProgram, false, none, none⟩),
          (.repeated 2, ⟨1, (toVec ({ mint := .repeated 1, state := .initialized } :
            TokenAccountState)).getD [], ProgramIds.tokenProgram, false, none, none⟩)] }

/-- Issuing 5 with the signature of `signer`. -/
def issueBy (signer : Pubkey) : RuntimeTransaction :=
  signedBy [signer] [mintTo (.repeated 1) (.repeated 2) signer 5]

/-- What that leaves. -/
def issuedTable (signer : Pubkey) : Option Accounts :=
  Lib.run (tableStep (.bare .dev) .commit (issueBy signer)) mintedBy9.state.accounts
    (issueBy signer).message.instructions

theorem token_authority_issue : ∃ w',
    Lib.run (programStep ProgramIds.tokenProgram (.bare .dev)) mintedBy9 [issueBy (.repeated 9)] =
        some w' ∧
      (mintAt w'.state.accounts (.repeated 1)).any (·.supply == 5) = true ∧
      Meets (programStep ProgramIds.tokenProgram (.bare .dev))
        (CommitsMeet (StepAuthorized (.bare .dev)) (.bare .dev)) mintedBy9
        [issueBy (.repeated 9)] := by
  have hcheck : (issuedTable (.repeated 9)).any (fun t =>
      (mintAt t (.repeated 1)).any (·.supply == 5) = true ∧
      ∀ e ∈ t.entries, e.2.data.length < 2 ^ 32) = true := by decide
  obtain ⟨t, ht, hthen⟩ := (Option.any_eq_true _ _).mp hcheck
  obtain ⟨hsupply, henc⟩ := of_decide_eq_true hthen
  obtain ⟨w', hrun, rfl⟩ := programRun_single ProgramIds.tokenProgram
    (w := mintedBy9) (by decide) rfl ht henc
  have hok : CommitsMeet (fun _ => AuthorityOk) (.bare .dev) mintedBy9 (issueBy (.repeated 9)) :=
    fun _ => by decide
  have hmeets : Meets (programStep ProgramIds.tokenProgram (.bare .dev))
      (CommitsMeet (fun _ => AuthorityOk) (.bare .dev)) mintedBy9 [issueBy (.repeated 9)] :=
    ⟨hok, fun _ _ => trivial⟩
  exact ⟨w', hrun, hsupply, (token_authority (.bare .dev) _ _ _ hmeets hrun).1⟩

/-- **Anyone issues tokens.** Whoever signs as the third account can mint under any authority. -/
theorem stranger_issues_tokens : ¬ ∀ (ex : Executor) (w w' : World)
    (txs : List RuntimeTransaction),
    Lib.run (programStep ProgramIds.tokenProgram ex) w txs = some w' →
    Meets (programStep ProgramIds.tokenProgram ex) (CommitsMeet (StepAuthorized ex) ex) w txs ∧
      MintsKept w.state.accounts w'.state.accounts := by
  intro hclaim
  have hcheck : (issuedTable (.repeated 5)).any (fun t =>
      (mintAt t (.repeated 1)).any (·.supply == 5) = true ∧
      ∀ e ∈ t.entries, e.2.data.length < 2 ^ 32) = true := by decide
  obtain ⟨t, ht, hthen⟩ := (Option.any_eq_true _ _).mp hcheck
  obtain ⟨hsupply, henc⟩ := of_decide_eq_true hthen
  obtain ⟨w', hrun, rfl⟩ := programRun_single ProgramIds.tokenProgram
    (w := mintedBy9) (by decide) rfl ht henc
  have hcommit : ((Executor.bare .dev).apply mintedBy9 (issueBy (.repeated 5)) .commit).1 =
      .ok () := (apply_of_run rfl ht henc).1
  obtain ⟨t₁, ht₁, hlast⟩ := run_cons ht
  cases hlast
  -- The supply went from 0 to 5, and 9 did not sign.
  have hstep := ((hclaim _ _ _ _ hrun).1.1 hcommit).1 _ ht₁
  obtain ⟨x', hx', hfive⟩ := (Option.any_eq_true _ _).mp hsupply
  have hbefore : mintAt mintedBy9.state.accounts (.repeated 1) =
      some { mintAuthority := some (.repeated 9), isInitialized := true } := by decide
  have hgrown : (0 : UInt64) < x'.supply := by
    rw [eq_of_beq hfive]
    decide
  obtain ⟨key, hkey, hsigned⟩ := hstep.supply _ _ _ hbefore hx' hgrown
  cases hkey
  exact absurd hsigned (by decide)

end Proof
end Himsha
