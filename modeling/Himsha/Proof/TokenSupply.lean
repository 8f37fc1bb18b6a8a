import Himsha.Proof.Records

/-!
# Supply and balances of the token program

The supply of a mint should be what its token accounts hold together. An account counts by what
its data decodes to and by its owner, so both sides of that equation are weights of the account
table (`issue` and `holding`), and an instruction shows in them only through the slots it writes
and the gate lets through.

The equation is not kept by every instruction: a burn does not compare the account with the mint, a
stale copy undoes one half of a movement, nothing checks that what is credited was initialised, and
a mint can be initialised over an account that still counts. `TokenOk` is the absence of these, and
`supply_backed` says that nothing else goes wrong.
-/

set_option autoImplicit false

namespace Himsha
namespace Proof

open Himsha.Lib Himsha.Runtime Himsha.Programs Himsha.Vm Himsha.Node Token

/-- What a record holds of the mint `m`: the amount of a token account that is initialised or
    frozen. -/
def holding (m : Pubkey) (s : StoredAccount) : Nat :=
  if s.owner = ProgramIds.tokenProgram then
    match tryFromSlice (α := TokenAccountState) s.data with
    | some token => if token.state ≠ .uninitialized ∧ token.mint = m then token.amount.toNat else 0
    | none => 0
  else 0

/-- One more than the supply of an initialised mint, 0 for any other record. -/
def issue (s : StoredAccount) : Nat :=
  match tryFromSlice (α := MintState) s.data with
  | some mint => if mint.isInitialized then mint.supply.toNat + 1 else 0
  | none => 0

/-- **The supply equation**: the supply of every initialised mint is what is held of it. -/
def Backed (t : Accounts) : Prop :=
  ∀ m s, ∀ mint : MintState, t.lookup m = some s → tryFromSlice s.data = some mint →
    mint.isInitialized = true → mint.supply.toNat = Table.total (holding m) t

/-- What the token program owns and is not initialised neither issues nor holds. -/
def Inert (s : StoredAccount) : Prop :=
  s.owner = ProgramIds.tokenProgram →
    (∀ mint : MintState, tryFromSlice s.data = some mint → mint.isInitialized = false →
      mint.supply = 0) ∧
    ∀ token : TokenAccountState, tryFromSlice s.data = some token →
      token.state = .uninitialized → token.amount = 0

/-! ## What a record weighs -/

section
variable {m : Pubkey} {s : StoredAccount}

theorem holding_of_token (howner : s.owner = ProgramIds.tokenProgram) {token : TokenAccountState}
    (h : tryFromSlice s.data = some token) : holding m s =
      if token.state ≠ .uninitialized ∧ token.mint = m then token.amount.toNat else 0 := by
  simp only [holding, howner, if_true, h]

theorem holding_of_none (h : tryFromSlice (α := TokenAccountState) s.data = none) :
    holding m s = 0 := by
  simp only [holding, h]
  split <;> rfl

theorem issue_of_mint {mint : MintState} (h : tryFromSlice s.data = some mint) :
    issue s = if mint.isInitialized then mint.supply.toNat + 1 else 0 := by
  simp only [issue, h]

theorem issue_of_none (h : tryFromSlice (α := MintState) s.data = none) : issue s = 0 := by
  simp only [issue, h]

theorem inert_of_token {token : TokenAccountState} (h : tryFromSlice s.data = some token)
    (hidle : token.state = .uninitialized → token.amount = 0) : Inert s := by
  refine fun _ => ⟨fun mint hmint => ?_, fun token' htoken hstate => ?_⟩
  · rw [token_not_mint h] at hmint
    simp at hmint
  · rw [h, Option.some.injEq] at htoken
    subst htoken
    exact hidle hstate

theorem inert_of_mint {mint : MintState} (h : tryFromSlice s.data = some mint)
    (hidle : mint.isInitialized = false → mint.supply = 0) : Inert s := by
  refine fun _ => ⟨fun mint' hmint hinit => ?_, fun token htoken => ?_⟩
  · rw [h, Option.some.injEq] at hmint
    subst hmint
    exact hidle hinit
  · rw [mint_not_token h] at htoken
    simp at htoken

end

theorem inert_of_nil {s : StoredAccount} (h : s.data = []) : Inert s := by
  refine fun _ => ⟨fun mint hmint => ?_, fun token htoken => ?_⟩
  · rw [h, mint_nil] at hmint
    simp at hmint
  · rw [h, token_nil] at htoken
    simp at htoken

theorem Inert.congr {s s' : StoredAccount} (h : Inert s) (howner : s'.owner = s.owner)
    (hdata : s'.data = s.data) : Inert s' := by
  unfold Inert at h ⊢
  rw [howner, hdata]
  exact h

/-- A weight that only looks at the owner and the data, and at nothing where there is none. -/
structure TokenView (f : StoredAccount → Nat) : Prop where
  congr : ∀ {s s' : StoredAccount}, s.owner = s'.owner → s.data = s'.data → f s = f s'
  nil : ∀ {s : StoredAccount}, s.data = [] → f s = 0

theorem holding_view (m : Pubkey) : TokenView (holding m) where
  congr := by
    intro s s' howner hdata
    simp only [holding, howner, hdata]
  nil := by
    intro s hdata
    exact holding_of_none (by rw [hdata, token_nil])

theorem issue_view : TokenView issue where
  congr := by
    intro s s' _ hdata
    simp only [issue, hdata]
  nil := by
    intro s hdata
    exact issue_of_none (by rw [hdata, mint_nil])

theorem backed_iff {t : Accounts} : Backed t ↔
    ∀ m n, Table.weight issue t m = n + 1 → n = Table.total (holding m) t := by
  constructor
  · intro h m n hn
    unfold Table.weight at hn
    cases hlook : t.lookup m with
    | none => simp [hlook] at hn
    | some s =>
      simp only [hlook, Option.map_some, Option.getD_some] at hn
      cases hmint : tryFromSlice (α := MintState) s.data with
      | none => simp [issue_of_none hmint] at hn
      | some mint =>
        rw [issue_of_mint hmint] at hn
        split at hn
        · rename_i hinit
          rw [← h m s mint hlook hmint hinit]
          omega
        · simp at hn
  · intro h m s mint hlook hmint hinit
    apply h m
    simp [Table.weight, hlook, issue_of_mint hmint, hinit]

/-! ## Slots -/

section
variable {f : StoredAccount → Nat} {t : Accounts} {instr : Instruction} {a b o : AccountInfo}
  {rest : List AccountInfo} {known : Prop}

/-- The keys of some slots. -/
def keysOf (accounts : List AccountInfo) : List Pubkey := accounts.map (·.key)

theorem accountAt_weight (hf : TokenView f) (t : Accounts) (programId : Pubkey)
    (am : AccountMeta) :
    f (accountAt t programId am).toStored = Table.weight f t am.pubkey := by
  unfold accountAt Table.weight
  cases t.lookup am.pubkey with
  | some stored => exact hf.congr rfl rfl
  | none => exact hf.nil rfl

theorem accountsOf_standing (hf : TokenView f) (t : Accounts) (instr : Instruction) :
    Table.weights f (entries (accountsOf t instr)) =
      Table.standing f t (keysOf (accountsOf t instr)) := by
  unfold Table.weights entries Table.standing keysOf accountsOf
  simp only [List.map_map]
  refine List.map_congr_left fun am _ => ?_
  simp only [Function.comp_apply, accountAt_weight hf, accountAt_key]

/-- The slots of an instruction weigh what is stored. -/
theorem weight_first (hf : TokenView f) (h : accountsOf t instr = a :: rest) :
    Table.weight f t a.key = f a.toStored ∧
      Table.weights f (entries rest) = Table.standing f t (keysOf rest) := by
  have hall := accountsOf_standing hf t instr
  rw [h] at hall
  obtain ⟨hfirst, hrest⟩ := List.cons.inj hall
  exact ⟨(congrArg Prod.snd hfirst).symm, hrest⟩

theorem weight_pair (hf : TokenView f) (h : accountsOf t instr = a :: b :: rest) :
    Table.weight f t a.key = f a.toStored ∧ Table.weight f t b.key = f b.toStored ∧
      Table.weights f (entries rest) = Table.standing f t (keysOf rest) := by
  obtain ⟨hfirst, hall⟩ := weight_first hf h
  obtain ⟨hsecond, hrest⟩ := List.cons.inj hall
  exact ⟨hfirst, (congrArg Prod.snd hsecond).symm, hrest⟩

theorem inert_accountsOf (hinert : ∀ k s, t.lookup k = some s → Inert s)
    (h : a ∈ accountsOf t instr) : Inert a.toStored := by
  obtain ⟨am, -, rfl⟩ := List.mem_map.mp h
  unfold accountAt
  cases hlook : t.lookup am.pubkey with
  | some stored => exact (hinert _ _ hlook).congr rfl rfl
  | none => exact inert_of_nil rfl

/-- A slot whose data the program left alone weighs what it did. -/
theorem TokenView.left (hf : TokenView f) {post : AccountInfo}
    (h : Passed ProgramIds.tokenProgram known a post o) (hdata : post.data = a.data) :
    f o.toStored = f a.toStored := by
  have hsame : o.data = a.data := h.data.trans hdata
  rcases h.owner with howner | ⟨hnil, -⟩
  · exact hf.congr howner hsame
  · rw [hf.nil (s := o.toStored) (hsame.trans hnil), hf.nil (s := a.toStored) hnil]

theorem Inert.left {post : AccountInfo} (hinert : Inert a.toStored)
    (h : Passed ProgramIds.tokenProgram known a post o) (hdata : post.data = a.data) :
    Inert o.toStored := by
  have hsame : o.data = a.data := h.data.trans hdata
  rcases h.owner with howner | ⟨hnil, -⟩
  · exact hinert.congr howner hsame
  · exact inert_of_nil (s := o.toStored) (hsame.trans hnil)

end

/-! ## What keeps the equation -/

section
variable {t : Accounts} {es : List (Pubkey × StoredAccount)} {k₀ k₁ : Pubkey}
  {rest : List Pubkey}

/-- Supply and holdings of a mint change by the same amount. -/
theorem Backed.of_change {t' : Accounts} (hback : Backed t)
    (h : ∀ m n, Table.weight issue t' m = n + 1 → ∃ n', Table.weight issue t m = n' + 1 ∧
      n + Table.total (holding m) t = n' + Table.total (holding m) t') : Backed t' := by
  rw [backed_iff] at hback ⊢
  intro m n hn
  obtain ⟨n', hn', hchange⟩ := h m n hn
  have hbefore := hback m n' hn'
  omega

/-- A write to one slot that holds as much as before, and is no new mint. -/
theorem Backed.write_first (hback : Backed t) {i : Nat}
    (hhold : ∀ m, Table.weights (holding m) es =
      (k₀, Table.weight (holding m) t k₀) :: Table.standing (holding m) t rest)
    (hissue : Table.weights issue es = (k₀, i) :: Table.standing issue t rest)
    (hi : i = Table.weight issue t k₀ ∨ i = 0) : Backed (t.write es) := by
  refine hback.of_change fun m n hn => ⟨n, ?_, ?_⟩
  · rw [Table.weight_write_first hissue] at hn
    split at hn
    · exact hn
    · split at hn
      · rename_i hk
        subst hk
        rcases hi with rfl | rfl
        · exact hn
        · simp at hn
      · exact hn
  · have htotal := Table.total_write_first (hhold m)
    split at htotal <;> omega

/-- The same for two slots. -/
theorem Backed.write_pair (hback : Backed t) {i j : Nat}
    (hhold : ∀ m, Table.weights (holding m) es =
      (k₀, Table.weight (holding m) t k₀) :: (k₁, Table.weight (holding m) t k₁) ::
        Table.standing (holding m) t rest)
    (hissue : Table.weights issue es = (k₀, i) :: (k₁, j) :: Table.standing issue t rest)
    (hi : i = Table.weight issue t k₀ ∨ i = 0) (hj : j = Table.weight issue t k₁) :
    Backed (t.write es) := by
  refine hback.of_change fun m n hn => ⟨n, ?_, ?_⟩
  · rw [Table.weight_write_pair hissue] at hn
    split at hn
    · exact hn
    · split at hn
      · rename_i hk
        subst hk
        exact hj ▸ hn
      · split at hn
        · rename_i hk
          subst hk
          rcases hi with rfl | rfl
          · exact hn
          · simp at hn
        · exact hn
  · have htotal := Table.total_write_pair (hhold m)
    omega

variable {x y : Pubkey → Nat} {i j : Nat}

/-- A write to two slots both of which are undone by copies. -/
theorem Backed.write_stale (hback : Backed t)
    (hhold : ∀ m, Table.weights (holding m) es =
      (k₀, x m) :: (k₁, y m) :: Table.standing (holding m) t rest)
    (hissue : Table.weights issue es = (k₀, i) :: (k₁, j) :: Table.standing issue t rest)
    (h₀ : k₀ ∈ rest) (h₁ : k₁ ∈ rest) : Backed (t.write es) := by
  refine hback.of_change fun m n hn => ⟨n, ?_, ?_⟩
  · rw [Table.weight_write_pair hissue] at hn
    split at hn
    · exact hn
    · rename_i hm
      have hm₀ : ¬ m = k₀ := fun h => hm (h ▸ h₀)
      have hm₁ : ¬ m = k₁ := fun h => hm (h ▸ h₁)
      rw [if_neg hm₁, if_neg hm₀] at hn
      exact hn
  · have htotal := Table.total_write_pair (hhold m)
    rw [if_pos (List.mem_cons_of_mem _ h₀), if_pos h₁, if_pos (List.mem_cons_of_mem _ h₀),
      if_pos h₁] at htotal
    omega

/-- A write to two slots both of which stay. -/
theorem Backed.write_live (hback : Backed t)
    (hhold : ∀ m, Table.weights (holding m) es =
      (k₀, x m) :: (k₁, y m) :: Table.standing (holding m) t rest)
    (hissue : Table.weights issue es = (k₀, i) :: (k₁, j) :: Table.standing issue t rest)
    (hne : k₀ ≠ k₁) (h₀ : k₀ ∉ rest) (h₁ : k₁ ∉ rest)
    (hchange : ∀ m n, (if m = k₁ then j else if m = k₀ then i else Table.weight issue t m) =
      n + 1 → ∃ n', Table.weight issue t m = n' + 1 ∧
        n + Table.weight (holding m) t k₀ + Table.weight (holding m) t k₁ = n' + x m + y m) :
    Backed (t.write es) := by
  refine hback.of_change fun m n hn => ?_
  rw [Table.weight_write_pair hissue] at hn
  have hn' : (if m = k₁ then j else if m = k₀ then i else Table.weight issue t m) = n + 1 := by
    split at hn
    · rename_i hm
      have hm₀ : ¬ m = k₀ := fun h => h₀ (h ▸ hm)
      have hm₁ : ¬ m = k₁ := fun h => h₁ (h ▸ hm)
      rw [if_neg hm₁, if_neg hm₀]
      exact hn
    · exact hn
  obtain ⟨n', hbefore, hsum⟩ := hchange m n hn'
  have htotal := Table.total_write_pair (hhold m)
  have hnot : k₀ ∉ k₁ :: rest := by simp [hne, h₀]
  rw [if_neg hnot, if_neg h₁, if_neg hnot, if_neg h₁] at htotal
  exact ⟨n', hbefore, by omega⟩

end

/-- The invariant of a run. -/
structure Sound (t : Accounts) : Prop where
  inert : ∀ k s, t.lookup k = some s → Inert s
  backed : Backed t

section
variable {t : Accounts} {instr : Instruction} {a b o o' : AccountInfo} {rest : List AccountInfo}

theorem inert_write (hs : Sound t) {es : List (Pubkey × StoredAccount)}
    (h : ∀ e ∈ Table.survivors es, Inert e.2) :
    ∀ k s, (t.write es).lookup k = some s → Inert s := by
  intro k s hlook
  rcases Table.lookup_write_mem hlook with hmem | hbefore
  · exact h _ hmem
  · exact hs.inert k s hbefore

theorem inert_entries (hs : Sound t) (h : ∀ c ∈ rest, c ∈ accountsOf t instr) :
    ∀ e ∈ entries rest, Inert e.2 := by
  intro e he
  obtain ⟨c, hc, rfl⟩ := List.mem_map.mp he
  exact inert_accountsOf hs.inert (h c hc)

theorem sound_first (hs : Sound t) (hacc : accountsOf t instr = a :: rest)
    (hkey : o.key = a.key) (hhold : ∀ m, holding m o.toStored = holding m a.toStored)
    (hissue : issue o.toStored = issue a.toStored ∨ issue o.toStored = 0)
    (ho : Inert o.toStored) : Sound (t.write (entries (o :: rest))) := by
  constructor
  · refine inert_write hs fun e he => ?_
    rcases List.mem_cons.mp (Table.mem_of_mem_survivors he) with rfl | hmem
    · exact ho
    · exact inert_entries hs (fun c hc => hacc ▸ List.mem_cons_of_mem _ hc) e hmem
  · have hholds : ∀ m, Table.weights (holding m) (entries (o :: rest)) =
        (a.key, Table.weight (holding m) t a.key) ::
          Table.standing (holding m) t (keysOf rest) := by
      intro m
      obtain ⟨hfirst, hrest⟩ := weight_first (holding_view m) hacc
      rw [hfirst, ← hrest, ← hhold m, ← hkey]
      rfl
    have hissues : Table.weights issue (entries (o :: rest)) =
        (a.key, issue o.toStored) :: Table.standing issue t (keysOf rest) := by
      rw [← (weight_first issue_view hacc).2, ← hkey]
      rfl
    refine hs.backed.write_first hholds hissues ?_
    rw [(weight_first issue_view hacc).1]
    exact hissue

/-- The weights of a table of which two slots were written. -/
theorem weights_pair {f : StoredAccount → Nat} (hf : TokenView f)
    (hacc : accountsOf t instr = a :: b :: rest) (hkey : o.key = a.key) (hkey' : o'.key = b.key) :
    Table.weights f (entries (o :: o' :: rest)) = (a.key, f o.toStored) ::
      (b.key, f o'.toStored) :: Table.standing f t (keysOf rest) := by
  rw [← (weight_pair hf hacc).2.2, ← hkey, ← hkey']
  rfl

theorem inert_pair (hs : Sound t) (hacc : accountsOf t instr = a :: b :: rest)
    (ho : Inert o.toStored) (ho' : Inert o'.toStored) :
    ∀ k s, (t.write (entries (o :: o' :: rest))).lookup k = some s → Inert s := by
  refine inert_write hs fun e he => ?_
  have hmem : e ∈ (o.key, o.toStored) :: (o'.key, o'.toStored) :: entries rest :=
    Table.mem_of_mem_survivors he
  simp only [List.mem_cons] at hmem
  rcases hmem with rfl | rfl | hmem
  · exact ho
  · exact ho'
  · exact inert_entries hs (fun c hc => hacc ▸ List.mem_cons_of_mem _ (List.mem_cons_of_mem _ hc))
      e hmem

theorem sound_pair (hs : Sound t) (hacc : accountsOf t instr = a :: b :: rest)
    (hkey : o.key = a.key) (hkey' : o'.key = b.key)
    (hhold : ∀ m, holding m o.toStored = holding m a.toStored)
    (hhold' : ∀ m, holding m o'.toStored = holding m b.toStored)
    (hissue : issue o.toStored = issue a.toStored ∨ issue o.toStored = 0)
    (hissue' : issue o'.toStored = issue b.toStored)
    (ho : Inert o.toStored) (ho' : Inert o'.toStored) :
    Sound (t.write (entries (o :: o' :: rest))) := by
  refine ⟨inert_pair hs hacc ho ho', hs.backed.write_pair (fun m => ?_)
    (weights_pair issue_view hacc hkey hkey') ?_ ?_⟩
  · obtain ⟨hfirst, hsecond, -⟩ := weight_pair (holding_view m) hacc
    rw [weights_pair (holding_view m) hacc hkey hkey', hfirst, hsecond, hhold m, hhold' m]
  · rw [(weight_pair issue_view hacc).1]
    exact hissue
  · rw [(weight_pair issue_view hacc).2.1, hissue']

theorem sound_stale (hs : Sound t) (hacc : accountsOf t instr = a :: b :: rest)
    (hkey : o.key = a.key) (hkey' : o'.key = b.key) (h₀ : a.key ∈ keysOf rest)
    (h₁ : b.key ∈ keysOf rest) : Sound (t.write (entries (o :: o' :: rest))) := by
  constructor
  · refine inert_write hs fun e he => ?_
    -- Neither of the two survives.
    have hkeys : (entries rest).map Prod.fst = keysOf rest := by
      simp [entries, keysOf, List.map_map, Function.comp_def]
    have hsurvivors : Table.survivors (entries (o :: o' :: rest)) =
        Table.survivors (entries rest) := by
      change Table.survivors ((o.key, o.toStored) :: (o'.key, o'.toStored) :: entries rest) = _
      rw [Table.survivors_cons, Table.survivors_cons, List.map_cons, hkeys, hkey, hkey', if_pos h₁,
        if_pos (List.mem_cons_of_mem _ h₀)]
    rw [hsurvivors] at he
    exact inert_entries hs (fun c hc => hacc ▸ List.mem_cons_of_mem _ (List.mem_cons_of_mem _ hc))
      e (Table.mem_of_mem_survivors he)
  · exact hs.backed.write_stale (fun m => weights_pair (holding_view m) hacc hkey hkey')
      (weights_pair issue_view hacc hkey hkey') h₀ h₁

theorem sound_live (hs : Sound t) (hacc : accountsOf t instr = a :: b :: rest)
    (hkey : o.key = a.key) (hkey' : o'.key = b.key) (hne : a.key ≠ b.key)
    (h₀ : a.key ∉ keysOf rest) (h₁ : b.key ∉ keysOf rest) (ho : Inert o.toStored)
    (ho' : Inert o'.toStored)
    (hchange : ∀ m n, (if m = b.key then issue o'.toStored else if m = a.key then issue o.toStored
        else Table.weight issue t m) = n + 1 →
      ∃ n', Table.weight issue t m = n' + 1 ∧
        n + holding m a.toStored + holding m b.toStored =
          n' + holding m o.toStored + holding m o'.toStored) :
    Sound (t.write (entries (o :: o' :: rest))) := by
  refine ⟨inert_pair hs hacc ho ho', hs.backed.write_live
    (fun m => weights_pair (holding_view m) hacc hkey hkey')
    (weights_pair issue_view hacc hkey hkey') hne h₀ h₁ fun m n hn => ?_⟩
  obtain ⟨hfirst, hsecond, -⟩ := weight_pair (holding_view m) hacc
  rw [hfirst, hsecond]
  exact hchange m n hn

end

/-! ## When an instruction does no harm -/

/-- The first slot, where it is a mint, is an initialised one. -/
def mintReady (a : AccountInfo) : Bool :=
  (tryFromSlice (α := MintState) a.data).all (·.isInitialized)

/-- A token account that counts. -/
def tokenReady (a : AccountInfo) : Bool :=
  (tryFromSlice (α := TokenAccountState) a.data).all (·.state != .uninitialized)

/-- A token account of the mint `m`. -/
def ofMint (m : Pubkey) (a : AccountInfo) : Bool :=
  (tryFromSlice (α := TokenAccountState) a.data).all (·.mint == m)

/-- Not a token account with a balance. -/
def holdsNothing (a : AccountInfo) : Bool :=
  (tryFromSlice (α := TokenAccountState) a.data).all (·.amount == 0)

/-- A movement between the first two slots: of nothing, or undone on both sides by copies, or
    undone on neither and between accounts that are `good`. -/
def PairOk (n : UInt64) (good : AccountInfo → AccountInfo → Bool) : List AccountInfo → Prop
  | a :: b :: rest =>
      n = 0 ∨ (a.key ∈ keysOf rest ∧ b.key ∈ keysOf rest) ∨
        (a.key ∉ keysOf rest ∧ b.key ∉ keysOf rest ∧ good a b = true)
  | _ => True

/-- A new mint, unless undone by a copy: not in the place of a token account with a balance, and
    not under a key that token accounts with a balance refer to. -/
def OpensOk (t : Accounts) : List AccountInfo → Prop
  | a :: rest =>
      a.key ∈ keysOf rest ∨ (holdsNothing a = true ∧ Table.total (holding a.key) t = 0)
  | [] => True

/-- The instructions that keep the supply equation. -/
def TokenOk (t : Accounts) (instr : Instruction) : Prop :=
  match tryFromSlice instr.data with
  | some (TokenInstruction.initializeMint _ _ _) => OpensOk t (accountsOf t instr)
  | some (.mintTo n) => PairOk n (fun a b => mintReady a && tokenReady b) (accountsOf t instr)
  | some (.transfer n) => PairOk n (fun _ b => tokenReady b) (accountsOf t instr)
  | some (.burn n) => PairOk n (fun a b => ofMint b.key a) (accountsOf t instr)
  | _ => True

instance (n : UInt64) (good : AccountInfo → AccountInfo → Bool) (accounts : List AccountInfo) :
    Decidable (PairOk n good accounts) := by
  unfold PairOk
  split <;> infer_instance

instance (t : Accounts) (accounts : List AccountInfo) : Decidable (OpensOk t accounts) := by
  unfold OpensOk
  split <;> infer_instance

instance (t : Accounts) (instr : Instruction) : Decidable (TokenOk t instr) := by
  unfold TokenOk
  split <;> infer_instance

/-! ## The ten instructions -/

section
variable {t : Accounts} {instr : Instruction} {a b o o' : AccountInfo} {rest : List AccountInfo}
  {data : List UInt8}

/-- Approving, revoking, freezing and thawing. -/
theorem touch_sound (hs : Sound t) (hacc : accountsOf t instr = a :: rest)
    (hpassed : Passed ProgramIds.tokenProgram False a { a with data } o)
    {token token' : TokenAccountState} (hold : tryFromSlice a.data = some token)
    (hnew : toVec token' = some data) (hmint : token'.mint = token.mint)
    (hamount : token'.amount = token.amount)
    (hstate : token'.state = .uninitialized → token.state = .uninitialized) :
    Sound (t.write (entries (o :: rest))) := by
  have hinert : Inert a.toStored := inert_accountsOf hs.inert (hacc ▸ List.mem_cons_self)
  by_cases hsame : token' = token
  · subst hsame
    have hdata := data_eq_of_same hold hnew
    exact sound_first hs hacc hpassed.key (fun m => (holding_view m).left hpassed hdata)
      (.inl (issue_view.left hpassed hdata)) (hinert.left hpassed hdata)
  · obtain ⟨howner, howner', hdec⟩ := hpassed.changed token_nil not_false hold hnew hsame
    have hidle : token.state = .uninitialized → token.amount = 0 := (hinert howner).2 token hold
    refine sound_first hs hacc hpassed.key (fun m => ?_) (.inr (issue_of_none
      (token_not_mint hdec))) (inert_of_token hdec fun h => hamount.trans (hidle (hstate h)))
    rw [holding_of_token (s := o.toStored) howner' hdec,
      holding_of_token (s := a.toStored) howner hold, hmint, hamount]
    by_cases hfresh : token.state = .uninitialized
    · simp [hidle hfresh]
    · have hfresh' : ¬ token'.state = .uninitialized := fun h => hfresh (hstate h)
      simp [hfresh, hfresh']

theorem initializeAccount_sound (hs : Sound t) (hacc : accountsOf t instr = a :: rest)
    (hpassed : Passed ProgramIds.tokenProgram False a { a with data } o)
    {token : TokenAccountState} (hnew : toVec token = some data)
    (hold : ((tryFromSlice a.data).getD ({} : TokenAccountState)).state = .uninitialized)
    (hstate : token.state = .initialized)
    (hamount : token.amount = ((tryFromSlice a.data).getD ({} : TokenAccountState)).amount) :
    Sound (t.write (entries (o :: rest))) := by
  have hinert : Inert a.toStored := inert_accountsOf hs.inert (hacc ▸ List.mem_cons_self)
  have hne : tryFromSlice a.data ≠ some token := by
    intro heq
    rw [heq, Option.getD_some, hstate] at hold
    simp at hold
  obtain ⟨howner, howner', hdec⟩ := hpassed.filled not_false hnew hne
  -- What was there held nothing, whether it was a token account or not.
  have hzero : token.amount = 0 := by
    rw [hamount]
    cases hdata : tryFromSlice (α := TokenAccountState) a.data with
    | none => rfl
    | some token' =>
      rw [hdata] at hold
      rcases howner with howner | hnil
      · exact (hinert howner).2 token' hdata hold
      · rw [hnil, token_nil] at hdata
        simp at hdata
  refine sound_first hs hacc hpassed.key (fun m => ?_)
    (.inr (issue_of_none (token_not_mint hdec))) (inert_of_token hdec fun _ => hzero)
  have hafter : holding m o.toStored = 0 := by
    rw [holding_of_token (s := o.toStored) howner' hdec]
    simp [hzero]
  have hbefore : holding m a.toStored = 0 := by
    cases hdata : tryFromSlice (α := TokenAccountState) a.data with
    | none => exact holding_of_none hdata
    | some token' =>
      rw [hdata] at hold
      unfold holding
      split
      · simp only [AccountInfo.toStored, hdata]
        exact if_neg fun h => h.1 hold
      · rfl
  rw [hafter, hbefore]

/-- A token account without a balance, or no token account, holds nothing. -/
theorem holding_of_holdsNothing (m : Pubkey) (h : holdsNothing a = true) :
    holding m a.toStored = 0 := by
  unfold holdsNothing at h
  cases hdata : tryFromSlice (α := TokenAccountState) a.data with
  | none => exact holding_of_none hdata
  | some token =>
    simp only [hdata, Option.all_some, beq_iff_eq] at h
    unfold holding
    split
    · simp [AccountInfo.toStored, hdata, h]
    · rfl

theorem initializeMint_sound (hs : Sound t) (hacc : accountsOf t instr = a :: rest)
    (hpassed : Passed ProgramIds.tokenProgram False a { a with data } o) {mint : MintState}
    (hnew : toVec mint = some data)
    (hold : ((tryFromSlice a.data).getD ({} : MintState)).isInitialized = false)
    (hinit : mint.isInitialized = true)
    (hsupply : mint.supply = ((tryFromSlice a.data).getD ({} : MintState)).supply)
    (hok : OpensOk t (a :: rest)) : Sound (t.write (entries (o :: rest))) := by
  have hinert : Inert a.toStored := inert_accountsOf hs.inert (hacc ▸ List.mem_cons_self)
  have hne : tryFromSlice a.data ≠ some mint := by
    intro heq
    rw [heq, Option.getD_some, hinit] at hold
    simp at hold
  obtain ⟨howner, -, hdec⟩ := hpassed.filled not_false hnew hne
  have hzero : mint.supply = 0 := by
    rw [hsupply]
    cases hdata : tryFromSlice (α := MintState) a.data with
    | none => rfl
    | some mint' =>
      rw [hdata, Option.getD_some] at hold
      rcases howner with howner | hnil
      · exact (hinert howner).1 mint' hdata hold
      · rw [hnil, mint_nil] at hdata
        simp at hdata
  have ho : Inert o.toStored := inert_of_mint hdec fun h => absurd h (by simp [hinit])
  have hhold : ∀ m, holding m o.toStored = 0 := fun m => holding_of_none (mint_not_token hdec)
  have hissue : issue o.toStored = 1 := by
    rw [issue_of_mint (s := o.toStored) hdec, hinit, hzero]
    rfl
  have hweights : ∀ {f : StoredAccount → Nat}, TokenView f →
      Table.weights f (entries (o :: rest)) =
        (a.key, f o.toStored) :: Table.standing f t (keysOf rest) := by
    intro f hf
    rw [← (weight_first hf hacc).2, show a.key = o.key from hpassed.key.symm]
    rfl
  constructor
  · refine inert_write hs fun e he => ?_
    rcases List.mem_cons.mp (Table.mem_of_mem_survivors he) with rfl | hmem
    · exact ho
    · exact inert_entries hs (fun c hc => hacc ▸ List.mem_cons_of_mem _ hc) e hmem
  · rw [backed_iff]
    intro m n hn
    have hback := backed_iff.mp hs.backed m n
    have htotal := Table.total_write_first (hweights (holding_view m))
    rw [Table.weight_write_first (hweights issue_view), hissue] at hn
    rw [(weight_first (holding_view m) hacc).1, hhold m] at htotal
    rcases hok with hstale | ⟨hnothing, hunheld⟩
    · -- Undone: nothing is different.
      have hn' : Table.weight issue t m = n + 1 := by
        split at hn
        · exact hn
        · rename_i hm
          have hm' : ¬ m = a.key := fun h => hm (h ▸ hstale)
          rw [if_neg hm'] at hn
          exact hn
      rw [if_pos hstale, if_pos hstale] at htotal
      have := hback hn'
      omega
    · rw [holding_of_holdsNothing m hnothing] at htotal
      have htotal' : Table.total (holding m) (t.write (entries (o :: rest))) =
          Table.total (holding m) t := by
        split at htotal <;> omega
      rw [htotal']
      split at hn
      · exact hback hn
      · split at hn
        · rename_i hm
          subst hm
          omega
        · exact hback hn

theorem closeAccount_sound (hs : Sound t) (hacc : accountsOf t instr = a :: b :: rest)
    {lamports lamports' : UInt64} {known : Prop}
    (hpassed : Passed ProgramIds.tokenProgram False a { a with lamports, data := [] } o)
    (hpassed' : Passed ProgramIds.tokenProgram known b { b with lamports := lamports' } o')
    {token : TokenAccountState} (hold : tryFromSlice a.data = some token)
    (hamount : token.amount = 0) : Sound (t.write (entries (o :: o' :: rest))) := by
  have hinert : Inert b.toStored :=
    inert_accountsOf hs.inert (hacc ▸ List.mem_cons_of_mem _ List.mem_cons_self)
  have hnothing : holdsNothing a = true := by simp [holdsNothing, hold, hamount]
  refine sound_pair hs hacc hpassed.key hpassed'.key (fun m => ?_)
    (fun m => (holding_view m).left hpassed' rfl) (.inr (issue_view.nil hpassed.data))
    (issue_view.left hpassed' rfl) (inert_of_nil hpassed.data) (hinert.left hpassed' rfl)
  rw [(holding_view m).nil (s := o.toStored) hpassed.data, holding_of_holdsNothing m hnothing]

/-- The rule for a movement: nothing to show where nothing moves or both sides are undone. -/
theorem movement_sound {α β : Type} [Borsh α] [Canonical α] [Borsh β] [Canonical β] {v v' : α}
    {w w' : β} {d e : List UInt8} {n : UInt64} {good : AccountInfo → AccountInfo → Bool}
    (hs : Sound t) (hacc : accountsOf t instr = a :: b :: rest)
    (hpassed : Passed ProgramIds.tokenProgram False a { a with data := d } o)
    (hpassed' : Passed ProgramIds.tokenProgram (b.key = a.key) b { b with data := e } o')
    (hv : tryFromSlice a.data = some v) (hw : tryFromSlice b.data = some w)
    (hd : toVec v' = some d) (he : toVec w' = some e) (hok : PairOk n good (a :: b :: rest))
    (hzero : n = 0 → v' = v ∧ w' = w)
    (hlive : n ≠ 0 → a.key ∉ keysOf rest → b.key ∉ keysOf rest → good a b = true →
      Sound (t.write (entries (o :: o' :: rest)))) :
    Sound (t.write (entries (o :: o' :: rest))) := by
  by_cases hn : n = 0
  · obtain ⟨rfl, rfl⟩ := hzero hn
    have hdata := data_eq_of_same hv hd
    have hdata' := data_eq_of_same hw he
    have hinert : Inert a.toStored := inert_accountsOf hs.inert (hacc ▸ List.mem_cons_self)
    have hinert' : Inert b.toStored :=
      inert_accountsOf hs.inert (hacc ▸ List.mem_cons_of_mem _ List.mem_cons_self)
    exact sound_pair hs hacc hpassed.key hpassed'.key
      (fun m => (holding_view m).left hpassed hdata) (fun m => (holding_view m).left hpassed' hdata')
      (.inl (issue_view.left hpassed hdata)) (issue_view.left hpassed' hdata')
      (hinert.left hpassed hdata) (hinert'.left hpassed' hdata')
  · rcases hok with hn' | ⟨h₀, h₁⟩ | ⟨h₀, h₁, hgood⟩
    · exact absurd hn' hn
    · exact sound_stale hs hacc hpassed.key hpassed'.key h₀ h₁
    · exact hlive hn h₀ h₁ hgood

theorem toNat_pos {n : UInt64} (h : n ≠ 0) : 0 < n.toNat :=
  Nat.pos_of_ne_zero fun h0 => h (UInt64.toNat_inj.mp h0)

theorem supply_ne {mint : MintState} {supply : UInt64} (h : supply.toNat ≠ mint.supply.toNat) :
    ({ mint with supply } : MintState) ≠ mint := fun heq =>
  h (congrArg (fun m => m.supply.toNat) heq)

theorem amount_ne {token : TokenAccountState} {amount : UInt64}
    (h : amount.toNat ≠ token.amount.toNat) :
    ({ token with amount } : TokenAccountState) ≠ token := fun heq =>
  h (congrArg (fun t => t.amount.toNat) heq)

/-- A token account that holds something counts. -/
theorem Inert.state_ne (hinert : Inert a.toStored) (howner : a.owner = ProgramIds.tokenProgram)
    {token : TokenAccountState} (h : tryFromSlice a.data = some token)
    (hpos : 0 < token.amount.toNat) : token.state ≠ .uninitialized := by
  intro hstate
  rw [(hinert howner).2 token h hstate] at hpos
  simp at hpos

/-- A mint that issued something is initialised. -/
theorem Inert.initialized (hinert : Inert a.toStored)
    (howner : a.owner = ProgramIds.tokenProgram) {mint : MintState}
    (h : tryFromSlice a.data = some mint) (hpos : 0 < mint.supply.toNat) :
    mint.isInitialized = true := by
  cases hinit : mint.isInitialized with
  | true => rfl
  | false =>
    rw [(hinert howner).1 mint h hinit] at hpos
    simp at hpos

theorem mintTo_sound {mint : MintState} {dest : TokenAccountState} {supply amount n : UInt64}
    {d e : List UInt8} (hs : Sound t) (hacc : accountsOf t instr = a :: b :: rest)
    (hne : a.key ≠ b.key)
    (hpassed : Passed ProgramIds.tokenProgram False a { a with data := d } o)
    (hpassed' : Passed ProgramIds.tokenProgram (b.key = a.key) b { b with data := e } o')
    (hv : tryFromSlice a.data = some mint) (hw : tryFromSlice b.data = some dest)
    (hd : toVec { mint with supply } = some d) (he : toVec { dest with amount } = some e)
    (hmint : dest.mint = a.key) (hsupply : supply.toNat = mint.supply.toNat + n.toNat)
    (hamount : amount.toNat = dest.amount.toNat + n.toNat)
    (hok : PairOk n (fun a b => mintReady a && tokenReady b) (a :: b :: rest)) :
    Sound (t.write (entries (o :: o' :: rest))) := by
  refine movement_sound hs hacc hpassed hpassed' hv hw hd he hok (fun hn => ?_)
    fun hn h₀ h₁ hgood => ?_
  · subst hn
    have h₁ : supply = mint.supply := UInt64.toNat_inj.mp hsupply
    have h₂ : amount = dest.amount := UInt64.toNat_inj.mp hamount
    rw [h₁, h₂]
    exact ⟨rfl, rfl⟩
  · have hpos := toNat_pos hn
    simp only [mintReady, tokenReady, hv, hw, Option.all_some, Bool.and_eq_true, bne_iff_ne] at hgood
    obtain ⟨-, -, hdec⟩ := hpassed.changed mint_nil not_false hv hd (supply_ne (by omega))
    obtain ⟨hbown, howner', hdec'⟩ :=
      hpassed'.changed token_nil hne.symm hw he (amount_ne (by omega))
    have hissue : issue o.toStored = supply.toNat + 1 := by
      rw [issue_of_mint (s := o.toStored) hdec, hgood.1]
      rfl
    have hbefore : Table.weight issue t a.key = mint.supply.toNat + 1 := by
      rw [(weight_pair issue_view hacc).1, issue_of_mint (s := a.toStored) hv, hgood.1]
      rfl
    refine sound_live hs hacc hpassed.key hpassed'.key hne h₀ h₁
      (inert_of_mint hdec fun h => absurd h (by simp [hgood.1]))
      (inert_of_token hdec' fun h => absurd h hgood.2) fun m k hk => ?_
    have hold₀ : holding m a.toStored = 0 := holding_of_none (mint_not_token hv)
    have hold₁ : holding m o.toStored = 0 := holding_of_none (mint_not_token hdec)
    rw [hold₀, hold₁, holding_of_token (s := b.toStored) hbown hw,
      holding_of_token (s := o'.toStored) howner' hdec']
    rw [issue_of_none (s := o'.toStored) (token_not_mint hdec'), hissue] at hk
    simp only [hmint, hgood.2, ne_eq, not_false_eq_true, true_and]
    split at hk
    · simp at hk
    · split at hk
      · rename_i hm
        subst hm
        refine ⟨mint.supply.toNat, hbefore, ?_⟩
        rw [if_pos rfl, if_pos rfl]
        omega
      · rename_i hm
        have hm' : ¬ a.key = m := fun h => hm h.symm
        exact ⟨k, hk, by rw [if_neg hm', if_neg hm']⟩

theorem transfer_sound {source dest : TokenAccountState} {left amount n : UInt64}
    {d e : List UInt8} (hs : Sound t) (hacc : accountsOf t instr = a :: b :: rest)
    (hne : a.key ≠ b.key)
    (hpassed : Passed ProgramIds.tokenProgram False a { a with data := d } o)
    (hpassed' : Passed ProgramIds.tokenProgram (b.key = a.key) b { b with data := e } o')
    (hv : tryFromSlice a.data = some source) (hw : tryFromSlice b.data = some dest)
    (hd : toVec { source with amount := left } = some d)
    (he : toVec { dest with amount } = some e) (hmint : source.mint = dest.mint)
    (hleft : left.toNat + n.toNat = source.amount.toNat)
    (hamount : amount.toNat = dest.amount.toNat + n.toNat)
    (hok : PairOk n (fun _ b => tokenReady b) (a :: b :: rest)) :
    Sound (t.write (entries (o :: o' :: rest))) := by
  refine movement_sound hs hacc hpassed hpassed' hv hw hd he hok (fun hn => ?_)
    fun hn h₀ h₁ hgood => ?_
  · subst hn
    have h₁ : left = source.amount := UInt64.toNat_inj.mp hleft
    have h₂ : amount = dest.amount := UInt64.toNat_inj.mp hamount
    rw [h₁, h₂]
    exact ⟨rfl, rfl⟩
  · have hpos := toNat_pos hn
    simp only [tokenReady, hw, Option.all_some, bne_iff_ne] at hgood
    have hinert : Inert a.toStored := inert_accountsOf hs.inert (hacc ▸ List.mem_cons_self)
    obtain ⟨haown, howner, hdec⟩ :=
      hpassed.changed token_nil not_false hv hd (amount_ne (by omega))
    obtain ⟨hbown, howner', hdec'⟩ :=
      hpassed'.changed token_nil hne.symm hw he (amount_ne (by omega))
    have hready := hinert.state_ne haown hv (by omega)
    refine sound_live hs hacc hpassed.key hpassed'.key hne h₀ h₁
      (inert_of_token hdec fun h => absurd h hready)
      (inert_of_token hdec' fun h => absurd h hgood) fun m k hk => ⟨k, ?_, ?_⟩
    · rw [issue_of_none (s := o.toStored) (token_not_mint hdec),
        issue_of_none (s := o'.toStored) (token_not_mint hdec')] at hk
      split at hk
      · simp at hk
      · split at hk
        · simp at hk
        · exact hk
    · rw [holding_of_token (s := a.toStored) haown hv, holding_of_token (s := o.toStored) howner hdec,
        holding_of_token (s := b.toStored) hbown hw,
        holding_of_token (s := o'.toStored) howner' hdec']
      simp only [hmint, hgood, hready, ne_eq, not_false_eq_true, true_and]
      split <;> omega

theorem burn_sound {token : TokenAccountState} {mint : MintState} {left supply n : UInt64}
    {d e : List UInt8} (hs : Sound t) (hacc : accountsOf t instr = a :: b :: rest)
    (hne : a.key ≠ b.key)
    (hpassed : Passed ProgramIds.tokenProgram False a { a with data := d } o)
    (hpassed' : Passed ProgramIds.tokenProgram (b.key = a.key) b { b with data := e } o')
    (hv : tryFromSlice a.data = some token) (hw : tryFromSlice b.data = some mint)
    (hd : toVec { token with amount := left } = some d)
    (he : toVec { mint with supply } = some e)
    (hleft : left.toNat + n.toNat = token.amount.toNat)
    (hsupply : supply.toNat + n.toNat = mint.supply.toNat)
    (hok : PairOk n (fun a b => ofMint b.key a) (a :: b :: rest)) :
    Sound (t.write (entries (o :: o' :: rest))) := by
  refine movement_sound hs hacc hpassed hpassed' hv hw hd he hok (fun hn => ?_)
    fun hn h₀ h₁ hgood => ?_
  · subst hn
    have h₁ : left = token.amount := UInt64.toNat_inj.mp hleft
    have h₂ : supply = mint.supply := UInt64.toNat_inj.mp hsupply
    rw [h₁, h₂]
    exact ⟨rfl, rfl⟩
  · have hpos := toNat_pos hn
    simp only [ofMint, hv, Option.all_some, beq_iff_eq] at hgood
    have hinert : Inert a.toStored := inert_accountsOf hs.inert (hacc ▸ List.mem_cons_self)
    have hinert' : Inert b.toStored :=
      inert_accountsOf hs.inert (hacc ▸ List.mem_cons_of_mem _ List.mem_cons_self)
    obtain ⟨haown, howner, hdec⟩ :=
      hpassed.changed token_nil not_false hv hd (amount_ne (by omega))
    obtain ⟨hbown, -, hdec'⟩ :=
      hpassed'.changed mint_nil hne.symm hw he (supply_ne (by omega))
    have hready := hinert.state_ne haown hv (by omega)
    have hinit := hinert'.initialized hbown hw (by omega)
    have hissue : issue o'.toStored = supply.toNat + 1 := by
      rw [issue_of_mint (s := o'.toStored) hdec', hinit]
      rfl
    have hbefore : Table.weight issue t b.key = mint.supply.toNat + 1 := by
      rw [(weight_pair issue_view hacc).2.1, issue_of_mint (s := b.toStored) hw, hinit]
      rfl
    refine sound_live hs hacc hpassed.key hpassed'.key hne h₀ h₁
      (inert_of_token hdec fun h => absurd h hready)
      (inert_of_mint hdec' fun h => absurd h (by simp [hinit])) fun m k hk => ?_
    have hold₀ : holding m b.toStored = 0 := holding_of_none (mint_not_token hw)
    have hold₁ : holding m o'.toStored = 0 := holding_of_none (mint_not_token hdec')
    rw [hold₀, hold₁, holding_of_token (s := a.toStored) haown hv,
      holding_of_token (s := o.toStored) howner hdec]
    rw [issue_of_none (s := o.toStored) (token_not_mint hdec), hissue] at hk
    simp only [hgood, hready, ne_eq, not_false_eq_true, true_and]
    split at hk
    · rename_i hm
      subst hm
      refine ⟨mint.supply.toNat, hbefore, ?_⟩
      rw [if_pos rfl, if_pos rfl]
      omega
    · rename_i hm
      have hm' : ¬ b.key = m := fun h => hm h.symm
      split at hk
      · simp at hk
      · exact ⟨k, hk, by rw [if_neg hm', if_neg hm']⟩

end

/-! ## Runs -/

section
variable {ex : Executor} {tx : RuntimeTransaction}

/-- **One instruction keeps the invariant.** -/
theorem tableStep_sound {t t' : Accounts} {instr : Instruction} (hs : Sound t)
    (hprog : instr.programId = ProgramIds.tokenProgram) (hok : TokenOk t instr)
    (h : tableStep ex .commit tx t instr = some t') : Sound t' := by
  unfold tableStep at h
  split at h
  · rename_i hdup
    obtain ⟨out, hout, rfl⟩ := Option.map_eq_some_iff.mp h
    obtain ⟨ix, mid, th, th', hix, hpost, happ, hgate⟩ := token_output hprog hout
    unfold TokenOk at hok
    rw [hix] at hok
    generalize hacc : accountsOf t instr = accounts at hok hdup hpost hgate
    have htouch : (∃ a rest, ∃ token token' : TokenAccountState,
        WritesFirst accounts mid a rest token' ∧ tryFromSlice a.data = some token ∧
        token'.mint = token.mint ∧ token'.amount = token.amount ∧
        (token'.state = .uninitialized → token.state = .uninitialized)) →
        Sound (t.write (entries out)) := by
      rintro ⟨a, rest, token, token', ⟨rfl, data, hnew, rfl⟩, hold, hmint, hamount, hstate⟩
      obtain ⟨o, rfl, hpassed⟩ := gate_first happ hgate rfl
      exact touch_sound hs hacc hpassed hold hnew hmint hamount hstate
    cases ix with
    | initializeMint decimals authority freeze =>
      obtain ⟨a, rest, mint, ⟨rfl, data, hnew, rfl⟩, hold, hinit, hsupply⟩ := hpost
      obtain ⟨o, rfl, hpassed⟩ := gate_first happ hgate rfl
      exact initializeMint_sound hs hacc hpassed hnew hold hinit hsupply hok
    | initializeAccount =>
      obtain ⟨a, rest, token, ⟨rfl, data, hnew, rfl⟩, hold, hstate, hamount⟩ := hpost
      obtain ⟨o, rfl, hpassed⟩ := gate_first happ hgate rfl
      exact initializeAccount_sound hs hacc hpassed hnew hold hstate hamount
    | mintTo n =>
      obtain ⟨a, b, rest, mint, dest, supply, amount, hwrites, hmint, hsupply, hamount⟩ := hpost
      obtain ⟨rfl, hwritable, ⟨hv, hw⟩, d, e, hd, he, rfl⟩ := hwrites
      obtain ⟨o, o', rfl, hpassed, hpassed'⟩ := gate_pair happ hgate rfl rfl
      exact mintTo_sound hs hacc (keys_ne hdup hwritable) hpassed hpassed' hv hw hd he hmint
        hsupply hamount hok
    | transfer n =>
      obtain ⟨a, b, rest, source, dest, left, amount, hwrites, hmint, hleft, hamount⟩ := hpost
      obtain ⟨rfl, hwritable, ⟨hv, hw⟩, d, e, hd, he, rfl⟩ := hwrites
      obtain ⟨o, o', rfl, hpassed, hpassed'⟩ := gate_pair happ hgate rfl rfl
      exact transfer_sound hs hacc (keys_ne hdup hwritable) hpassed hpassed' hv hw hd he hmint
        hleft hamount hok
    | burn n =>
      obtain ⟨a, b, rest, token, mint, left, supply, hwrites, hleft, hsupply⟩ := hpost
      obtain ⟨rfl, hwritable, ⟨hv, hw⟩, d, e, hd, he, rfl⟩ := hwrites
      obtain ⟨o, o', rfl, hpassed, hpassed'⟩ := gate_pair happ hgate rfl rfl
      exact burn_sound hs hacc (keys_ne hdup hwritable) hpassed hpassed' hv hw hd he hleft hsupply
        hok
    | approve n => exact htouch hpost
    | revoke => exact htouch hpost
    | freezeAccount => exact htouch hpost
    | thawAccount => exact htouch hpost
    | closeAccount =>
      obtain ⟨a, b, rest, lamports, token, rfl, hold, hamount, rfl⟩ := hpost
      obtain ⟨o, o', rfl, hpassed, hpassed'⟩ := gate_pair happ hgate rfl rfl
      exact closeAccount_sound hs hacc hpassed hpassed' hold hamount
  · simp at h

/-- One transaction of token instructions, whether it succeeds or not. -/
def tokenStep (ex : Executor) (w : World) (tx : RuntimeTransaction) : Option World :=
  if tx.message.instructions.all (·.programId == ProgramIds.tokenProgram) then
    some (ex.apply w tx .commit).2.toWorld
  else none

/-- If the transaction commits, each of its instructions keeps the supply equation in the table
    it finds. -/
def TokenTxOk (ex : Executor) (w : World) (tx : RuntimeTransaction) : Prop :=
  (ex.apply w tx .commit).1 = .ok () →
    Meets (tableStep ex .commit tx) TokenOk w.state.accounts tx.message.instructions

/-- A table without token accounts: what the token program owns is neither an initialised token
    account nor one that only waits for it with a balance, and no mint has issued anything. -/
structure WithoutTokens (t : Accounts) : Prop where
  uninitialized : ∀ k s, ∀ token : TokenAccountState, t.lookup k = some s →
    s.owner = ProgramIds.tokenProgram → tryFromSlice s.data = some token →
    token.state = .uninitialized
  inert : ∀ k s, t.lookup k = some s → Inert s
  unissued : ∀ k s, ∀ mint : MintState, t.lookup k = some s → tryFromSlice s.data = some mint →
    mint.isInitialized = true → mint.supply = 0

theorem WithoutTokens.sound {t : Accounts} (h : WithoutTokens t) : Sound t := by
  refine ⟨h.inert, fun m s mint hlook hmint hinit => ?_⟩
  rw [h.unissued m s mint hlook hmint hinit, Table.total_eq_zero fun k s' hlook' => ?_]
  · rfl
  · unfold holding
    split
    · rename_i howner
      split
      · rename_i token htoken
        exact if_neg fun hcount => hcount.1 (h.uninitialized k s' token hlook' howner htoken)
      · rfl
    · rfl

theorem tokenStep_sound {w w' : World} (hok : TokenTxOk ex w tx) (hs : Sound w.state.accounts)
    (h : tokenStep ex w tx = some w') : Sound w'.state.accounts := by
  unfold tokenStep at h
  split at h
  · rename_i hall
    simp only [Option.some.injEq] at h
    subst h
    by_cases hcommit : (ex.apply w tx .commit).1 = .ok ()
    · have hprog : ∀ instr ∈ tx.message.instructions,
          instr.programId = ProgramIds.tokenProgram := by simpa using hall
      have hmeets := (hok hcommit).and (Meets.of_forall hprog)
      exact run_invariant (fun t instr t' hboth hI hstep =>
        tableStep_sound hI hboth.2 hboth.1 hstep) hmeets hs (apply_commit_run hcommit)
    · have hsame := (apply_failed_stored hcommit).accounts
      change Sound (ex.apply w tx .commit).2.state.accounts
      rw [hsame]
      exact hs
  · simp at h

end

/-- **Supply is backed.** In every run of token transactions from a table without token accounts,
    whatever they contain and whether or not they succeed, the supply of every initialised mint
    is what its token accounts hold, as long as the instructions that commit avoid the harm
    that `TokenOk` lists. -/
theorem supply_backed (ex : Executor) (w w' : World) (txs : List RuntimeTransaction)
    (hstart : WithoutTokens w.state.accounts) (hmeets : Meets (tokenStep ex) (TokenTxOk ex) w txs)
    (hrun : Lib.run (tokenStep ex) w txs = some w') : Backed w'.state.accounts := by
  have hsound : Sound w'.state.accounts := run_invariant (I := fun w => Sound w.state.accounts)
    (fun w tx w' hok hs hstep => tokenStep_sound hok hs hstep) hmeets hstart.sound hrun
  exact hsound.backed

/-- A transaction of token instructions whose table steps all succeed. -/
theorem token_run_single {ex : Executor} {w : World} {tx : RuntimeTransaction} {t' : Accounts}
    (hprog : tx.message.instructions.all (·.programId == ProgramIds.tokenProgram) = true)
    (hlock : w.poisoned = false)
    (hrun : Lib.run (tableStep ex .commit tx) w.state.accounts tx.message.instructions = some t')
    (henc : ∀ e ∈ t'.entries, e.2.data.length < 2 ^ 32) :
    ∃ w', Lib.run (tokenStep ex) w [tx] = some w' ∧ w'.state.accounts = t' := by
  refine ⟨_, ?_, (apply_of_run hlock hrun henc).2.1⟩
  unfold Lib.run tokenStep
  rw [if_pos hprog]
  rfl

/-- Two mints `1` and `2` under the authority `9`, an account `3` of the first and `4` of the
    second, 5 minted to each, and then something burned. -/
def issueAndBurn (last : Instruction) : RuntimeTransaction :=
  signedBy [.repeated 9]
    [initializeMint (.repeated 1) (.repeated 9) 0 none,
      initializeMint (.repeated 2) (.repeated 9) 0 none,
      initializeAccount (.repeated 3) (.repeated 1) (.repeated 9),
      initializeAccount (.repeated 4) (.repeated 2) (.repeated 9),
      mintTo (.repeated 1) (.repeated 3) (.repeated 9) 5,
      mintTo (.repeated 2) (.repeated 4) (.repeated 9) 5,
      last]

/-- What that leaves of an empty table. -/
def burnedTable (last : Instruction) : Option Accounts :=
  Lib.run (tableStep (.bare .dev) .commit (issueAndBurn last)) (World.funded []).state.accounts
    (issueAndBurn last).message.instructions

theorem withoutTokens_empty : WithoutTokens (World.funded []).state.accounts := by
  have hnone : ∀ k, (World.funded []).state.accounts.lookup k = none := fun _ => rfl
  constructor
  · intro k s token hlook
    simp [hnone] at hlook
  · intro k s hlook
    simp [hnone] at hlook
  · intro k s mint hlook
    simp [hnone] at hlook

/-- Burning 2 of the first mint from its own account. -/
def ownBurn : Instruction := burn (.repeated 3) (.repeated 1) (.repeated 9) 2

theorem supply_backed_burn : ∃ w',
    Lib.run (tokenStep (.bare .dev)) (.funded []) [issueAndBurn ownBurn] = some w' ∧
      Table.weight issue w'.state.accounts (.repeated 1) = 3 + 1 ∧ Backed w'.state.accounts := by
  have hcheck : (burnedTable ownBurn).any (fun t => Table.weight issue t (.repeated 1) = 3 + 1 ∧
      ∀ e ∈ t.entries, e.2.data.length < 2 ^ 32) = true := by decide +kernel
  obtain ⟨t, ht, hthen⟩ := (Option.any_eq_true _ _).mp hcheck
  obtain ⟨hweight, henc⟩ := of_decide_eq_true hthen
  obtain ⟨w', hrun, rfl⟩ := token_run_single (w := .funded []) (by decide +kernel) rfl ht henc
  have hok : TokenTxOk (.bare .dev) (.funded []) (issueAndBurn ownBurn) := fun _ => by
    decide +kernel
  have hmeets : Meets (tokenStep (.bare .dev)) (TokenTxOk (.bare .dev)) (.funded [])
      [issueAndBurn ownBurn] := ⟨hok, fun _ _ => trivial⟩
  exact ⟨w', hrun, hweight,
    supply_backed (.bare .dev) _ _ _ withoutTokens_empty hmeets hrun⟩

/-- Burning 5 of the second mint's supply from an account of the first. -/
def otherBurn : Instruction := burn (.repeated 3) (.repeated 2) (.repeated 9) 5

/-- Burning from an account of one mint on the supply of the other commits. -/
theorem burn_of_another_mint : ∃ w',
    Lib.run (tokenStep (.bare .dev)) (.funded []) [issueAndBurn otherBurn] = some w' ∧
      WithoutTokens (World.funded []).state.accounts ∧ ¬ Backed w'.state.accounts := by
  have hcheck : (burnedTable otherBurn).any (fun t =>
      (Table.weight issue t (.repeated 1) = 5 + 1 ∧ Table.total (holding (.repeated 1)) t = 0) ∧
      ∀ e ∈ t.entries, e.2.data.length < 2 ^ 32) = true := by decide +kernel
  obtain ⟨t, ht, hthen⟩ := (Option.any_eq_true _ _).mp hcheck
  obtain ⟨⟨hweight, htotal⟩, henc⟩ := of_decide_eq_true hthen
  obtain ⟨w', hrun, rfl⟩ := token_run_single (w := .funded []) (by decide +kernel) rfl ht henc
  refine ⟨w', hrun, withoutTokens_empty, fun hback => ?_⟩
  have heq := backed_iff.mp hback _ _ hweight
  rw [htotal] at heq
  simp at heq

end Proof
end Himsha
