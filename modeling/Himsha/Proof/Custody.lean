import Himsha.Proof.Isolation
import Himsha.Proof.ReadOnly
import Himsha.Proof.Settling
import Himsha.Proof.Vetting

/-!
# Who can touch an account

An instruction *spares* an account if the property survives it, the draining of a lending result
included. What every instruction of a block keeps passes through the block (`replayTo_keeps`), so
where an account has lost the property, some stored block has an instruction that lists it and does
not spare it (`node_spared`). What remains is to say which instructions these are: for any property
of a record that is only credited, those that are addressed to the owner or to a program that
invokes the owner (`account_is_owners`); for a wallet, those that it is the signer of
(`wallet_is_signers`); for a frozen token account, those that thaw, close or overwrite it
(`frozen_is_kept`).
-/

set_option autoImplicit false

namespace Himsha
namespace Proof

open Himsha.Lib Himsha.Runtime Himsha.Programs Himsha.Vm Himsha.Node

/-- The account is stored, with the property. -/
def Holds (k : Pubkey) (J : AccountInfo → Prop) (t : Accounts) : Prop :=
  ∃ stored, t.lookup k = some stored ∧ J (stored.intoAccount k)

/-- The property survives the instruction, on whatever table it runs. -/
def Spares (m : Machine) (k : Pubkey) (J : AccountInfo → Prop)
    (p : RuntimeTransaction × Instruction) : Prop :=
  ∀ t transition, Sheltered k J (accountsOf t p.2) →
    executeProgram m p.2.programId ⟨accountsOf t p.2, p.2.data, p.1.message.timestamp⟩ [] =
      .ok transition →
    Sheltered k J (kept .commit p.2 transition.updatedAccounts)

section
variable {owner k : Pubkey} {J : AccountInfo → Prop} {m : Machine}

/-! ## Tables -/

theorem accountAt_of_lookup {t : Accounts} {programId : Pubkey} {am : AccountMeta}
    {stored : StoredAccount} (h : t.lookup am.pubkey = some stored) :
    accountAt t programId am = { stored.intoAccount am.pubkey with
      isSigner := am.isSigner, isWritable := am.isWritable } := by
  unfold accountAt
  rw [h]

/-- What is handed to a program is what is stored. -/
theorem Holds.sheltered (hJ : Reserved owner J) {t : Accounts} (h : Holds k J t)
    (instr : Instruction) : Sheltered k J (accountsOf t instr) := by
  intro a ha hk
  obtain ⟨am, -, rfl⟩ := List.mem_map.mp ha
  obtain ⟨stored, hstored, hJs⟩ := h
  obtain rfl : am.pubkey = k := (accountAt_key t instr.programId am).symm.trans hk
  rw [accountAt_of_lookup hstored]
  exact hJ.same hJs (by simp [sameState])

/-- What a program left is what is stored. -/
theorem Sheltered.holds (hJ : Reserved owner J) {t : Accounts} {updated : List AccountInfo}
    (h : Holds k J t) (hupdated : Sheltered k J updated) : Holds k J (t.write (entries updated)) := by
  by_cases hmem : k ∈ (entries updated).map Prod.fst
  · obtain ⟨stored, hentry, hwritten⟩ := Table.lookup_write_of_mem (m := t) hmem
    obtain ⟨a, ha, heq⟩ := List.mem_map.mp hentry
    obtain ⟨rfl, rfl⟩ := Prod.mk.inj heq
    refine ⟨a.toStored, hwritten, hJ.same (hupdated a ha rfl) ?_⟩
    cases hutxo : a.utxo <;>
      simp [sameState, AccountInfo.toStored, StoredAccount.intoAccount, hutxo]
  · obtain ⟨stored, hstored, hJs⟩ := h
    exact ⟨stored, (Table.lookup_write_of_notMem hmem).trans hstored, hJs⟩

/-- A table that no entry is about. -/
theorem Holds.unlisted {t : Accounts} (h : Holds k J t) {es : List (Pubkey × StoredAccount)}
    (hnot : k ∉ es.map Prod.fst) : Holds k J (t.write es) := by
  obtain ⟨stored, hstored, hJs⟩ := h
  exact ⟨stored, (Table.lookup_write_of_notMem hnot).trans hstored, hJs⟩

theorem kept_keys (mode : Mode) (instr : Instruction) (updated : List AccountInfo) :
    (kept mode instr updated).map (·.key) = updated.map (·.key) := by
  unfold kept
  split
  · rw [List.map_map]
    exact List.map_congr_left fun a _ => drained_key a
  · rfl

/-! ## Instructions and blocks -/

/-- One instruction, on the table that it finds. -/
theorem replayStep_sheltered (hJ : Reserved owner J) {t t' : Accounts}
    {p : RuntimeTransaction × Instruction} (h : Holds k J t)
    (hspares : ∀ transition, executeProgram m p.2.programId
        ⟨accountsOf t p.2, p.2.data, p.1.message.timestamp⟩ [] = .ok transition →
      mentions p.2 k = true → Sheltered k J (kept .commit p.2 transition.updatedAccounts))
    (hstep : replayStep m t p = some t') : Holds k J t' := by
  unfold replayStep demand at hstep
  split at hstep
  · cases hstep
  rename_i es hdemand
  obtain rfl := Option.some.inj hstep
  split at hdemand
  · cases hdemand
  cases hexec : executeProgram m p.2.programId
      ⟨accountsOf t p.2, p.2.data, p.1.message.timestamp⟩ [] with
  | error e => cases e <;> simp [hexec] at hdemand
  | ok transition =>
    rw [hexec] at hdemand
    obtain rfl := Except.ok.inj hdemand
    by_cases hlist : mentions p.2 k = true
    · exact (hspares transition hexec hlist).holds hJ h
    · -- The slots are about the keys that the instruction lists.
      have hkeys : transition.updatedAccounts.map (·.key) = p.2.accounts.map (·.pubkey) := by
        have hsame : transition.updatedAccounts.map (·.key) = (accountsOf t p.2).map (·.key) :=
          executeProgram_keys hexec
        rw [hsame, accountsOf_keys]
      refine h.unlisted fun hmem => hlist ?_
      rw [entries_keys, kept_keys, hkeys] at hmem
      exact decide_eq_true hmem

/-- **One instruction** that spares the account, or does not list it. -/
theorem replayStep_holds (hJ : Reserved owner J) {t t' : Accounts}
    {p : RuntimeTransaction × Instruction} (h : Holds k J t)
    (hspares : mentions p.2 k = true → Spares m k J p) (hstep : replayStep m t p = some t') :
    Holds k J t' :=
  replayStep_sheltered hJ h (fun transition hexec hlist =>
    hspares hlist t transition (h.sheltered hJ p.2) hexec) hstep

/-- **The rule of the chain.** What every instruction of the later blocks keeps is kept. -/
theorem replayTo_keeps {I : Accounts → Prop} {genesis : Accounts} {blocks : Table Nat Block}
    {n n' : Nat} {t t' : Accounts} (hn : replayTo m genesis blocks n = some t) (h : I t)
    (hle : n ≤ n') (ht' : replayTo m genesis blocks n' = some t')
    (hstep : ∀ j block p, n < j → j ≤ n' → blocks.lookup j = some block →
      p ∈ Follower.instructionsOf block → ∀ u u', I u → replayStep m u p = some u' → I u') :
    I t' := by
  induction n' generalizing t' with
  | zero =>
    obtain rfl : n = 0 := Nat.le_zero.mp hle
    obtain rfl : t = t' := Option.some.inj (hn.symm.trans ht')
    exact h
  | succ n' ih =>
    rcases Nat.lt_or_eq_of_le hle with hlt | rfl
    · obtain ⟨u, hu, hrest⟩ := Option.bind_eq_some_iff.mp ht'
      obtain ⟨block, hblock, hrun⟩ := Option.bind_eq_some_iff.mp hrest
      have hmid := ih (by omega) hu fun j b p hj hj' => hstep j b p hj (by omega)
      have hkeeps : ∀ s p s', p ∈ Follower.instructionsOf block → I s →
          replayStep m s p = some s' → I s' :=
        fun s p s' hp => hstep (n' + 1) block p hlt (Nat.le_refl _) hblock hp s s'
      exact run_invariant hkeeps (Meets.of_forall fun _ hp => hp) hmid hrun
    · obtain rfl : t = t' := Option.some.inj (hn.symm.trans ht')
      exact h

/-! ## The owner -/

/-- Only credited since, which a program that is not the owner may do. -/
theorem creditOnly_reserved {prior : AccountInfo} (hlive : isBlank prior = false) :
    Reserved prior.owner fun a => creditOnly prior a = true where
  owner h := by
    simp only [creditOnly, Bool.and_eq_true, beq_iff_eq] at h
    exact h.1.1.2
  live h := by
    simp only [creditOnly, Bool.and_eq_true, beq_iff_eq, decide_eq_true_eq] at h
    obtain ⟨⟨⟨⟨hle, hdata⟩, -⟩, hexecutable⟩, hutxo⟩ := h
    simp only [isBlank, Bool.and_eq_false_iff, beq_eq_false_iff_ne] at hlive ⊢
    rw [hdata, hexecutable, hutxo]
    refine hlive.imp_left fun h => h.imp_left fun h => h.imp_left fun hne hzero => hne ?_
    rw [hzero] at hle
    exact UInt64.le_antisymm hle (UInt64.zero_le)
  credit h h' := by
    simp only [creditOnly, Bool.and_eq_true, beq_iff_eq, decide_eq_true_eq] at h h' ⊢
    obtain ⟨⟨⟨⟨hle, hdata⟩, howner⟩, hexecutable⟩, hutxo⟩ := h
    obtain ⟨⟨⟨⟨hle', hdata'⟩, howner'⟩, hexecutable'⟩, hutxo'⟩ := h'
    exact ⟨⟨⟨⟨UInt64.le_trans hle hle', hdata'.trans hdata⟩, howner'.trans howner⟩,
      hexecutable'.trans hexecutable⟩, hutxo'.trans hutxo⟩

/-- The programs that can change what the owner's accounts hold: the owner, and the built-ins that
    invoke it. -/
def reaches (programId owner : Pubkey) : Bool :=
  programId == owner || owner == ProgramIds.tokenProgram && programId ∈ tokenCallers ||
    owner == ProgramIds.moneyMarketProgram && programId == ProgramIds.vaultProgram

theorem outsider_of_not_reaches {programId : Pubkey} (h : reaches programId owner = false) :
    Outsider owner k J programId := by
  simp only [reaches, Bool.or_eq_false_iff, Bool.and_eq_false_iff, beq_eq_false_iff_ne,
    decide_eq_false_iff_not] at h
  obtain ⟨⟨hother, htoken⟩, hmarket⟩ := h
  exact ⟨hother, fun hown => hmarket.resolve_left (not_not.mpr hown),
    fun hcaller hown => absurd hcaller (htoken.resolve_left (not_not.mpr hown))⟩

/-- Draining leaves what has nothing queued. -/
theorem kept_sheltered {instr : Instruction} {updated : List AccountInfo}
    (h : Sheltered k J updated)
    (hdrain : instr.programId = ProgramIds.lendingProgram → ∀ a, J a → J (drained a)) :
    Sheltered k J (kept .commit instr updated) := by
  unfold kept
  split
  · rename_i hlending
    intro a ha hk
    obtain ⟨b, hb, rfl⟩ := List.mem_map.mp ha
    exact hdrain hlending.2 b (h b hb ((drained_key b).symm.trans hk))
  · exact h

/-- **An instruction to a program that is not the owner.** -/
theorem Outsider.spares (hJ : Reserved owner J) {p : RuntimeTransaction × Instruction}
    (houtsider : Outsider owner k J p.2.programId)
    (hdrain : p.2.programId = ProgramIds.lendingProgram → ∀ a, J a → J (drained a)) :
    Spares m k J p :=
  fun _ _ hgiven hexec => kept_sheltered (executeProgram_reserved hJ houtsider hgiven hexec) hdrain

theorem drained_creditOnly {prior a : AccountInfo} (hqueue : queuedIn prior.data = [])
    (h : creditOnly prior a = true) : creditOnly prior (drained a) = true := by
  have hdata : a.data = prior.data := by
    simp only [creditOnly, Bool.and_eq_true, beq_iff_eq] at h
    exact h.1.1.1.2
  rwa [drained_eq_self_iff.mpr (.inl (hdata ▸ hqueue))]

/-! ## The system program -/

theorem Sheltered.set {accounts : List AccountInfo} (h : Sheltered k J accounts) {i : Nat}
    {a : AccountInfo} (ha : a.key = k → J a) : Sheltered k J (accounts.set i a) := by
  intro b hb hk
  rcases List.mem_or_eq_of_mem_set hb with hold | rfl
  · exact h b hold hk
  · exact ha hk

/-- The account is in the first slot, and flagged as a signer there. -/
def SignsFirst (k : Pubkey) (accounts : List AccountInfo) : Prop :=
  ∃ a, accounts[0]? = some a ∧ a.key = k ∧ a.isSigner = true

/-- **The system program** takes from its signer only. What it creates was fresh, and what it pays
    into is credited. -/
theorem system_sheltered (hJ : Reserved owner J)
    (hfresh : ∀ a, J a → ¬ (a.lamports = 0 ∧ a.data = [])) {accounts : List AccountInfo}
    (h : Sheltered k J accounts) (hnot : ¬ SignsFirst k accounts) (ix : System.SystemInstruction) :
    Gives (System.run accounts ix) (Sheltered k J) := by
  -- Whatever happens to the first slot, it is another account's.
  have hfirst : ∀ {a b : AccountInfo} {c : AccountInfo}, accounts[0]? = some c →
      c.isSigner = true → slot accounts 0 = .ok a → b.key = a.key → b.key = k → J b := by
    intro a b c hc hsigner ha hkey hk
    obtain rfl : c = a := Option.some.inj (hc.symm.trans (slot_eq_ok ha))
    exact absurd ⟨c, hc, hkey.symm.trans hk, hsigner⟩ hnot
  -- An account that is created has neither lamports nor data.
  have hcreate : ∀ {accounts' : List AccountInfo} {a b : AccountInfo} {u : Unit},
      Sheltered k J accounts' → slot accounts' 1 = .ok a → System.requireFresh a = .ok u →
      b.key = a.key → b.key = k → J b := by
    intro accounts' a b u hmid ha hreq hkey hk
    have hJa := hmid a (List.mem_of_getElem? (slot_eq_ok ha)) (hkey.symm.trans hk)
    simp only [System.requireFresh, require_eq_ok, Bool.and_eq_true, beq_iff_eq,
      List.isEmpty_iff] at hreq
    exact absurd hreq (hfresh a hJa)
  intro out hout
  cases ix with
  | createAccount lamports space newOwner =>
    obtain ⟨_, hsigner, h₁⟩ := bind_eq_ok.mp hout
    obtain ⟨c, hc, hsigner⟩ := ensureSigners_signed hsigner
    obtain ⟨a, ha, h₂⟩ := bind_eq_ok.mp h₁
    obtain ⟨payer, hpayer, h₃⟩ := bind_eq_ok.mp h₂
    obtain ⟨b, hb, h₄⟩ := bind_eq_ok.mp h₃
    obtain ⟨_, hreq, h₅⟩ := bind_eq_ok.mp h₄
    obtain ⟨data, -, h₆⟩ := bind_eq_ok.mp h₅
    obtain ⟨left, -, rfl⟩ := deductLamports_gives a lamports payer hpayer
    have hmid := h.set (i := 0) (a := { a with lamports := left }) (hfirst hc hsigner ha rfl)
    cases h₆
    exact hmid.set (hcreate hmid hb hreq rfl)
  | createAccountWithAnchor utxo space newOwner =>
    obtain ⟨_, -, h₁⟩ := bind_eq_ok.mp hout
    obtain ⟨b, hb, h₂⟩ := bind_eq_ok.mp h₁
    obtain ⟨_, hreq, h₃⟩ := bind_eq_ok.mp h₂
    obtain ⟨data, -, h₄⟩ := bind_eq_ok.mp h₃
    cases h₄
    exact h.set (hcreate h hb hreq rfl)
  | transfer lamports =>
    obtain ⟨_, hsigner, h₁⟩ := bind_eq_ok.mp hout
    obtain ⟨c, hc, hsigner⟩ := ensureSigners_signed hsigner
    obtain ⟨_, -, h₂⟩ := bind_eq_ok.mp h₁
    obtain ⟨a, ha, h₃⟩ := bind_eq_ok.mp h₂
    obtain ⟨payer, hpayer, h₄⟩ := bind_eq_ok.mp h₃
    obtain ⟨b, hb, h₅⟩ := bind_eq_ok.mp h₄
    obtain ⟨paid, hpaid, h₆⟩ := bind_eq_ok.mp h₅
    obtain ⟨left, -, rfl⟩ := deductLamports_gives a lamports payer hpayer
    have hmid := h.set (i := 0) (a := { a with lamports := left }) (hfirst hc hsigner ha rfl)
    cases h₆
    refine hmid.set fun hk => ?_
    unfold System.creditLamports at hpaid
    cases hadd : checkedAdd b.lamports lamports with
    | none => simp [hadd, okOr, fail, Except.map] at hpaid
    | some total =>
      rw [hadd] at hpaid
      obtain rfl : { b with lamports := total } = paid := Except.ok.inj hpaid
      refine hJ.credit (hmid b (List.mem_of_getElem? (slot_eq_ok hb)) hk) ?_
      have hsum := checkedAdd_eq_some hadd
      simp [creditOnly, UInt64.le_iff_toNat_le, hsum]
  | assign newOwner =>
    obtain ⟨_, hsigner, h₁⟩ := bind_eq_ok.mp hout
    obtain ⟨c, hc, hsigner⟩ := ensureSigners_signed hsigner
    obtain ⟨a, ha, h₂⟩ := bind_eq_ok.mp h₁
    cases h₂
    exact h.set (hfirst hc hsigner ha rfl)
  | allocate space =>
    obtain ⟨_, hsigner, h₁⟩ := bind_eq_ok.mp hout
    obtain ⟨c, hc, hsigner⟩ := ensureSigners_signed hsigner
    obtain ⟨a, ha, h₂⟩ := bind_eq_ok.mp h₁
    split at h₂
    · obtain ⟨zeros, -, h₃⟩ := bind_eq_ok.mp h₂
      cases h₃
      exact h.set (hfirst hc hsigner ha rfl)
    · cases h₂
      exact h

/-- **An instruction to the system program** that the account does not sign first. -/
theorem system_spares (hJ : Reserved ProgramIds.systemProgram J)
    (hfresh : ∀ a, J a → ¬ (a.lamports = 0 ∧ a.data = [])) {p : RuntimeTransaction × Instruction}
    (hprogram : p.2.programId = ProgramIds.systemProgram)
    (hnot : ¬ ∃ am, p.2.accounts[0]? = some am ∧ am.pubkey = k ∧ am.isSigner = true) :
    Spares m k J p := by
  intro t transition hgiven hexec
  have hslot : ¬ SignsFirst k (accountsOf t p.2) := by
    rintro ⟨a, ha, hkey, hsigner⟩
    rw [accountsOf, List.getElem?_map] at ha
    obtain ⟨am, ham, rfl⟩ := Option.map_eq_some_iff.mp ha
    exact hnot ⟨am, ham, (accountAt_key t p.2.programId am).symm.trans hkey, hsigner⟩
  have hbuiltin : isBuiltin p.2.programId = true := by rw [hprogram]; decide
  refine kept_sheltered (builtin_sheltered hJ hbuiltin hgiven ?_ hexec) fun hlending => ?_
  · rw [hprogram]
    unfold runBuiltin
    rw [if_pos rfl]
    refine .ofExcept fun after hafter _ => ?_
    obtain ⟨ix, -, hrun⟩ := bind_eq_ok.mp hafter
    exact system_sheltered hJ hfresh hgiven hslot ix after hrun
  · rw [hprogram] at hlending
    exact absurd hlending (by decide)

/-! ## Frozen token accounts -/

/-- A frozen token account of this mint and owner, with this amount. -/
def Frozen (mint tokenOwner : Pubkey) (amount : UInt64) (a : AccountInfo) : Prop :=
  a.owner = ProgramIds.tokenProgram ∧ ∃ token : Token.TokenAccountState,
    tryFromSlice a.data = some token ∧ token.mint = mint ∧ token.owner = tokenOwner ∧
      token.amount = amount ∧ token.state = .frozen

/-- The instructions that a frozen account does not survive in the first slot. -/
def Unfreezes : Token.TokenInstruction → Prop
  | .initializeMint _ _ _ | .thawAccount | .closeAccount => True
  | _ => False

variable {mint tokenOwner : Pubkey} {amount : UInt64}

theorem frozen_reserved : Reserved ProgramIds.tokenProgram (Frozen mint tokenOwner amount) where
  owner h := h.1
  live := by
    rintro a ⟨-, token, htoken, -⟩
    cases hdata : a.data with
    | nil =>
      rw [hdata, Token.token_nil] at htoken
      cases htoken
    | cons b bs => simp [isBlank, hdata]
  credit := by
    rintro a b ⟨howner, token, htoken, hrest⟩ hcredit
    simp only [creditOnly, Bool.and_eq_true, beq_iff_eq] at hcredit
    obtain ⟨⟨⟨⟨-, hdata⟩, hown⟩, -⟩, -⟩ := hcredit
    exact ⟨hown.trans howner, token, hdata ▸ htoken, hrest⟩

/-- What is decoded from it is what is frozen. -/
theorem Frozen.decoded {a : AccountInfo} (h : Frozen mint tokenOwner amount a)
    {token : Token.TokenAccountState} (htoken : tryFromSlice a.data = some token) :
    token.mint = mint ∧ token.owner = tokenOwner ∧ token.amount = amount ∧
      token.state = .frozen := by
  obtain ⟨-, token', htoken', hrest⟩ := h
  obtain rfl : token' = token := Option.some.inj (htoken'.symm.trans htoken)
  exact hrest

/-- A token account that takes its place, as frozen and as full. -/
theorem Frozen.rewrite {a : AccountInfo} (h : Frozen mint tokenOwner amount a)
    {token token' : Token.TokenAccountState} {data : List UInt8}
    (htoken : tryFromSlice a.data = some token) (hdata : toVec token' = some data)
    (hmint : token'.mint = token.mint) (howner : token'.owner = token.owner)
    (hamount : token'.amount = token.amount) (hstate : token'.state = .frozen) :
    Frozen mint tokenOwner amount { a with data } := by
  obtain ⟨hm, ho, hn, -⟩ := h.decoded htoken
  exact ⟨h.1, token', tryFromSlice_toVec hdata, hmint.trans hm, howner.trans ho,
    hamount.trans hn, hstate⟩

/-- Two slots that are rewritten and are other accounts. -/
theorem sheltered_pair {accounts out : List AccountInfo} {a b : AccountInfo}
    {rest : List AccountInfo} {d e : List UInt8} (h : Sheltered k J accounts)
    (hgiven : accounts = a :: b :: rest)
    (hout : out = { a with data := d } :: { b with data := e } :: rest) (ha : a.key ≠ k)
    (hb : b.key ≠ k) : Sheltered k J out := by
  subst hgiven hout
  intro c hc hk
  simp only [List.mem_cons] at hc
  rcases hc with rfl | rfl | hc
  · exact absurd hk ha
  · exact absurd hk hb
  · exact h c (by simp [hc]) hk

/-- **The token program** leaves a frozen account frozen, with what it holds. -/
theorem frozen_sheltered {π : Profile} {accounts : List AccountInfo}
    (h : Sheltered k (Frozen mint tokenOwner amount) accounts) {ix : Token.TokenInstruction}
    (hnot : Unfreezes ix → accounts[0]?.map (·.key) ≠ some k) :
    Gives (Token.run π accounts ix) (Sheltered k (Frozen mint tokenOwner amount)) := by
  intro out hout
  have hfrozen : ∀ {i : Nat} {a : AccountInfo}, accounts[i]? = some a → a.key = k →
      Frozen mint tokenOwner amount a :=
    fun ha hk => h _ (List.mem_of_getElem? ha) hk
  -- An account that is decoded as thawed, or as a mint, is another one.
  have hthawed : ∀ {i : Nat} {a : AccountInfo} {token : Token.TokenAccountState},
      accounts[i]? = some a → tryFromSlice a.data = some token → (token.state != .frozen) = true →
      a.key ≠ k := by
    intro i a token ha htoken hstate hk
    obtain ⟨-, -, -, hfreeze⟩ := (hfrozen ha hk).decoded htoken
    simp [hfreeze] at hstate
  have hmint : ∀ {i : Nat} {a : AccountInfo} {m : Token.MintState},
      accounts[i]? = some a → tryFromSlice a.data = some m → a.key ≠ k := by
    intro i a m ha hm hk
    obtain ⟨-, token, htoken, -⟩ := hfrozen ha hk
    rw [Token.mint_not_token hm] at htoken
    cases htoken
  -- A token account that is written back is as it was, up to its delegate.
  have hrewrite : ∀ {token token' : Token.TokenAccountState},
      load accounts 0 = .ok token → store accounts 0 token' = .ok out →
      token'.mint = token.mint → token'.owner = token.owner → token'.amount = token.amount →
      (token.state = .frozen → token'.state = .frozen) →
      Sheltered k (Frozen mint tokenOwner amount) out := by
    intro token token' hload hout hm ho hn hstate
    obtain ⟨a, data, ha, -, hdata, rfl⟩ := store_eq_ok hout
    obtain ⟨b, hb, htoken⟩ := load_eq_ok hload
    obtain rfl : a = b := Option.some.inj (ha.symm.trans hb)
    refine h.set fun hk => ?_
    obtain ⟨-, -, -, hfreeze⟩ := (hfrozen ha hk).decoded htoken
    exact (hfrozen ha hk).rewrite htoken hdata hm ho hn (hstate hfreeze)
  cases ix with
  | initializeMint decimals authority freeze =>
    obtain ⟨_, -, h₁⟩ := bind_eq_ok.mp hout
    obtain ⟨_, -, h₂⟩ := bind_eq_ok.mp h₁
    obtain ⟨a, data, ha, -, -, rfl⟩ := store_eq_ok h₂
    refine h.set fun hk => absurd ?_ (hnot trivial)
    rw [ha, Option.map_some]
    exact congrArg some hk
  | initializeAccount =>
    obtain ⟨_, -, h₁⟩ := bind_eq_ok.mp hout
    obtain ⟨_, -, h₂⟩ := bind_eq_ok.mp h₁
    obtain ⟨token, hload, h₃⟩ := bind_eq_ok.mp h₂
    obtain ⟨_, hstate, h₄⟩ := bind_eq_ok.mp h₃
    obtain ⟨a, data, ha, -, -, rfl⟩ := store_eq_ok h₄
    obtain ⟨b, hb, htoken⟩ := loadOr_eq_ok hload
    obtain rfl : a = b := Option.some.inj (ha.symm.trans hb)
    refine h.set fun hk => ?_
    obtain ⟨-, token', htoken', -, -, -, hfreeze⟩ := hfrozen ha hk
    rw [htoken', Option.getD_some] at htoken
    subst htoken
    simp [hfreeze] at hstate
  | mintTo n =>
    obtain ⟨_, -, h₁⟩ := bind_eq_ok.mp hout
    obtain ⟨m, hm, h₂⟩ := bind_eq_ok.mp h₁
    obtain ⟨dest, hdest, h₃⟩ := bind_eq_ok.mp h₂
    obtain ⟨_, -, h₄⟩ := bind_eq_ok.mp h₃
    obtain ⟨_, -, h₅⟩ := bind_eq_ok.mp h₄
    obtain ⟨_, hstate, h₆⟩ := bind_eq_ok.mp h₅
    obtain ⟨supply, -, h₇⟩ := bind_eq_ok.mp h₆
    obtain ⟨held, -, h₈⟩ := bind_eq_ok.mp h₇
    obtain ⟨a, b, rest, hgiven, -, ⟨ha, hb⟩, d, e, -, -, hmid⟩ := store_pair hm hdest h₈
    refine sheltered_pair h hgiven hmid (hmint (i := 0) (by rw [hgiven]; rfl) ha) ?_
    exact hthawed (i := 1) (by rw [hgiven]; rfl) hb (require_eq_ok.mp hstate)
  | transfer n =>
    obtain ⟨_, -, h₁⟩ := bind_eq_ok.mp hout
    obtain ⟨source, hsource, h₂⟩ := bind_eq_ok.mp h₁
    obtain ⟨dest, hdest, h₃⟩ := bind_eq_ok.mp h₂
    obtain ⟨_, -, h₄⟩ := bind_eq_ok.mp h₃
    obtain ⟨_, hstate, h₅⟩ := bind_eq_ok.mp h₄
    obtain ⟨left, -, h₆⟩ := bind_eq_ok.mp h₅
    obtain ⟨held, -, h₇⟩ := bind_eq_ok.mp h₆
    obtain ⟨a, b, rest, hgiven, -, ⟨ha, hb⟩, d, e, -, -, hmid⟩ := store_pair hsource hdest h₇
    obtain ⟨hthere, hhere⟩ := Bool.and_eq_true_iff.mp (require_eq_ok.mp hstate)
    refine sheltered_pair h hgiven hmid (hthawed (i := 0) (by rw [hgiven]; rfl) ha hthere) ?_
    exact hthawed (i := 1) (by rw [hgiven]; rfl) hb hhere
  | burn n =>
    obtain ⟨_, -, h₁⟩ := bind_eq_ok.mp hout
    obtain ⟨token, htoken, h₂⟩ := bind_eq_ok.mp h₁
    obtain ⟨m, hm, h₃⟩ := bind_eq_ok.mp h₂
    obtain ⟨_, hstate, h₄⟩ := bind_eq_ok.mp h₃
    obtain ⟨left, -, h₅⟩ := bind_eq_ok.mp h₄
    obtain ⟨supply, -, h₆⟩ := bind_eq_ok.mp h₅
    obtain ⟨a, b, rest, hgiven, -, ⟨ha, hb⟩, d, e, -, -, hmid⟩ := store_pair htoken hm h₆
    refine sheltered_pair h hgiven hmid ?_ (hmint (i := 1) (by rw [hgiven]; rfl) hb)
    exact hthawed (i := 0) (by rw [hgiven]; rfl) ha (require_eq_ok.mp hstate)
  | approve n =>
    obtain ⟨token, hload, h₁⟩ := bind_eq_ok.mp hout
    obtain ⟨_, -, h₂⟩ := bind_eq_ok.mp h₁
    exact hrewrite hload h₂ rfl rfl rfl id
  | revoke =>
    obtain ⟨token, hload, h₁⟩ := bind_eq_ok.mp hout
    exact hrewrite hload h₁ rfl rfl rfl id
  | freezeAccount =>
    obtain ⟨token, hload, h₁⟩ := bind_eq_ok.mp hout
    exact hrewrite hload h₁ rfl rfl rfl fun _ => rfl
  | thawAccount =>
    obtain ⟨_, -, h₁⟩ := bind_eq_ok.mp hout
    obtain ⟨_, -, h₂⟩ := bind_eq_ok.mp h₁
    obtain ⟨a, data, ha, -, -, rfl⟩ := store_eq_ok h₂
    refine h.set fun hk => absurd ?_ (hnot trivial)
    rw [ha, Option.map_some]
    exact congrArg some hk
  | closeAccount =>
    obtain ⟨_, -, h₁⟩ := bind_eq_ok.mp hout
    obtain ⟨_, -, h₂⟩ := bind_eq_ok.mp h₁
    obtain ⟨a, ha, h₃⟩ := bind_eq_ok.mp h₂
    obtain ⟨b, hb, h₄⟩ := bind_eq_ok.mp h₃
    obtain ⟨lamports, -, h₅⟩ := bind_eq_ok.mp h₄
    cases h₅
    -- What it is closed into may be frozen, and only gets the balance.
    have hmid : Sheltered k (Frozen mint tokenOwner amount)
        (accounts.set 1 { b with lamports }) := by
      refine h.set fun hk => ?_
      exact hfrozen (a := b) (slot_eq_ok hb) hk
    refine hmid.set fun hk => absurd ?_ (hnot trivial)
    rw [slot_eq_ok ha, Option.map_some]
    exact congrArg some hk

theorem frozen_calleeSafe :
    CalleeSafe ProgramIds.tokenProgram k (Frozen mint tokenOwner amount) := by
  intro _ π window ix hix h
  refine frozen_sheltered h fun hunfreezes => ?_
  cases ix <;> first | exact hix.elim | exact hunfreezes.elim

/-- The instructions that a frozen account does not survive: those three with the account in the
    first slot, and those of the lending program, whose results are drained as they are. -/
def Thaws (k : Pubkey) (instr : Instruction) : Prop :=
  instr.programId = ProgramIds.lendingProgram ∨
    instr.programId = ProgramIds.tokenProgram ∧ instr.accounts[0]?.map (·.pubkey) = some k ∧
      ∃ ix, tryFromSlice instr.data = some ix ∧ Unfreezes ix

/-- **An instruction that a frozen account survives.** -/
theorem frozen_spares {p : RuntimeTransaction × Instruction} (hnot : ¬ Thaws k p.2) :
    Spares m k (Frozen mint tokenOwner amount) p := by
  have hlending : p.2.programId ≠ ProgramIds.lendingProgram := fun h => hnot (.inl h)
  by_cases htoken : p.2.programId = ProgramIds.tokenProgram
  · intro t transition hgiven hexec
    have hbuiltin : isBuiltin p.2.programId = true := by rw [htoken]; decide
    refine kept_sheltered (builtin_sheltered frozen_reserved hbuiltin hgiven ?_ hexec)
      fun h => absurd h hlending
    rw [htoken, runBuiltin_token]
    refine .ofExcept fun after hafter _ => ?_
    obtain ⟨ix, hix, hrun⟩ := bind_eq_ok.mp hafter
    refine frozen_sheltered hgiven (fun hunfreezes hfirst => hnot (.inr ?_)) after hrun
    rw [accountsOf, List.getElem?_map, Option.map_map] at hfirst
    refine ⟨htoken, ?_, ix, okOr_eq_ok.mp hix, hunfreezes⟩
    rw [← hfirst]
    congr 1
    funext am
    exact (accountAt_key t p.2.programId am).symm
  · have houtsider : Outsider ProgramIds.tokenProgram k (Frozen mint tokenOwner amount)
        p.2.programId :=
      ⟨htoken, fun hmarket => absurd hmarket (by decide), fun _ => frozen_calleeSafe⟩
    exact houtsider.spares frozen_reserved fun h => absurd h hlending

end

/-! ## Runs of a node -/

section
variable {ex : Executor} {g : Gate} {boot : ElectionState} {genesis : Accounts}
  {s₀ s : Sequencer} {incidents : List Incident}

/-- A run without a crash. -/
theorem meets_acts (s : Sequencer) (actions : List Action) :
    Meets (Sequencer.incident ex g boot) CrashesAtRest s (actions.map .act) := by
  induction actions generalizing s with
  | nil => trivial
  | cons a actions ih => exact ⟨trivial, fun s' _ => ih s'⟩

/-- **The rule of the chain, for a node at rest.** What every instruction of the blocks above some
    block keeps, and what held there, holds now. -/
theorem node_keeps {I : Accounts → Prop} (hready : Ready ex.machine genesis s₀)
    (hmeets : Meets (Sequencer.incident ex g boot) CrashesAtRest s₀ incidents)
    (hrun : Lib.run (Sequencer.incident ex g boot) s₀ incidents = some s) (hrest : AtRest s)
    {n : Nat} {t : Accounts} (ht : replayTo ex.machine genesis s.world.state.blocks n = some t)
    (h : I t)
    (hstep : ∀ j block tx instr, n < j → s.world.state.blocks.lookup j = some block →
      tx ∈ block.transactions → instr ∈ tx.message.instructions →
      ∀ u u', I u → replayStep ex.machine u (tx, instr) = some u' → I u') :
    I s.world.state.accounts := by
  have hchain := (run_durable hready.durable hmeets hrun).chained hrest
  have hle : n ≤ s.world.state.slot := by
    by_contra hgt
    obtain ⟨block, hblock⟩ := replayTo_stored ht n (by omega) (Nat.le_refl _)
    rw [hchain.fresh n (by omega)] at hblock
    cases hblock
  refine replayTo_keeps ht h hle hchain.replays fun j block p hj _ hblock hp => ?_
  unfold Follower.instructionsOf at hp
  obtain ⟨tx, htx, hp⟩ := List.mem_flatMap.mp hp
  obtain ⟨instr, hinstr, rfl⟩ := List.mem_map.mp hp
  exact hstep j block tx instr hj hblock htx hinstr

/-- An account that had the property at some block has it now, or a block since then has an
    instruction that lists it and does not spare it. -/
theorem node_spared {owner k : Pubkey} {J : AccountInfo → Prop} (hJ : Reserved owner J)
    (hready : Ready ex.machine genesis s₀)
    (hmeets : Meets (Sequencer.incident ex g boot) CrashesAtRest s₀ incidents)
    (hrun : Lib.run (Sequencer.incident ex g boot) s₀ incidents = some s) (hrest : AtRest s)
    {n : Nat} {t : Accounts} (ht : replayTo ex.machine genesis s.world.state.blocks n = some t)
    (h : Holds k J t) :
    Holds k J s.world.state.accounts ∨ ∃ j block tx instr, n < j ∧
      s.world.state.blocks.lookup j = some block ∧ tx ∈ block.transactions ∧
      instr ∈ tx.message.instructions ∧ mentions instr k = true ∧
      ¬ Spares ex.machine k J (tx, instr) := by
  by_contra hneither
  simp only [not_or, not_exists, not_and, not_not] at hneither
  obtain ⟨hlost, hspares⟩ := hneither
  refine hlost (node_keeps hready hmeets hrun hrest ht h ?_)
  intro j block tx instr hj hblock htx hinstr u u' hu hstep
  exact replayStep_holds hJ hu (hspares j block tx instr hj hblock htx hinstr) hstep

end

/-- **An account is its owner's.** In every run of a node that has crashed between blocks only, at
    rest: an account that was stored and not blank when the chain was at some block is still its
    owner's, has the same data, anchor and executable flag, and has not lost lamports, unless a
    block since then has an instruction that lists it and is addressed to the owner or to a
    built-in that invokes the owner, or is a lending instruction and the account's data has
    settlements queued. -/
theorem account_is_owners (ex : Executor) (g : Gate) (boot : ElectionState) (genesis : Accounts)
    (s₀ s : Sequencer) (incidents : List Incident) (hready : Ready ex.machine genesis s₀)
    (hmeets : Meets (Sequencer.incident ex g boot) CrashesAtRest s₀ incidents)
    (hrun : Lib.run (Sequencer.incident ex g boot) s₀ incidents = some s) (hrest : AtRest s)
    (n : Nat) (t : Accounts)
    (ht : replayTo ex.machine genesis s.world.state.blocks n = some t) (k : Pubkey)
    (stored : StoredAccount) (hstored : t.lookup k = some stored)
    (hlive : isBlank (stored.intoAccount k) = false) :
    (∃ now, s.world.state.loadAccount k = some now ∧
      creditOnly (stored.intoAccount k) (now.intoAccount k) = true) ∨
    ∃ j block tx instr, n < j ∧ s.world.state.blocks.lookup j = some block ∧
      tx ∈ block.transactions ∧ instr ∈ tx.message.instructions ∧ mentions instr k = true ∧
      (reaches instr.programId stored.owner = true ∨
        instr.programId = ProgramIds.lendingProgram ∧ queuedIn stored.data ≠ []) := by
  have hJ := creditOnly_reserved hlive
  rcases node_spared hJ hready hmeets hrun hrest ht ⟨stored, hstored, by simp [creditOnly]⟩ with
    hholds | ⟨j, block, tx, instr, hj, hblock, htx, hinstr, hlist, hnot⟩
  · exact .inl hholds
  · refine .inr ⟨j, block, tx, instr, hj, hblock, htx, hinstr, hlist, ?_⟩
    by_contra hneither
    simp only [not_or, Bool.not_eq_true, not_and, not_not] at hneither
    obtain ⟨hreaches, hqueue⟩ := hneither
    have hreaches : reaches instr.programId (stored.intoAccount k).owner = false := hreaches
    refine hnot ((outsider_of_not_reaches hreaches).spares hJ fun hlending a ha => ?_)
    exact drained_creditOnly (hqueue hlending) ha

/-- The payer has paid, at rest, after the crash. -/
theorem payer_has_paid : ∃ s,
    Lib.run (Sequencer.incident (.bare .dev) payingGate {}) payingNode
        (settledPayment ++ [.crash]) = some s ∧ AtRest s ∧
      s.world.state.loadAccount (.repeated 1) = some (wallet 750) := by
  have hcheck : (Lib.run (Sequencer.incident (.bare .dev) payingGate {}) payingNode
      (settledPayment ++ [.crash])).any (fun s => AtRest s ∧
        s.world.state.loadAccount (.repeated 1) = some (wallet 750)) = true := by
    decide +kernel
  obtain ⟨s, hrun, hthen⟩ := (Option.any_eq_true _ _).mp hcheck
  exact ⟨s, hrun, of_decide_eq_true hthen⟩

theorem settledPayment_meets : Meets (Sequencer.incident (.bare .dev) payingGate {})
    CrashesAtRest payingNode (settledPayment ++ [.crash]) := by
  decide +kernel

/-- The wallet that paid has lost lamports, so there is such an instruction. -/
theorem account_is_owners_paid : ∃ s,
    Lib.run (Sequencer.incident (.bare .dev) payingGate {}) payingNode
        (settledPayment ++ [.crash]) = some s ∧
      ∃ j block tx instr, 0 < j ∧ s.world.state.blocks.lookup j = some block ∧
        tx ∈ block.transactions ∧ instr ∈ tx.message.instructions ∧
        mentions instr (.repeated 1) = true ∧
        (reaches instr.programId (wallet 1000).owner = true ∨
          instr.programId = ProgramIds.lendingProgram ∧ queuedIn (wallet 1000).data ≠ []) := by
  obtain ⟨s, hrun, hrest, hpaid⟩ := payer_has_paid
  refine ⟨s, hrun, ?_⟩
  rcases account_is_owners (.bare .dev) payingGate {} _ _ s _ payingNode_ready
    settledPayment_meets hrun hrest 0 _ rfl (.repeated 1) (wallet 1000) (by decide +kernel)
    (by decide) with ⟨now, hnow, hcredit⟩ | hfound
  · obtain rfl : wallet 750 = now := Option.some.inj (hpaid.symm.trans hnow)
    exact absurd hcredit (by decide)
  · exact hfound

/-- **A wallet is its key's.** In every run of a node that starts with nothing in flight and crashes
    between blocks only, at rest: a wallet with lamports and no data has not lost any, and is a
    wallet still, unless a block sealed in the run has a system instruction with the wallet in the
    first slot, flagged as a signer; if the transaction declares the wallet a signer, as it should,
    it carries a signature of it that verifies. -/
theorem wallet_is_signers (ex : Executor) (g : Gate) (boot : ElectionState) (genesis : Accounts)
    (s₀ s : Sequencer) (incidents : List Incident) (hready : Ready ex.machine genesis s₀)
    (hbooted : Booted s₀) (hcalls : s₀.calls = []) (hqueue : s₀.queue = [])
    (hmeets : Meets (Sequencer.incident ex g boot) CrashesAtRest s₀ incidents)
    (hrun : Lib.run (Sequencer.incident ex g boot) s₀ incidents = some s) (hrest : AtRest s)
    (n : Nat) (hn : s₀.world.state.slot ≤ n) (t : Accounts)
    (ht : replayTo ex.machine genesis s.world.state.blocks n = some t) (k : Pubkey)
    (stored : StoredAccount) (hstored : t.lookup k = some stored)
    (hsystem : stored.owner = ProgramIds.systemProgram) (hdata : stored.data = [])
    (hlamports : stored.lamports ≠ 0) :
    (∃ now, s.world.state.loadAccount k = some now ∧
      creditOnly (stored.intoAccount k) (now.intoAccount k) = true) ∨
    ∃ j block tx instr, n < j ∧ s.world.state.blocks.lookup j = some block ∧
      tx ∈ block.transactions ∧ instr ∈ tx.message.instructions ∧
      instr.programId = ProgramIds.systemProgram ∧
      (∃ am, instr.accounts[0]? = some am ∧ am.pubkey = k ∧ am.isSigner = true) ∧
      (k ∈ tx.message.signers → ∃ sig ∈ tx.signatures, g.verify sig tx.messageHash k = true) := by
  have hlive : isBlank (stored.intoAccount k) = false := by
    simp [isBlank, StoredAccount.intoAccount, hlamports]
  have hJ := creditOnly_reserved hlive
  have howner : (stored.intoAccount k).owner = ProgramIds.systemProgram := hsystem
  rw [howner] at hJ
  have hqueued : queuedIn (stored.intoAccount k).data = [] := by
    show queuedIn stored.data = []
    rw [hdata]
    rfl
  -- It holds lamports, so it is never fresh.
  have hfresh : ∀ a, creditOnly (stored.intoAccount k) a = true →
      ¬ (a.lamports = 0 ∧ a.data = []) := by
    rintro a ha ⟨hzero, -⟩
    simp only [creditOnly, Bool.and_eq_true, decide_eq_true_eq] at ha
    have hle : stored.lamports ≤ a.lamports := ha.1.1.1.1
    rw [hzero] at hle
    exact hlamports (UInt64.le_antisymm hle UInt64.zero_le)
  rcases node_spared hJ hready hmeets hrun hrest ht ⟨stored, hstored, by simp [creditOnly]⟩ with
    hholds | ⟨j, block, tx, instr, hj, hblock, htx, hinstr, hlist, hnot⟩
  · exact .inl hholds
  · have hprogram : instr.programId = ProgramIds.systemProgram := by
      by_contra hother
      have hreaches : reaches instr.programId ProgramIds.systemProgram = false := by
        simp only [reaches, Bool.or_eq_false_iff, Bool.and_eq_false_iff, beq_eq_false_iff_ne]
        exact ⟨⟨hother, .inl (by decide)⟩, .inl (by decide)⟩
      exact hnot ((outsider_of_not_reaches hreaches).spares hJ fun _ a ha =>
        drained_creditOnly hqueued ha)
    have hsigner : ∃ am, instr.accounts[0]? = some am ∧ am.pubkey = k ∧ am.isSigner = true := by
      by_contra hno
      exact hnot (system_spares hJ hfresh hprogram hno)
    have hvetted := (run_vetted hbooted.inv (hbooted.allVetted hcalls hqueue) hrun).blocks j block
      (by omega) hblock tx htx
    exact .inr ⟨j, block, tx, instr, hj, hblock, htx, hinstr, hprogram, hsigner, fun hk =>
      RuntimeTransaction.verifySignatures_mem hvetted.signed hk⟩

/-- And it has signed. -/
theorem wallet_is_signers_paid : ∃ s,
    Lib.run (Sequencer.incident (.bare .dev) payingGate {}) payingNode
        (settledPayment ++ [.crash]) = some s ∧
      ∃ j block tx instr, 0 < j ∧ s.world.state.blocks.lookup j = some block ∧
        tx ∈ block.transactions ∧ instr ∈ tx.message.instructions ∧
        instr.programId = ProgramIds.systemProgram ∧
        (∃ am, instr.accounts[0]? = some am ∧ am.pubkey = .repeated 1 ∧ am.isSigner = true) ∧
        (.repeated 1 ∈ tx.message.signers → ∃ sig ∈ tx.signatures,
          payingGate.verify sig tx.messageHash (.repeated 1) = true) := by
  obtain ⟨s, hrun, hrest, hpaid⟩ := payer_has_paid
  refine ⟨s, hrun, ?_⟩
  rcases wallet_is_signers (.bare .dev) payingGate {} _ _ s _ payingNode_ready payingNode_booted
    rfl rfl settledPayment_meets hrun hrest 0 (Nat.le_refl _) _ rfl (.repeated 1) (wallet 1000)
    (by decide +kernel) rfl rfl (by decide) with ⟨now, hnow, hcredit⟩ | hfound
  · obtain rfl : wallet 750 = now := Option.some.inj (hpaid.symm.trans hnow)
    exact absurd hcredit (by decide)
  · exact hfound

/-- **A frozen token account is kept.** In every run of a node that has crashed between blocks
    only, at rest: an account that was frozen when the chain was at some block is frozen still,
    for the same mint and owner and with the same amount, unless a block since then has a token
    instruction with the account in its first slot that thaws it, closes it or makes it a mint, or
    a lending instruction that lists it. -/
theorem frozen_is_kept (ex : Executor) (g : Gate) (boot : ElectionState) (genesis : Accounts)
    (s₀ s : Sequencer) (incidents : List Incident) (hready : Ready ex.machine genesis s₀)
    (hmeets : Meets (Sequencer.incident ex g boot) CrashesAtRest s₀ incidents)
    (hrun : Lib.run (Sequencer.incident ex g boot) s₀ incidents = some s) (hrest : AtRest s)
    (n : Nat) (t : Accounts)
    (ht : replayTo ex.machine genesis s.world.state.blocks n = some t) (k : Pubkey)
    (mint tokenOwner : Pubkey) (amount : UInt64)
    (hfrozen : Holds k (Frozen mint tokenOwner amount) t) :
    Holds k (Frozen mint tokenOwner amount) s.world.state.accounts ∨
    ∃ j block tx instr, n < j ∧ s.world.state.blocks.lookup j = some block ∧
      tx ∈ block.transactions ∧ instr ∈ tx.message.instructions ∧ mentions instr k = true ∧
      Thaws k instr := by
  rcases node_spared frozen_reserved hready hmeets hrun hrest ht hfrozen with
    hholds | ⟨j, block, tx, instr, hj, hblock, htx, hinstr, hlist, hnot⟩
  · exact .inl hholds
  · exact .inr ⟨j, block, tx, instr, hj, hblock, htx, hinstr, hlist,
      not_not.mp fun h => hnot (frozen_spares h)⟩

/-- 40 of mint 5, frozen, for wallet 1. -/
def frozenToken : Token.TokenAccountState where
  mint := .repeated 5
  owner := .repeated 1
  amount := 40
  state := .frozen

def frozenStored : StoredAccount :=
  ⟨0, (toVec frozenToken).getD [], ProgramIds.tokenProgram, false, none, none⟩

/-- A delegate for all of it. -/
def approveFrozen : RuntimeTransaction :=
  signedBy [] [.withArgs ProgramIds.tokenProgram [.writable (.repeated 9) false,
    .readonly (.repeated 1) false] (Token.TokenInstruction.approve 40)]

/-- A node with that account, and nothing else. -/
def frozenNode : Sequencer where
  world := { state := {
    accounts := (∅ : Accounts).insert (.repeated 9) frozenStored
    blocks := (∅ : Table Nat Block).insert 0 .genesis } }

theorem frozenNode_ready :
    Ready (Executor.bare .dev).machine frozenNode.world.state.accounts frozenNode := by
  refine ⟨⟨rfl, fun k hk => ?_, by simp [frozenNode]⟩, fun k hk => ?_, rfl⟩
  · obtain rfl : k = 0 := Nat.le_zero.mp hk
    rfl
  · exact Finmap.lookup_insert_of_ne _ (Nat.ne_of_gt hk)

theorem frozen_is_kept_approved : ∃ s,
    Lib.run (Sequencer.incident (.bare .dev) payingGate {}) frozenNode
        ((.submit approveFrozen :: serves 0 6 ++ produces 7 : List Action).map .act) = some s ∧
      (s.world.state.loadAccount (.repeated 9)).any (· ≠ frozenStored) = true ∧
      (Holds (.repeated 9) (Frozen (.repeated 5) (.repeated 1) 40) s.world.state.accounts ∨
        ∃ j block tx instr, 0 < j ∧ s.world.state.blocks.lookup j = some block ∧
          tx ∈ block.transactions ∧ instr ∈ tx.message.instructions ∧
          mentions instr (.repeated 9) = true ∧ Thaws (.repeated 9) instr) := by
  have hcheck : (Lib.run (Sequencer.incident (.bare .dev) payingGate {}) frozenNode
      ((.submit approveFrozen :: serves 0 6 ++ produces 7 : List Action).map .act)).any
        (fun s => AtRest s ∧
          (s.world.state.loadAccount (.repeated 9)).any (· ≠ frozenStored) = true) = true := by
    decide +kernel
  obtain ⟨s, hrun, hthen⟩ := (Option.any_eq_true _ _).mp hcheck
  obtain ⟨hrest, hchanged⟩ := of_decide_eq_true hthen
  refine ⟨s, hrun, hchanged, frozen_is_kept (.bare .dev) payingGate {} _ _ s _ frozenNode_ready
    (meets_acts _ _) hrun hrest 0 _ rfl _ _ _ _ ⟨frozenStored, Finmap.lookup_insert _, rfl, ?_⟩⟩
  exact ⟨frozenToken, by decide +kernel, rfl, rfl, rfl, rfl⟩

end Proof
end Himsha
