import Himsha.Lib.Run
import Himsha.Node.Faucet
import Himsha.Proof.Overlay

/-!
# Airdrops and commits on one store

The ledger says what was done: the airdrops that were granted, and for each transaction that
committed what it loaded and what it stored. Nothing of it is lost in a run in which every record
is still stored as it was loaded when it is overwritten (`Unraced`). `commit_alone` ties the
producer, which is cut into pieces here, to `Executor.apply`.
-/

set_option autoImplicit false

namespace Himsha
namespace Proof

open Himsha.Lib Himsha.Runtime Himsha.Programs Himsha.Vm Himsha.Node

/-! ## The ledger -/

/-- The lamports of a record, 0 where there is none. -/
def lamportsAt (stored : Option StoredAccount) : Nat := (stored.map (·.lamports.toNat)).getD 0

/-- The data and the owner of a record. -/
def bodyAt (stored : Option StoredAccount) : Option (List UInt8 × Pubkey) :=
  stored.map fun a => (a.data, a.owner)

/-- What was loaded for a key when it was loaded first. -/
def firstRead (reads : List (Pubkey × Option StoredAccount)) (k : Pubkey) :
    Option StoredAccount := (reads.find? fun e => e.1 = k).bind (·.2)

/-- What an update adds to the lamports of a key: for a transaction, what it stored less what it
    had loaded. -/
def net (k : Pubkey) : Entry → Int
  | .airdrop key lamports => if key = k then lamports.toNat else 0
  | .commit reads overlay =>
      match overlay.lookup k with
      | some stored => (stored.lamports.toNat : Int) - lamportsAt (firstRead reads k)
      | none => 0

/-- What an update leaves as data and owner of a key. An airdrop leaves them as they are, and a
    new account is a wallet. -/
def rewriteBody (k : Pubkey) (body : Option (List UInt8 × Pubkey)) :
    Entry → Option (List UInt8 × Pubkey)
  | .airdrop key _ => if key = k then some (body.getD ([], ProgramIds.systemProgram)) else body
  | .commit _ overlay =>
      match overlay.lookup k with
      | some stored => bodyAt (some stored)
      | none => body

/-- Every account holds what it held and all that the ledger added to it, and has the data and the
    owner that were committed last. -/
structure NoneLost (start now : Accounts) (ledger : List Entry) : Prop where
  lamports : ∀ k, (lamportsAt (now.lookup k) : Int) =
    lamportsAt (start.lookup k) + (ledger.map (net k)).sum
  body : ∀ k, bodyAt (now.lookup k) = ledger.foldl (rewriteBody k) (bodyAt (start.lookup k))

/-- A record is still stored as it was loaded when it is overwritten. -/
def Unraced (b : Bank) : BankAction → Prop
  | .serve i => ∀ c ∈ b.airdrops[i]?,
      match c.phase with
      | .loaded prior => b.world.state.loadAccount c.key = prior
      | _ => True
  | .commit =>
      match b.commit with
      | .ready u [] => ∀ e ∈ u.reads, b.world.state.loadAccount e.1 = e.2
      | _ => True
  | _ => True

/-- No airdrop is cut off at the largest balance. -/
def Unsaturated (b : Bank) : BankAction → Prop
  | .serve i => ∀ c ∈ b.airdrops[i]?,
      match c.phase with
      | .loaded prior => lamportsAt prior + c.lamports.toNat < 2 ^ 64
      | _ => True
  | _ => True

theorem NoneLost.refl (start : Accounts) : NoneLost start start [] where
  lamports _ := by simp
  body _ := rfl

section
variable {start now now' : Accounts} {ledger : List Entry} {entry : Entry}

/-- One more update. -/
theorem NoneLost.snoc (h : NoneLost start now ledger)
    (hlamports : ∀ k, (lamportsAt (now'.lookup k) : Int) = lamportsAt (now.lookup k) + net k entry)
    (hbody : ∀ k, bodyAt (now'.lookup k) = rewriteBody k (bodyAt (now.lookup k)) entry) :
    NoneLost start now' (ledger ++ [entry]) where
  lamports k := by
    rw [hlamports, h.lamports, List.map_append, List.sum_append, List.map_singleton,
      List.sum_singleton, Int.add_assoc]
  body k := by rw [hbody, h.body, List.foldl_append, List.foldl_cons, List.foldl_nil]

/-- An airdrop on what is stored. -/
theorem NoneLost.airdrop (h : NoneLost start now ledger) {key : Pubkey} {lamports : UInt64}
    (hfits : lamportsAt (now.lookup key) + lamports.toNat < 2 ^ 64) :
    NoneLost start (now.insert key (airdropped key (now.lookup key) lamports).toStored)
      (ledger ++ [.airdrop key lamports]) := by
  have hsum : ∀ a : UInt64, a.toNat + lamports.toNat < 2 ^ 64 →
      (saturatingAdd a lamports).toNat = a.toNat + lamports.toNat := by
    intro a ha
    unfold saturatingAdd
    rw [Nat.min_eq_left (by omega), UInt64.toNat_ofNat', Nat.mod_eq_of_lt ha]
  refine h.snoc (fun k => ?_) fun k => ?_
  · show _ = _ + if key = k then (lamports.toNat : Int) else 0
    by_cases hk : key = k
    · subst hk
      rw [Finmap.lookup_insert, if_pos rfl]
      cases hprior : now.lookup key with
      | none =>
        rw [hprior] at hfits
        have hzero : lamportsAt (none : Option StoredAccount) = (0 : UInt64).toNat := rfl
        rw [hzero] at hfits ⊢
        exact_mod_cast hsum 0 hfits
      | some stored =>
        rw [hprior] at hfits
        exact_mod_cast hsum stored.lamports hfits
    · rw [Finmap.lookup_insert_of_ne _ (Ne.symm hk), if_neg hk, Int.add_zero]
  · show _ = if key = k then _ else _
    by_cases hk : key = k
    · subst hk
      rw [Finmap.lookup_insert, if_pos rfl]
      cases now.lookup key <;> rfl
    · rw [Finmap.lookup_insert_of_ne _ (Ne.symm hk), if_neg hk]

/-- What an overlay that was loaded from the store has loaded for one of its keys is stored. -/
theorem firstRead_stored {reads : List (Pubkey × Option StoredAccount)} {k : Pubkey}
    (hreads : ∀ e ∈ reads, now.lookup e.1 = e.2) (hk : k ∈ reads.map Prod.fst) :
    firstRead reads k = now.lookup k := by
  unfold firstRead
  cases hfind : reads.find? fun e => e.1 = k with
  | none =>
    obtain ⟨e, he, rfl⟩ := List.mem_map.mp hk
    exact absurd (List.find?_eq_none.mp hfind e he) (by simp)
  | some e =>
    have hkey : e.1 = k := by simpa using List.find?_some hfind
    rw [Option.bind_some, ← hreads e (List.mem_of_find?_eq_some hfind), hkey]

/-- A commit on what it had loaded. -/
theorem NoneLost.commit (h : NoneLost start now ledger)
    {reads : List (Pubkey × Option StoredAccount)} {overlay : AList fun _ : Pubkey => StoredAccount}
    (hreads : ∀ e ∈ reads, now.lookup e.1 = e.2)
    (hkeys : ∀ k ∈ overlay, k ∈ reads.map Prod.fst) :
    NoneLost start (Table.layered overlay now) (ledger ++ [.commit reads overlay]) := by
  refine h.snoc (fun k => ?_) fun k => ?_
  · rw [Table.lookup_layered]
    dsimp only [net]
    cases hlookup : overlay.lookup k with
    | none => simp
    | some stored =>
      have hk : k ∈ overlay := by
        rw [← AList.lookup_isSome, hlookup]
        rfl
      rw [Option.some_or, firstRead_stored hreads (hkeys k hk)]
      show (stored.lamports.toNat : Int) =
        lamportsAt (now.lookup k) + (stored.lamports.toNat - lamportsAt (now.lookup k))
      omega
  · rw [Table.lookup_layered]
    dsimp only [rewriteBody]
    cases overlay.lookup k <;> rfl

end

/-! ## Pieces of `apply` -/

section
variable {ex : Executor} {tx : RuntimeTransaction} {instr : Instruction} {r r' : Running}

/-- A round loads its accounts and goes on with them. -/
theorem exec_applyInstruction (r : Running) :
    Comp.exec (Executor.applyInstruction ex .commit tx instr) r =
      Comp.exec (runLoaded ex tx instr (instr.accounts.map (Executor.materialise r instr.programId)))
        r := by
  have hsplit : Executor.applyInstruction ex .commit tx instr = get >>= fun r =>
      runLoaded ex tx instr (instr.accounts.map (Executor.materialise r instr.programId)) := rfl
  rw [hsplit, Comp.exec_bind]
  rfl

/-- A round that succeeds carries a slot for every account it was given. -/
theorem runLoaded_returns {accounts : List AccountInfo}
    (h : Comp.Returns (runLoaded ex tx instr accounts) r () r') :
    r'.state.accounts = r.state.accounts ∧ ∃ updated : List AccountInfo,
      updated.map (·.key) = accounts.map (·.key) ∧
      r'.overlay = Executor.carry r.overlay updated := by
  unfold runLoaded at h
  obtain ⟨_, _, hguard, h₁⟩ := Comp.returns_bind.mp h
  obtain ⟨-, rfl⟩ := Comp.returns_ofExcept.mp hguard
  obtain ⟨t, _, hrun, h₂⟩ := Comp.returns_bind.mp h₁
  obtain ⟨-, hexec, rfl⟩ := Executor.runProgram_returns hrun
  obtain ⟨_, _, hver, h₃⟩ := Comp.returns_bind.mp h₂
  obtain ⟨-, rfl⟩ := Comp.returns_ofExcept.mp hver
  obtain ⟨_, _, hget, h₄⟩ := Comp.returns_bind.mp h₃
  obtain ⟨rfl, rfl⟩ := Comp.returns_get.mp hget
  rw [Comp.returns_set.mp h₄]
  refine ⟨(settled_eq ex .commit tx instr _ t.updatedAccounts).1.1.accounts, _, ?_, rfl⟩
  show (Executor.settled ex .commit tx instr _ t.updatedAccounts).2.map (·.key) = _
  rw [(settled_eq ex .commit tx instr _ t.updatedAccounts).2]
  have hout : output ex .commit tx instr accounts = some (kept .commit instr t.updatedAccounts) := by
    unfold output
    rw [hexec]
  exact output_keys hout

/-- And leaves the table as it was, also where it fails. -/
theorem runLoaded_accounts (ex : Executor) (tx : RuntimeTransaction) (instr : Instruction)
    (accounts : List AccountInfo) (r : Running) :
    (Comp.exec (runLoaded ex tx instr accounts) r).2.state.accounts = r.state.accounts := by
  have hkeeps : Comp.Keeps (fun r' : Running => r'.state.accounts = r.state.accounts)
      (runLoaded ex tx instr accounts) := by
    unfold runLoaded Executor.runProgram
    refine .bind .ofExcept fun _ => .bind ?_ fun t => .bind .ofExcept fun _ =>
      .bind_get fun r' hr' => ?_
    · refine .bind .get fun _ => .bind .ensure fun _ => .bind (.modify fun _ h => h) fun _ => ?_
      dsimp only
      split
      · exact .pure
      · exact .throw
      · exact .bind (.modify fun _ h => h) fun _ => .throw
    · exact (settled_eq ex .commit tx instr r'.toWorld t.updatedAccounts).1.1.accounts.trans hr'
  exact hkeeps r rfl

theorem mem_carry {updated : List AccountInfo} {k : Pubkey}
    {overlay : AList fun _ : Pubkey => StoredAccount} (h : k ∈ Executor.carry overlay updated) :
    k ∈ overlay ∨ k ∈ updated.map (·.key) := by
  unfold Executor.carry at h
  induction updated generalizing overlay with
  | nil => exact .inl h
  | cons a updated ih =>
    rw [List.foldl_cons] at h
    rcases ih h with hmem | hmem
    · rcases AList.mem_insert _ |>.mp hmem with rfl | hmem
      · exact .inr List.mem_cons_self
      · exact .inl hmem
    · exact .inr (List.mem_cons_of_mem _ hmem)

end

/-! ## The pieces together -/

section
variable {ex : Executor} {f : FaucetGate}

/-- `b` gets to `b'` by statements of the producer alone. -/
def Alone (ex : Executor) (f : FaucetGate) (b b' : Bank) : Prop :=
  ∃ n, Lib.run (Bank.step ex f) b (List.replicate n .commit) = some b'

theorem Alone.refl (b : Bank) : Alone ex f b b := ⟨0, rfl⟩

theorem Alone.step {b m b' : Bank} (h : b.produce ex = some m) (hrest : Alone ex f m b') :
    Alone ex f b b' := by
  obtain ⟨n, hn⟩ := hrest
  refine ⟨n + 1, ?_⟩
  rw [List.replicate_succ, Lib.run]
  show (b.produce ex).bind _ = _
  rw [h]
  exact hn

/-- The accounts of an instruction, one by one. -/
theorem loading_alone (ex : Executor) (f : FaucetGate) {instr : Instruction}
    {rest : List Instruction} :
    ∀ {todo : List AccountMeta} {u : Underway} {accounts : List AccountInfo} {b : Bank},
      b.commit = .loading u instr accounts todo rest → u.resume b.world = u.running →
      ∃ reads, ∀ b', Alone ex f { b with commit := .loading { u with reads } instr (accounts ++
        todo.map (Executor.materialise u.running instr.programId)) [] rest } b' →
        Alone ex f b b' := by
  intro todo
  induction todo with
  | nil =>
    intro u accounts b hp _
    refine ⟨u.reads, fun b' hrest => ?_⟩
    rw [List.map_nil, List.append_nil, ← hp] at hrest
    exact hrest
  | cons am todo ih =>
    intro u accounts b hp hworld
    let reads := match u.running.overlay.lookup am.pubkey with
      | some _ => u.reads
      | none => u.reads ++ [(am.pubkey, b.world.state.loadAccount am.pubkey)]
    let account := Executor.materialise u.running instr.programId am
    have hproduce : b.produce ex = some { b with
        commit := .loading { u with reads } instr (accounts ++ [account]) todo rest } := by
      simp only [Bank.produce, hp, hworld]
      rfl
    obtain ⟨reads', hrest⟩ := @ih { u with reads } (accounts ++ [account])
      { b with commit := .loading { u with reads } instr (accounts ++ [account]) todo rest }
      rfl hworld
    refine ⟨reads', fun b' hdone => .step hproduce (hrest b' ?_)⟩
    rw [List.map_cons, List.append_cons] at hdone
    exact hdone

/-- The rest of a transaction. -/
theorem ready_alone (ex : Executor) (f : FaucetGate) {rest : List Instruction} :
    ∀ {u : Underway} {b : Bank},
    b.commit = .ready u rest → u.resume b.world = u.running →
    ∃ b', Alone ex f b b' ∧ b'.commit = .idle ∧ b'.world =
      (Comp.exec (Executor.applyInstructions ex .commit u.tx rest >>= fun _ => Executor.persist)
        u.running).2.toWorld := by
  induction rest with
  | nil =>
    intro u b hp hworld
    show ∃ b' : Bank, _ ∧ _ ∧ b'.world = (Comp.exec Executor.persist u.running).2.toWorld
    cases hpersist : Comp.exec Executor.persist u.running with
    | mk result r =>
      have hproduce : ∃ ledger, b.produce ex =
          some { b with world := r.toWorld, commit := .idle, ledger } := by
        simp only [Bank.produce, hp, hworld, hpersist]
        cases result with
        | ok v => exact ⟨_, rfl⟩
        | error e => exact ⟨_, rfl⟩
      obtain ⟨ledger, hproduce⟩ := hproduce
      exact ⟨_, .step hproduce (.refl _), rfl, rfl⟩
  | cons instr rest ih =>
    intro u b hp hworld
    have hassoc : (Executor.applyInstructions ex .commit u.tx (instr :: rest) >>= fun _ =>
        Executor.persist) = Executor.applyInstruction ex .commit u.tx instr >>= fun _ =>
          Executor.applyInstructions ex .commit u.tx rest >>= fun _ => Executor.persist :=
      bind_assoc _ _ _
    rw [hassoc, Comp.exec_bind, exec_applyInstruction]
    have hnext : b.produce ex =
        some { b with commit := .loading u instr [] instr.accounts rest } := by
      simp only [Bank.produce, hp]
    obtain ⟨reads, hload⟩ := loading_alone ex f (u := u)
      (b := { b with commit := .loading u instr [] instr.accounts rest }) rfl hworld
    have hresume : Underway.resume { u with reads } b.world = u.running := hworld
    cases hrun : Comp.exec (runLoaded ex u.tx instr
        (instr.accounts.map (Executor.materialise u.running instr.programId))) u.running with
    | mk result r =>
      cases result with
      | ok v =>
        obtain ⟨b', halone, hidle, hend⟩ := ih (u := { u with reads, running := r })
          (b := { b with
            world := r.toWorld, commit := .ready { u with reads, running := r } rest }) rfl rfl
        refine ⟨b', .step hnext (hload b' (.step ?_ halone)), hidle, hend⟩
        simp only [Bank.produce, List.nil_append, hresume, hrun]
      | error e =>
        refine ⟨{ b with world := r.toWorld, commit := .idle },
          .step hnext (hload _ (.step ?_ (.refl _))), rfl, rfl⟩
        simp only [Bank.produce, List.nil_append, hresume, hrun]

/-- **An `apply` that nothing comes between is `Executor.apply`.** -/
theorem commit_alone (b : Bank) (hidle : b.commit = .idle) (tx : RuntimeTransaction) :
    ∃ m b', b.step ex f (.begin tx) = some m ∧ Alone ex f m b' ∧ b'.commit = .idle ∧
      b'.world = (ex.apply b.world tx .commit).2.toWorld := by
  let u : Underway := { tx, running := { toWorld := b.world } }
  obtain ⟨b', halone, hdone, hworld⟩ := ready_alone ex f (u := u)
    (b := { b with commit := .ready u tx.message.instructions }) rfl rfl
  refine ⟨_, b', ?_, halone, hdone, hworld⟩
  simp only [Bank.step, hidle]
  rfl

end

/-! ## Runs -/

/-- What is carried was loaded from the store. -/
def CarriesReads (u : Underway) : Prop :=
  ∀ k ∈ u.running.overlay, k ∈ u.reads.map Prod.fst

/-- And so were the accounts of the instruction under way. -/
def LoadsReads : CommitPhase → Prop
  | .idle => True
  | .ready u _ => CarriesReads u
  | .loading u _ accounts _ _ => CarriesReads u ∧ ∀ a ∈ accounts, a.key ∈ u.reads.map Prod.fst

/-- The store is what the ledger says. -/
structure Kept (start : Accounts) (b : Bank) : Prop where
  ledger : NoneLost start b.world.state.accounts b.ledger
  reads : LoadsReads b.commit

section
variable {ex : Executor} {f : FaucetGate} {start : Accounts} {b b' : Bank}

theorem serve_kept {i : Nat} (h : Kept start b) (hraced : Unraced b (.serve i))
    (hfits : Unsaturated b (.serve i)) (hstep : b.step ex f (.serve i) = some b') :
    Kept start b' := by
  simp only [Bank.step, Option.bind_eq_bind] at hstep
  obtain ⟨c, hc, hrest⟩ := Option.bind_eq_some_iff.mp hstep
  obtain ⟨⟨b₁, phase⟩, hserve, heq⟩ := Option.bind_eq_some_iff.mp hrest
  simp only [Option.some.injEq] at heq
  subst heq
  have hraced' := hraced c hc
  have hfits' := hfits c hc
  unfold Bank.serve at hserve
  cases hphase : c.phase with
  | accepted =>
    simp only [hphase, Option.some.injEq, Prod.mk.injEq] at hserve
    obtain ⟨rfl, -⟩ := hserve
    exact ⟨h.ledger, h.reads⟩
  | loaded prior =>
    simp only [hphase] at hserve hraced' hfits'
    unfold NodeState.loadAccount at hraced'
    unfold Bank.saveAccount at hserve
    split at hserve
    · rename_i state hsave
      split at hsave
      · cases hsave
        simp only [Option.some.injEq, Prod.mk.injEq] at hserve
        obtain ⟨rfl, -⟩ := hserve
        refine ⟨?_, h.reads⟩
        show NoneLost start (b.world.state.putAccount c.key _).accounts _
        rw [NodeState.putAccount_accounts]
        subst hraced'
        exact h.ledger.airdrop hfits'
      · cases hsave
    · simp only [Option.some.injEq, Prod.mk.injEq] at hserve
      obtain ⟨rfl, -⟩ := hserve
      exact ⟨h.ledger, h.reads⟩
  | answered reply => simp [hphase] at hserve

theorem produce_kept (h : Kept start b) (hraced : Unraced b .commit)
    (hstep : b.produce ex = some b') : Kept start b' := by
  have hreads := h.reads
  unfold Bank.produce at hstep
  cases hp : b.commit with
  | idle => simp [hp] at hstep
  | ready u rest =>
    rw [hp] at hreads
    cases rest with
    | cons instr rest =>
      simp only [hp, Option.some.injEq] at hstep
      subst hstep
      exact ⟨h.ledger, hreads, by simp⟩
    | nil =>
      have hstored : ∀ e ∈ u.reads, b.world.state.accounts.lookup e.1 = e.2 := by
        unfold Unraced at hraced
        rw [hp] at hraced
        exact hraced
      simp only [hp] at hstep
      split at hstep
      · rename_i r hpersist
        cases hstep
        refine ⟨?_, trivial⟩
        unfold Executor.persist at hpersist
        obtain ⟨_, _, hget, h₁⟩ := Comp.returns_bind.mp (show Comp.Returns _ _ _ _ from hpersist)
        obtain ⟨rfl, rfl⟩ := Comp.returns_get.mp hget
        cases hsave : (u.resume b.world).state.saveAccountsAtomic
            ((u.resume b.world).overlay.entries.map fun e => (e.1, e.2)) with
        | none =>
          rw [hsave] at h₁
          exact absurd h₁ Comp.returns_throw
        | some state =>
          rw [hsave] at h₁
          rw [Comp.returns_set.mp h₁]
          show NoneLost start state.accounts _
          rw [NodeState.saveAccountsAtomic_accounts hsave, Table.write_overlay]
          exact h.ledger.commit hstored hreads
      · rename_i e r hpersist
        cases hstep
        have hfailed := persist_failed (r := u.resume b.world) (by rw [hpersist]; simp)
        rw [hpersist] at hfailed
        refine ⟨?_, trivial⟩
        show NoneLost start r.state.accounts _
        rw [show r = u.resume b.world from hfailed]
        exact h.ledger
  | loading u instr accounts todo rest =>
    rw [hp] at hreads
    obtain ⟨hcarries, hloaded⟩ := hreads
    cases todo with
    | cons am todo =>
      simp only [hp, Option.some.injEq] at hstep
      subst hstep
      have hkey : (Executor.materialise (u.resume b.world) instr.programId am).key = am.pubkey := by
        rw [materialise_eq, accountAt_key]
      refine ⟨h.ledger, ?_⟩
      cases hlookup : u.running.overlay.lookup am.pubkey with
      | some stored =>
        refine ⟨hcarries, fun a ha => ?_⟩
        rcases List.mem_append.mp ha with ha | ha
        · exact hloaded a ha
        · rw [List.mem_singleton.mp ha, hkey]
          exact hcarries _ (AList.lookup_isSome.mp (by rw [hlookup]; rfl))
      | none =>
        simp only [LoadsReads, CarriesReads, List.map_append, List.mem_append]
        refine ⟨fun k hk => .inl (hcarries k hk), fun a ha => ?_⟩
        rcases ha with ha | ha
        · exact .inl (hloaded a ha)
        · rw [List.mem_singleton.mp ha, hkey]
          exact .inr (List.mem_singleton_self _)
    | nil =>
      have haccounts := runLoaded_accounts ex u.tx instr accounts (u.resume b.world)
      simp only [hp] at hstep
      split at hstep
      · rename_i r hrun
        cases hstep
        rw [hrun] at haccounts
        obtain ⟨-, updated, hkeys, hoverlay⟩ :=
          runLoaded_returns (show Comp.Returns _ _ _ _ from hrun)
        refine ⟨?_, fun k hk => ?_⟩
        · show NoneLost start r.state.accounts _
          rw [haccounts]
          exact h.ledger
        · change k ∈ r.overlay at hk
          rw [hoverlay] at hk
          rcases mem_carry hk with hk | hk
          · exact hcarries k hk
          · rw [hkeys] at hk
            obtain ⟨a, ha, rfl⟩ := List.mem_map.mp hk
            exact hloaded a ha
      · rename_i e r hrun
        cases hstep
        rw [hrun] at haccounts
        refine ⟨?_, trivial⟩
        show NoneLost start r.state.accounts _
        rw [haccounts]
        exact h.ledger

theorem step_kept {a : BankAction} (h : Kept start b) (hraced : Unraced b a)
    (hfits : Unsaturated b a) (hstep : b.step ex f a = some b') : Kept start b' := by
  cases a with
  | request pubkey lamports =>
    simp only [Bank.step] at hstep
    split at hstep
    · cases hstep
      exact ⟨h.ledger, h.reads⟩
    · cases hstep
      exact h
  | serve i => exact serve_kept h hraced hfits hstep
  | begin tx =>
    simp only [Bank.step] at hstep
    split at hstep
    · cases hstep
      exact ⟨h.ledger, fun k hk => absurd hk (AList.notMem_empty k)⟩
    · cases hstep
  | commit => exact produce_kept h hraced hstep

end

/-- **No update is lost that is not raced.** In every run of airdrops and commits, in any order and
    with their loads and saves interleaved in any way, in which no record is overwritten that has
    changed since it was loaded: every account holds what it held at the start, all airdrops that
    were granted and the net effect of all transactions that committed, and has the data and the
    owner that were committed last. -/
theorem faucet_none_lost (ex : Executor) (f : FaucetGate) (w : World) (b : Bank)
    (actions : List BankAction)
    (hmeets : Meets (Bank.step ex f) (fun b a => Unraced b a ∧ Unsaturated b a) { world := w }
      actions)
    (hrun : Lib.run (Bank.step ex f) { world := w } actions = some b) :
    NoneLost w.state.accounts b.world.state.accounts b.ledger := by
  have hstart : Kept w.state.accounts { world := w } := ⟨.refl _, trivial⟩
  exact (run_invariant (fun b a b' hok hI hstep => step_kept hI hok.1 hok.2 hstep) hmeets hstart
    hrun).ledger

instance (b : Bank) (a : BankAction) : Decidable (Unraced b a) := by
  unfold Unraced
  split
  · exact @Option.decidableForallMem _ _ (fun _ => by split <;> infer_instance) _
  · split <;> infer_instance
  · infer_instance

instance (b : Bank) (a : BankAction) : Decidable (Unsaturated b a) := by
  unfold Unsaturated
  split
  · exact @Option.decidableForallMem _ _ (fun _ => by split <;> infer_instance) _
  · infer_instance

/-- A faucet that knows one wallet. -/
def openFaucet : FaucetGate where
  enabled := true
  decode s :=
    if s = (Pubkey.repeated 1).toBase58 then .ok (Pubkey.repeated 1).bytes.bytes
    else .error "provided string contained invalid character"

/-- Wallet 1 holds 1000 and asks for 100. -/
def askFaucet : BankAction := .request (Pubkey.repeated 1).toBase58 100

/-- It pays 250 to wallet 2, with nothing in between. -/
def payBeside : List BankAction :=
  .begin (signedBy [.repeated 1] [System.transfer (.repeated 1) (.repeated 2) 250]) ::
    List.replicate 5 .commit

/-- The airdrop comes before the payment. -/
def faucetFirst : List BankAction := [askFaucet, .serve 0, .serve 0] ++ payBeside

/-- The payment comes between the load and the save of the airdrop. -/
def faucetAround : List BankAction := [askFaucet, .serve 0] ++ payBeside ++ [.serve 0]

def faucetWorld : World := .funded [(.repeated 1, 1000)]

theorem faucet_none_lost_payment : ∃ b,
    Lib.run (Bank.step (.bare .dev) openFaucet) { world := faucetWorld } faucetFirst = some b ∧
      lamportsAt (b.world.state.loadAccount (.repeated 1)) = 850 ∧
      NoneLost faucetWorld.state.accounts b.world.state.accounts b.ledger := by
  have hcheck : (Lib.run (Bank.step (.bare .dev) openFaucet) { world := faucetWorld }
      faucetFirst).any (fun b =>
        lamportsAt (b.world.state.loadAccount (.repeated 1)) = 850) = true := by
    decide +kernel
  have hmeets : Meets (Bank.step (.bare .dev) openFaucet)
      (fun b a => Unraced b a ∧ Unsaturated b a) { world := faucetWorld } faucetFirst := by
    decide +kernel
  obtain ⟨b, hrun, hthen⟩ := (Option.any_eq_true _ _).mp hcheck
  exact ⟨b, hrun, of_decide_eq_true hthen,
    faucet_none_lost (.bare .dev) openFaucet faucetWorld b faucetFirst hmeets hrun⟩

/-- **An airdrop that undoes a payment.** The payment is committed and wallet 2 is paid, and then
    the airdrop stores wallet 1 as it was before. -/
theorem airdrop_restores : ∃ b,
    Lib.run (Bank.step (.bare .dev) openFaucet) { world := faucetWorld } faucetAround = some b ∧
      lamportsAt (b.world.state.loadAccount (.repeated 1)) = 1100 ∧
      lamportsAt (b.world.state.loadAccount (.repeated 2)) = 250 ∧
      ¬ NoneLost faucetWorld.state.accounts b.world.state.accounts b.ledger := by
  have hcheck : (Lib.run (Bank.step (.bare .dev) openFaucet) { world := faucetWorld }
      faucetAround).any (fun b =>
        lamportsAt (b.world.state.loadAccount (.repeated 1)) = 1100 ∧
        lamportsAt (b.world.state.loadAccount (.repeated 2)) = 250 ∧
        (b.ledger.map (net (.repeated 1))).sum = -150) = true := by
    decide +kernel
  obtain ⟨b, hrun, hthen⟩ := (Option.any_eq_true _ _).mp hcheck
  obtain ⟨hsource, hdest, hledger⟩ := of_decide_eq_true hthen
  refine ⟨b, hrun, hsource, hdest, fun hnone => ?_⟩
  have hlost := hnone.lamports (.repeated 1)
  rw [hledger, show lamportsAt (b.world.state.accounts.lookup (.repeated 1)) = 1100 from hsource]
    at hlost
  exact absurd hlost (by decide)

end Proof
end Himsha
