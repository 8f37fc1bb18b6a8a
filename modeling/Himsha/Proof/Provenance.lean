import Himsha.Programs.Builders
import Himsha.Proof.Custody
import Himsha.Proof.FeedRules

/-!
# Where the prices of a feed come from

A price feed is read by whoever lends against it, and nobody asks where the price was from. The
program does: a submission is written over only by its publisher's update, the publishers come
from the authority, and the aggregate is one of the submissions. `Sourced` says this of what a
feed holds, over whatever counts as posted; one instruction keeps it if what the instruction posts
counts (`Sourced.move`). Over a run of the node what counts is what the stored blocks have, so
nothing is left to the account but to be sourced (`feed_is_publishers`): other programs do not get
past the gate with it.
-/

set_option autoImplicit false

namespace Himsha
namespace Proof

open Himsha.Lib Himsha.Runtime Himsha.Programs Himsha.Vm Himsha.Node

open Oracle

/-- A feed with the rules of `f₀`, where every publisher and every price was there already or is
    from outside: registered, and posted. The aggregate is a price that was fresh at the time. -/
structure Sourced (f₀ : PriceFeed) (Posted : Submission → Prop) (Added : Pubkey → Prop)
    (f : PriceFeed) : Prop where
  initialized : f.isInitialized = true
  authority : f.authority = f₀.authority
  deviation : f.maxDeviationBps = f₀.maxDeviationBps
  age : f.maxSubmissionAge = f₀.maxSubmissionAge
  publishers : ∀ s ∈ f.submissions,
    s.publisher ∈ f₀.submissions.map (·.publisher) ∨ Added s.publisher
  submissions : ∀ s ∈ f.submissions, s.price ≠ 0 → s ∈ f₀.submissions ∨ Posted s
  aggregate : (f.price = f₀.price ∧ f.publishTs = f₀.publishTs) ∨
    (∃ s, (s ∈ f₀.submissions ∨ Posted s) ∧ s.price = f.price ∧
      f₀.submissionFresh s f.publishTs = true) ∧ ∃ s, Posted s ∧ s.publishTs = f.publishTs

section
variable {f₀ f g : PriceFeed} {Posted : Submission → Prop} {Added : Pubkey → Prop} {π : Profile}
  {now price : UInt64} {publisher : Pubkey} {accounts : List AccountInfo}

theorem Sourced.refl (hinit : f₀.isInitialized = true) : Sourced f₀ Posted Added f₀ where
  initialized := hinit
  authority := rfl
  deviation := rfl
  age := rfl
  publishers _ hs := .inl (List.mem_map_of_mem hs)
  submissions _ hs _ := .inl hs
  aggregate := .inl ⟨rfl, rfl⟩

/-! ## One instruction -/

/-- After an update an entry is as it was, or is the update's. -/
theorem mem_submit {S submissions : List Submission}
    (h : submit S publisher price now = some submissions) {s : Submission}
    (hs : s ∈ submissions) :
    s ∈ S ∨ s = ⟨publisher, price, now⟩ ∧ ∃ old ∈ S, old.publisher = publisher := by
  unfold submit at h
  obtain ⟨i, hfind, rfl⟩ := Option.map_eq_some_iff.mp h
  obtain ⟨hi, hat, -⟩ := List.findIdx?_eq_some_iff_getElem.mp hfind
  have hpublisher : S[i].publisher = publisher := beq_iff_eq.mp hat
  obtain ⟨j, hj⟩ := List.mem_iff_getElem?.mp hs
  rw [List.getElem?_modify] at hj
  obtain ⟨old, hold, heq⟩ := Option.map_eq_some_iff.mp hj
  have hmem : old ∈ S := List.mem_of_getElem? hold
  split at heq
  · rename_i hij
    subst hij
    obtain rfl : S[i] = old := Option.some.inj ((List.getElem?_eq_getElem hi).symm.trans hold)
    exact .inr ⟨by rw [← heq, hpublisher], S[i], hmem, hpublisher⟩
  · exact .inl (heq ▸ hmem)

/-- What is recorded by an update that counts. -/
theorem Sourced.submit (h : Sourced f₀ Posted Added f) {submissions : List Submission}
    (hposted : Posted ⟨publisher, price, now⟩)
    (hsubmit : submit f.submissions publisher price now = some submissions) :
    Sourced f₀ Posted Added { f with submissions } where
  initialized := h.initialized
  authority := h.authority
  deviation := h.deviation
  age := h.age
  publishers s hs := by
    rcases mem_submit hsubmit hs with hold | ⟨rfl, old, hold, hsame⟩
    · exact h.publishers s hold
    · simpa [hsame] using h.publishers old hold
  submissions s hs hprice := by
    rcases mem_submit hsubmit hs with hold | ⟨rfl, -⟩
    · exact h.submissions s hold hprice
    · exact .inr hposted
  aggregate := h.aggregate

/-- The aggregate that follows is a price of the feed. -/
theorem Sourced.settle (h : Sourced f₀ Posted Added f) (hsettled : FeedSettled π f now g)
    (hposted : ∃ s, Posted s ∧ s.publishTs = now) : Sourced f₀ Posted Added g := by
  cases hsettled with
  | held _ => exact h
  | @moved median _ hmedian _ =>
    refine { h with aggregate := .inr ⟨?_, hposted⟩ }
    obtain ⟨s, hs, hmedian⟩ := median_posted hmedian
    obtain ⟨hmem, hfresh⟩ := List.mem_filter.mp hs
    rw [submissionFresh_congr h.age] at hfresh
    -- A fresh price is not zero, so it is not the one that a registration leaves.
    have hprice : s.price ≠ 0 := by
      intro hzero
      simp [PriceFeed.submissionFresh, hzero] at hfresh
    exact ⟨s, h.submissions s hmem hprice, hmedian, hfresh⟩

/-- **One instruction** keeps a feed sourced, if what it posts and whom it registers count. -/
theorem Sourced.move (h : Sourced f₀ Posted Added f) {ix : OracleInstruction}
    (hmove : FeedMove π accounts now (some f) g ix)
    (hposted : ∀ price publisher, ix = .updatePrice price → accounts[1]? = some publisher →
      publisher.isSigner = true → price ≠ 0 → Posted ⟨publisher.key, price, now⟩)
    (hadded : ∀ publisher, ix = .addPublisher publisher → AuthoritySigns accounts f →
      Added publisher) : Sourced f₀ Posted Added g := by
  cases ix with
  | initFeed deviation age =>
    obtain ⟨_, -, -, hfresh, -⟩ := hmove
    have hinit := hfresh f rfl
    rw [h.initialized] at hinit
    cases hinit
  | updatePrice price =>
    obtain ⟨_, publisher, submissions, hf, -, hpublisher, hsigner, hprice, hsubmit, hsettled⟩ :=
      hmove
    obtain rfl := Option.some.inj hf
    have hcounts := hposted price publisher rfl hpublisher hsigner hprice
    exact (h.submit hcounts hsubmit).settle hsettled ⟨_, hcounts, rfl⟩
  | addPublisher publisher =>
    obtain ⟨_, hf, -, hauthority, -, -, rfl⟩ := hmove
    obtain rfl := Option.some.inj hf
    have hmem : ∀ s ∈ f.submissions ++ [⟨publisher, 0, 0⟩],
        s ∈ f.submissions ∨ s = ⟨publisher, 0, 0⟩ := by
      simp
    refine { h with publishers := fun s hs => ?_, submissions := fun s hs hprice => ?_ }
    · rcases hmem s hs with hold | rfl
      · exact h.publishers s hold
      · exact .inr (hadded publisher rfl hauthority)
    · rcases hmem s hs with hold | rfl
      · exact h.submissions s hold hprice
      · exact absurd rfl hprice
  | removePublisher publisher =>
    obtain ⟨_, hf, -, -, -, rfl⟩ := hmove
    obtain rfl := Option.some.inj hf
    exact { h with
      publishers := fun s hs => h.publishers s (List.mem_filter.mp hs).1
      submissions := fun s hs => h.submissions s (List.mem_filter.mp hs).1 }

end

/-! ## The account -/

/-- The oracle's account, with a feed in it that is sourced. -/
def HasSourced (f₀ : PriceFeed) (Posted : Submission → Prop) (Added : Pubkey → Prop)
    (a : AccountInfo) : Prop :=
  a.owner = ProgramIds.oracleProgram ∧
    ∃ f : PriceFeed, tryFromSlice a.data = some f ∧ Sourced f₀ Posted Added f

/-- The instruction posts the submission: an update of the feed, flagged as signed by the
    publisher, with the price and with the time of the transaction. -/
structure Posts (k : Pubkey) (tx : RuntimeTransaction) (instr : Instruction) (s : Submission) :
    Prop where
  program : instr.programId = ProgramIds.oracleProgram
  feed : instr.accounts[0]?.map (·.pubkey) = some k
  publisher : ∃ am, instr.accounts[1]? = some am ∧ am.pubkey = s.publisher ∧ am.isSigner = true
  update : tryFromSlice instr.data = some (OracleInstruction.updatePrice s.price)
  time : tx.message.timestamp = s.publishTs
  price : s.price ≠ 0

/-- The instruction registers the publisher, and is flagged as signed by the authority. -/
structure Registers (k authority : Pubkey) (instr : Instruction) (publisher : Pubkey) : Prop where
  program : instr.programId = ProgramIds.oracleProgram
  feed : instr.accounts[0]?.map (·.pubkey) = some k
  authority : ∃ am, instr.accounts[1]? = some am ∧ am.pubkey = authority ∧ am.isSigner = true
  add : tryFromSlice instr.data = some (OracleInstruction.addPublisher publisher)

section
variable {f₀ : PriceFeed} {Posted : Submission → Prop} {Added : Pubkey → Prop} {k : Pubkey}
  {m : Machine}

theorem hasSourced_reserved :
    Reserved ProgramIds.oracleProgram (HasSourced f₀ Posted Added) where
  owner h := h.1
  live := by
    rintro a ⟨-, f, hf, -⟩
    cases hdata : a.data with
    | nil =>
      rw [hdata] at hf
      cases hf
    | cons b bs => simp [isBlank, hdata]
  credit := by
    rintro a b ⟨howner, f, hf, hsourced⟩ hcredit
    simp only [creditOnly, Bool.and_eq_true, beq_iff_eq] at hcredit
    obtain ⟨⟨⟨⟨-, hdata⟩, hown⟩, -⟩, -⟩ := hcredit
    exact ⟨hown.trans howner, f, hdata ▸ hf, hsourced⟩

theorem runBuiltin_oracle (π : Profile) (hasher : Lending.Hasher) (accounts : List AccountInfo)
    (data : List UInt8) (timestamp : UInt64) :
    runBuiltin π hasher ProgramIds.oracleProgram accounts data timestamp =
      Comp.ofExcept (Oracle.process π accounts data timestamp) := by
  unfold runBuiltin
  rw [if_neg (by decide), if_neg (by decide), if_neg (by decide), if_neg (by decide),
    if_neg (by decide), if_neg (by decide), if_neg (by decide), if_neg (by decide),
    if_neg (by decide), if_pos rfl]
  rfl

/-- A slot is what the instruction says of it. -/
theorem accountsOf_slot {t : Accounts} {instr : Instruction} {i : Nat} {a : AccountInfo}
    (h : (accountsOf t instr)[i]? = some a) :
    ∃ am, instr.accounts[i]? = some am ∧ am.pubkey = a.key ∧ am.isSigner = a.isSigner := by
  rw [accountsOf, List.getElem?_map] at h
  obtain ⟨am, ham, rfl⟩ := Option.map_eq_some_iff.mp h
  refine ⟨am, ham, (accountAt_key t instr.programId am).symm, ?_⟩
  unfold accountAt
  split <;> rfl

/-- **The oracle program** keeps a feed sourced, if what the instruction posts and whom it registers
    count. It writes to the first slot only. -/
theorem oracle_sheltered {π : Profile} {t : Accounts} {tx : RuntimeTransaction}
    {instr : Instruction} (hprogram : instr.programId = ProgramIds.oracleProgram)
    (hposted : ∀ s, Posts k tx instr s → Posted s)
    (hadded : ∀ publisher, Registers k f₀.authority instr publisher → Added publisher)
    (h : Sheltered k (HasSourced f₀ Posted Added) (accountsOf t instr)) :
    Gives (Oracle.process π (accountsOf t instr) instr.data tx.message.timestamp)
      (Sheltered k (HasSourced f₀ Posted Added)) := by
  intro out hout
  obtain ⟨ix, hix, hout⟩ := bind_eq_ok.mp hout
  obtain ⟨_, htwo, hrun⟩ := bind_eq_ok.mp hout
  have hix := okOr_eq_ok.mp hix
  cases hgiven : accountsOf t instr with
  | nil => simp [hgiven, require_eq_ok] at htwo
  | cons a rest =>
    rw [hgiven] at hrun
    obtain ⟨g, hmove, hstore⟩ := feed_move hrun
    obtain ⟨-, data, hdata, rfl⟩ := store_first_iff.mp hstore
    have hset := h.set (i := 0) (a := { a with data }) fun hk => ?_
    · rwa [hgiven, List.set_cons_zero] at hset
    -- The feed is the account, and what the instruction names is what the slots say.
    obtain ⟨howner, f, hf, hsourced⟩ := h a (by simp [hgiven]) hk
    rw [hf] at hmove
    have hfirst : instr.accounts[0]?.map (·.pubkey) = some k := by
      obtain ⟨am, ham, hkey, -⟩ := accountsOf_slot (t := t) (i := 0) (by rw [hgiven]; rfl)
      rw [ham, Option.map_some, hkey]
      exact congrArg some hk
    refine ⟨howner, g, tryFromSlice_toVec hdata, hsourced.move hmove ?_ ?_⟩
    · intro price publisher hupdate hpublisher hsigner hprice
      obtain ⟨am, ham, hkey, hflag⟩ := accountsOf_slot (hgiven ▸ hpublisher)
      exact hposted _ ⟨hprogram, hfirst, ⟨am, ham, hkey, hflag.trans hsigner⟩, hupdate ▸ hix, rfl,
        hprice⟩
    · rintro publisher hadd ⟨authority, hauthority, hsigner, hkey⟩
      obtain ⟨am, ham, hpubkey, hflag⟩ := accountsOf_slot (hgiven ▸ hauthority)
      exact hadded _ ⟨hprogram, hfirst, ⟨am, ham, hpubkey.trans (hkey.trans hsourced.authority),
        hflag.trans hsigner⟩, hadd ▸ hix⟩

/-- **An instruction that a sourced feed survives**: any but the lending program's, whose results
    are drained as they are. -/
theorem sourced_spares {p : RuntimeTransaction × Instruction}
    (hlending : p.2.programId ≠ ProgramIds.lendingProgram)
    (hposted : ∀ s, Posts k p.1 p.2 s → Posted s)
    (hadded : ∀ publisher, Registers k f₀.authority p.2 publisher → Added publisher) :
    Spares m k (HasSourced f₀ Posted Added) p := by
  by_cases horacle : p.2.programId = ProgramIds.oracleProgram
  · intro t transition hgiven hexec
    have hbuiltin : isBuiltin p.2.programId = true := by rw [horacle]; decide
    refine kept_sheltered (builtin_sheltered hasSourced_reserved hbuiltin hgiven ?_ hexec)
      fun h => absurd h hlending
    rw [horacle, runBuiltin_oracle]
    exact .ofExcept fun after hafter _ =>
      oracle_sheltered horacle hposted hadded hgiven after hafter
  · have houtsider : Outsider ProgramIds.oracleProgram k (HasSourced f₀ Posted Added)
        p.2.programId :=
      ⟨horacle, fun hmarket => absurd hmarket (by decide), fun _ htoken =>
        absurd htoken (by decide)⟩
    exact houtsider.spares hasSourced_reserved fun h => absurd h hlending

end

/-! ## Runs of a node -/

/-- The transaction carries a signature of the key, if it declares the key a signer. -/
def SignedFor (g : Gate) (tx : RuntimeTransaction) (key : Pubkey) : Prop :=
  key ∈ tx.message.signers → ∃ sig ∈ tx.signatures, g.verify sig tx.messageHash key = true

/-- A block above `n` has an instruction that posts the submission to the feed. -/
def PostedSince (g : Gate) (blocks : Table Nat Block) (n : Nat) (k : Pubkey) (s : Submission) :
    Prop :=
  ∃ j block tx instr, n < j ∧ blocks.lookup j = some block ∧ tx ∈ block.transactions ∧
    instr ∈ tx.message.instructions ∧ Posts k tx instr s ∧ SignedFor g tx s.publisher

/-- A block above `n` has an instruction that registers the publisher for the feed. -/
def AddedSince (g : Gate) (blocks : Table Nat Block) (n : Nat) (k authority publisher : Pubkey) :
    Prop :=
  ∃ j block tx instr, n < j ∧ blocks.lookup j = some block ∧ tx ∈ block.transactions ∧
    instr ∈ tx.message.instructions ∧ Registers k authority instr publisher ∧
    SignedFor g tx authority

/-- **Every instruction of the blocks above `n`** but the lending program's is survived by what is
    sourced from them: what it posts counts, and it was vetted. -/
theorem block_spares {g : Gate} {s : Sequencer} {start n j : Nat} {k : Pubkey} {f₀ : PriceFeed}
    {m : Machine} {block : Block} {tx : RuntimeTransaction} {instr : Instruction}
    (hvetted : AllVetted g start s) (hn : start ≤ n) (hj : n < j)
    (hblock : s.world.state.blocks.lookup j = some block) (htx : tx ∈ block.transactions)
    (hinstr : instr ∈ tx.message.instructions)
    (hlending : instr.programId ≠ ProgramIds.lendingProgram) :
    Spares m k (HasSourced f₀ (PostedSince g s.world.state.blocks n k)
      (AddedSince g s.world.state.blocks n k f₀.authority)) (tx, instr) := by
  have hsigned : ∀ key, SignedFor g tx key := fun key hkey =>
    RuntimeTransaction.verifySignatures_mem
      (hvetted.blocks j block (by omega) hblock tx htx).signed hkey
  exact sourced_spares hlending
    (fun s hs => ⟨j, block, tx, instr, hj, hblock, htx, hinstr, hs, hsigned _⟩)
    (fun publisher hadd => ⟨j, block, tx, instr, hj, hblock, htx, hinstr, hadd, hsigned _⟩)

/-- **Every price has its publisher.** In every run of a node that starts with nothing in flight and
    crashes between blocks only, at rest: an account that held an initialised feed when the chain
    was at some block holds one still, with the same authority and the same rules. Whoever is
    registered in it and was not then was registered by the authority in a block since. Every
    price in it that was not there then was posted in a block since, by its publisher, with the
    time of that transaction; and the aggregate, if it has moved, is such a price, or one from
    then, that was fresh when it was made the aggregate. All this unless a block since then has a
    lending instruction that lists the account. -/
theorem feed_is_publishers (ex : Executor) (g : Gate) (boot : ElectionState) (genesis : Accounts)
    (s₀ s : Sequencer) (incidents : List Incident) (hready : Ready ex.machine genesis s₀)
    (hbooted : Booted s₀) (hcalls : s₀.calls = []) (hqueue : s₀.queue = [])
    (hmeets : Meets (Sequencer.incident ex g boot) CrashesAtRest s₀ incidents)
    (hrun : Lib.run (Sequencer.incident ex g boot) s₀ incidents = some s) (hrest : AtRest s)
    (n : Nat) (hn : s₀.world.state.slot ≤ n) (t : Accounts)
    (ht : replayTo ex.machine genesis s.world.state.blocks n = some t) (k : Pubkey)
    (stored : StoredAccount) (hstored : t.lookup k = some stored)
    (howner : stored.owner = ProgramIds.oracleProgram) (f₀ : PriceFeed)
    (hfeed : tryFromSlice stored.data = some f₀) (hinit : f₀.isInitialized = true) :
    (∃ now f, s.world.state.loadAccount k = some now ∧
      now.owner = ProgramIds.oracleProgram ∧ tryFromSlice now.data = some f ∧
      Sourced f₀ (PostedSince g s.world.state.blocks n k)
        (AddedSince g s.world.state.blocks n k f₀.authority) f) ∨
    ∃ j block tx instr, n < j ∧ s.world.state.blocks.lookup j = some block ∧
      tx ∈ block.transactions ∧ instr ∈ tx.message.instructions ∧ mentions instr k = true ∧
      instr.programId = ProgramIds.lendingProgram := by
  have hvetted := run_vetted hbooted.inv (hbooted.allVetted hcalls hqueue) hrun
  have hheld : Holds k (HasSourced f₀ (PostedSince g s.world.state.blocks n k)
      (AddedSince g s.world.state.blocks n k f₀.authority)) t :=
    ⟨stored, hstored, howner, f₀, hfeed, .refl hinit⟩
  rcases node_spared hasSourced_reserved hready hmeets hrun hrest ht hheld with
    ⟨now, hnow, howned, f, hf, hsourced⟩ | ⟨j, block, tx, instr, hj, hblock, htx, hinstr, hlist,
    hnot⟩
  · exact .inl ⟨now, f, hnow, howned, hf, hsourced⟩
  · refine .inr ⟨j, block, tx, instr, hj, hblock, htx, hinstr, hlist, ?_⟩
    by_contra hlending
    exact hnot (block_spares hvetted hn hj hblock htx hinstr hlending)

/-- Publisher 1's feed, at 100. -/
def ownFeed : PriceFeed where
  authority := .repeated 1
  price := 100
  isInitialized := true
  submissions := [⟨.repeated 1, 100, 0⟩]

/-- A node with the feed, and nothing else. -/
def feedNode : Sequencer where
  world := { state := {
    accounts := (∅ : Accounts).insert (.repeated 9)
      ⟨0, (toVec ownFeed).getD [], ProgramIds.oracleProgram, false, none, none⟩
    blocks := (∅ : Table Nat Block).insert 0 .genesis } }

/-- The publisher posts 120. -/
def postPrice : RuntimeTransaction :=
  signedBy [.repeated 1] [Builders.Oracle.updatePrice (.repeated 9) (.repeated 1) 120]

theorem feedNode_ready :
    Ready (Executor.bare .dev).machine feedNode.world.state.accounts feedNode := by
  refine ⟨⟨rfl, fun k hk => ?_, by simp [feedNode]⟩, fun k hk => ?_, rfl⟩
  · obtain rfl : k = 0 := Nat.le_zero.mp hk
    rfl
  · exact Finmap.lookup_insert_of_ne _ (Nat.ne_of_gt hk)

/-- The ledger of a node does not depend on its accounts. -/
theorem feedNode_booted : Booted feedNode :=
  have h := emptyNode_booted.ledger
  ⟨⟨h.fresh, h.sealed, h.indexed, h.succeeded, h.counted⟩, rfl⟩

/-- The aggregate is the publisher's 120 now. -/
theorem feed_is_publishers_posted : ∃ s,
    Lib.run (Sequencer.incident (.bare .dev) payingGate {}) feedNode
        ((.submit postPrice :: serves 0 6 ++ produces 7 : List Action).map .act) = some s ∧
      ((s.world.state.loadAccount (.repeated 9)).bind fun a =>
        (tryFromSlice a.data : Option PriceFeed)).any (·.price = 120) = true ∧
      ((∃ now f, s.world.state.loadAccount (.repeated 9) = some now ∧
          now.owner = ProgramIds.oracleProgram ∧ tryFromSlice now.data = some f ∧
          Sourced ownFeed (PostedSince payingGate s.world.state.blocks 0 (.repeated 9))
            (AddedSince payingGate s.world.state.blocks 0 (.repeated 9) (.repeated 1)) f) ∨
        ∃ j block tx instr, 0 < j ∧ s.world.state.blocks.lookup j = some block ∧
          tx ∈ block.transactions ∧ instr ∈ tx.message.instructions ∧
          mentions instr (.repeated 9) = true ∧
          instr.programId = ProgramIds.lendingProgram) := by
  have hcheck : (Lib.run (Sequencer.incident (.bare .dev) payingGate {}) feedNode
      ((.submit postPrice :: serves 0 6 ++ produces 7 : List Action).map .act)).any
        (fun s => AtRest s ∧ ((s.world.state.loadAccount (.repeated 9)).bind fun a =>
          (tryFromSlice a.data : Option PriceFeed)).any (·.price = 120) = true) = true := by
    decide +kernel
  obtain ⟨s, hrun, hthen⟩ := (Option.any_eq_true _ _).mp hcheck
  obtain ⟨hrest, hmoved⟩ := of_decide_eq_true hthen
  exact ⟨s, hrun, hmoved, feed_is_publishers (.bare .dev) payingGate {} _ _ s _ feedNode_ready
    feedNode_booted rfl rfl (meets_acts _ _) hrun hrest 0 (Nat.le_refl _) _ rfl (.repeated 9) _
    (Finmap.lookup_insert _) rfl ownFeed (by decide +kernel) rfl⟩

end Proof
end Himsha
