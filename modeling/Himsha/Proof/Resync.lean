import Himsha.Proof.Replication

/-!
# Blocks that fail half way

A follower saves account by account and has nothing to take back, so a block that fails leaves
what was saved before. The next poll starts from the same slot and runs the block again on top of
it. `Restores` is exactly when a failed block has left no trace, and over polls in which every
failed block has left none, and every block carries the slot it was asked for, a replica is at
every moment its start with a list of blocks applied once each, in order.
-/

set_option autoImplicit false

namespace Himsha
namespace Proof

open Himsha.Lib Himsha.Runtime Himsha.Programs Himsha.Vm Himsha.Node

/-- The last record asked for under each key is the one that is stored there. -/
def Restores (t : Accounts) (es : List (Pubkey × StoredAccount)) : Prop :=
  ∀ e ∈ Table.survivors es, t.lookup e.1 = some e.2

/-- The account records that are saved of a block before it ends. -/
def saved (f : Follower) (r : Replica) (block : Block) : List (Pubkey × StoredAccount) :=
  landed f.disk r.writes (plan f.machine r.state.accounts (Follower.instructionsOf block)).1

/-- `apply_block` returns `Err`. -/
def Refuses (f : Follower) (r : Replica) (block : Block) : Prop :=
  ∃ text, (Comp.exec (f.applyBlock block) r).1 = .error (.error text)

instance (f : Follower) (r : Replica) (block : Block) : Decidable (Refuses f r block) :=
  match h : (Comp.exec (f.applyBlock block) r).1 with
  | .error (.error text) => isTrue ⟨text, h⟩
  | .error .panic => isFalse fun ⟨text, htext⟩ => by simp [h] at htext
  | .ok () => isFalse fun ⟨text, htext⟩ => by simp [h] at htext

/-- If the block is refused, what was saved of it is what was there. -/
def FailsClean (f : Follower) (r : Replica) (block : Block) : Prop :=
  Refuses f r block → Restores r.state.accounts (saved f r block)

/-- The blocks of a poll carry the slots they are asked for, and those that fail leave nothing. -/
def OrderlyFrom (f : Follower) (p : Follower.Poll) : Nat → Nat → Replica → Prop
  | _, 0, _ => True
  | next, n + 1, r =>
      match p.block next with
      | .ok (some block) => block.slot = next ∧ FailsClean f r block ∧
          ∀ r', Comp.Returns (f.applyBlock block) r () r' → OrderlyFrom f p (next + 1) n r'
      | _ => True

def Orderly (f : Follower) (r : Replica) (p : Follower.Poll) : Prop :=
  match p.target with
  | .ok target => OrderlyFrom f p (r.state.slot + 1) (target - r.state.slot) r
  | .error _ => True

/-- A replica is where `r₀` gets by the blocks `applied`, each of them once. -/
structure Replicated (m : Machine) (r₀ r : Replica) (applied : List Block) : Prop where
  slots : applied.map (·.slot) = List.range' (r₀.state.slot + 1) applied.length
  slot : r.state.slot = r₀.state.slot + applied.length
  table : Lib.run (replayStep m) r₀.state.accounts (applied.flatMap Follower.instructionsOf) =
    some r.state.accounts

theorem Replicated.refl (m : Machine) (r : Replica) : Replicated m r r [] := ⟨rfl, rfl, rfl⟩

section
variable {f : Follower}

/-- A refused block leaves what was saved of it, and the slot where it was if it is the next. -/
theorem refused_exec {r : Replica} {block : Block} (h : Refuses f r block) :
    (Comp.exec (f.applyBlock block) r).2.state.accounts =
        r.state.accounts.write (saved f r block) ∧
      (block.slot ≤ r.state.slot + 1 →
        (Comp.exec (f.applyBlock block) r).2.state.slot = r.state.slot) := by
  obtain ⟨text, herr⟩ := h
  have hne : (Comp.exec (f.applyInstructions (Follower.instructionsOf block)) r).1 ≠
      .error .panic := by
    intro hpanic
    rw [applyBlock_eq, Comp.exec_bind] at herr
    cases hx : Comp.exec (f.applyInstructions (Follower.instructionsOf block)) r with
    | mk res r₁ =>
      rw [hx] at hpanic herr
      dsimp only at hpanic
      subst hpanic
      simp at herr
  have hfollows := applyInstructions_follows_of_ne_panic _ hne
  refine ⟨(applyBlock_accounts block r).trans hfollows.accounts, fun hnext => ?_⟩
  have hslot := hfollows.slot
  rw [applyBlock_eq, Comp.exec_bind] at herr ⊢
  cases hx : Comp.exec (f.applyInstructions (Follower.instructionsOf block)) r with
  | mk res r₁ =>
    rw [hx] at herr hslot
    cases res with
    | error e => exact hslot
    | ok u =>
      dsimp only at herr hslot ⊢
      obtain ⟨hok, -⟩ | ⟨-, hle, hmax⟩ := sealBlock_exec (f := f) block r₁
      · rw [hok] at herr
        simp at herr
      · omega

/-- Where the first instruction is the one that fails, nothing is saved. -/
theorem restores_of_first {r : Replica} {block : Block} {p : RuntimeTransaction × Instruction}
    {rest : List (RuntimeTransaction × Instruction)}
    (hfirst : Follower.instructionsOf block = p :: rest)
    (hfails : replayStep f.machine r.state.accounts p = none) :
    Restores r.state.accounts (saved f r block) := by
  have hnone : saved f r block = [] := by
    unfold saved plan
    rw [hfirst]
    unfold replayStep at hfails
    split at hfails
    · rename_i e hdemand
      dsimp only
      rw [hdemand]
      rfl
    · exact absurd hfails nofun
  intro e he
  rw [hnone] at he
  exact absurd he List.not_mem_nil

/-- One more block on a replica. -/
theorem Replicated.snoc {m : Machine} {r₀ r r' : Replica} {applied : List Block} {block : Block}
    (h : Replicated m r₀ r applied) (hslot : block.slot = r.state.slot + 1)
    (hslot' : r'.state.slot = max r.state.slot block.slot)
    (htable : Lib.run (replayStep m) r.state.accounts (Follower.instructionsOf block) =
      some r'.state.accounts) : Replicated m r₀ r' (applied ++ [block]) := by
  have hbefore := h.slot
  constructor
  · rw [List.map_append, h.slots, List.length_append, List.length_singleton, List.range'_concat]
    simp only [List.map_cons, List.map_nil, Nat.one_mul]
    rw [hslot, hbefore]
    congr 2
    omega
  · rw [List.length_append, List.length_singleton]
    omega
  · rw [List.flatMap_append]
    refine run_trans h.table ?_
    rw [List.flatMap_cons, List.flatMap_nil, List.append_nil]
    exact htable

/-- A replica whose slot and accounts are the same is the same for what follows. -/
theorem Replicated.congr {m : Machine} {r₀ r r' : Replica} {applied : List Block}
    (h : Replicated m r₀ r applied) (hslot : r'.state.slot = r.state.slot)
    (htable : r'.state.accounts = r.state.accounts) : Replicated m r₀ r' applied :=
  ⟨h.slots, hslot.trans h.slot, h.table.trans (by rw [htable])⟩

/-- A replica that is where its start gets by blocks that were served to it, each of them once. -/
def Tracks (f : Follower) (r₀ : Replica) (polls : List Follower.Poll) (r : Replica) : Prop :=
  ∃ applied : List Block, Replicated f.machine r₀ r applied ∧
    ∀ block ∈ applied, ∃ p ∈ polls, p.block block.slot = .ok (some block)

/-- **One attempt at the next block keeps track**: it is applied, or nothing happened. -/
theorem applyBlock_tracks {r₀ r : Replica} {polls : List Follower.Poll} {p : Follower.Poll}
    {block : Block} (h : Tracks f r₀ polls r) (hp : p ∈ polls)
    (hserved : p.block block.slot = .ok (some block)) (hnext : block.slot = r.state.slot + 1)
    (hclean : FailsClean f r block)
    (hne : (Comp.exec (f.applyBlock block) r).1 ≠ .error .panic) :
    Tracks f r₀ polls (Comp.exec (f.applyBlock block) r).2 ∧
      ((Comp.exec (f.applyBlock block) r).1 = .ok () →
        (Comp.exec (f.applyBlock block) r).2.state.slot = block.slot) := by
  obtain ⟨applied, hreplicated, hall⟩ := h
  cases hx : (Comp.exec (f.applyBlock block) r).1 with
  | ok u =>
    have hreturns : Comp.Returns (f.applyBlock block) r () (Comp.exec (f.applyBlock block) r).2 := by
      rw [Comp.Returns, ← hx]
    obtain ⟨htable, -, hslot⟩ := applyBlock_returns hreturns
    refine ⟨⟨applied ++ [block], hreplicated.snoc hnext hslot htable, fun b hb => ?_⟩, fun _ => ?_⟩
    · rcases List.mem_append.mp hb with hb | hb
      · exact hall b hb
      · rw [List.mem_singleton.mp hb]
        exact ⟨p, hp, hserved⟩
    · omega
  | error e =>
    cases e with
    | panic => exact absurd hx hne
    | error text =>
      have hrefuses : Refuses f r block := ⟨text, hx⟩
      obtain ⟨haccounts, hslot⟩ := refused_exec hrefuses
      rw [Table.write_eq_self_iff.mpr (hclean hrefuses)] at haccounts
      exact ⟨⟨applied, hreplicated.congr (hslot (by omega)) haccounts, hall⟩, by simp⟩

theorem syncFrom_tracks {r₀ : Replica} {polls : List Follower.Poll} {p : Follower.Poll}
    (hp : p ∈ polls) : ∀ (n : Nat) (r : Replica), Tracks f r₀ polls r →
      OrderlyFrom f p (r.state.slot + 1) n r →
      (Comp.exec (f.syncFrom p (r.state.slot + 1) n) r).1 ≠ .error .panic →
      Tracks f r₀ polls (Comp.exec (f.syncFrom p (r.state.slot + 1) n) r).2 := by
  intro n
  induction n with
  | zero => exact fun _ h _ _ => h
  | succ n ih =>
    intro r h horderly hne
    unfold OrderlyFrom at horderly
    unfold Follower.syncFrom at hne ⊢
    cases hserved : p.block (r.state.slot + 1) with
    | error text => exact h
    | ok answer =>
      cases answer with
      | none => exact h
      | some block =>
        rw [hserved] at horderly hne
        obtain ⟨hslot, hclean, hrest⟩ := horderly
        dsimp only at hne ⊢
        rw [Comp.exec_bind] at hne ⊢
        rw [← hslot] at hserved
        have hone := applyBlock_tracks h hp hserved hslot hclean
        cases hx : Comp.exec (f.applyBlock block) r with
        | mk res r₁ =>
          rw [hx] at hne hone
          cases res with
          | error e => exact (hone (by simpa using hne)).1
          | ok u =>
            obtain ⟨htracks, hslot₁⟩ := hone (by simp)
            have hnext : r.state.slot + 1 + 1 = r₁.state.slot + 1 := by
              rw [show r₁.state.slot = block.slot from hslot₁ rfl, hslot]
            dsimp only at hne ⊢
            rw [hnext] at hne ⊢
            exact ih r₁ htracks (hnext ▸ hrest r₁ hx) hne

/-- **One poll keeps track.** -/
theorem poll_tracks {r₀ r r' : Replica} {polls : List Follower.Poll} {p : Follower.Poll}
    (hp : p ∈ polls) (h : Tracks f r₀ polls r) (horderly : Orderly f r p)
    (hstep : f.poll r p = some r') : Tracks f r₀ polls r' := by
  have hend : (Comp.exec (f.syncOnce p) r).1 ≠ .error .panic ∧
      (Comp.exec (f.syncOnce p) r).2 = r' := by
    unfold Follower.poll at hstep
    cases hx : Comp.exec (f.syncOnce p) r with
    | mk res r₁ =>
      rw [hx] at hstep
      cases res with
      | ok u => exact ⟨by simp, Option.some.inj hstep⟩
      | error e =>
        cases e with
        | panic => simp at hstep
        | error text => exact ⟨by simp, Option.some.inj hstep⟩
  obtain ⟨hne, rfl⟩ := hend
  unfold Orderly at horderly
  unfold Follower.syncOnce at hne ⊢
  cases htarget : p.target with
  | error text => exact h
  | ok target =>
    rw [htarget] at horderly hne
    exact syncFrom_tracks hp _ r h horderly hne

end

/-- **When a block is all or nothing.** A block that is refused leaves the account table as it was
    if and only if the last record that was saved for each account, before the failure, is the one
    that was stored; it is where the first instruction fails (`restores_of_first`). And over any
    sequence of polls in which that is so for each block that is refused, and each block carries the
    slot it was asked for, the replica is at every point its start with blocks that were served
    applied once each, slot by slot. -/
theorem block_unwinds_iff (f : Follower) :
    (∀ (r : Replica) (block : Block), Refuses f r block →
      ((Comp.exec (f.applyBlock block) r).2.state.accounts = r.state.accounts ↔
        Restores r.state.accounts (saved f r block))) ∧
    ∀ (r₀ r : Replica) (polls : List Follower.Poll), Meets f.poll (Orderly f) r₀ polls →
      Lib.run f.poll r₀ polls = some r → Tracks f r₀ polls r := by
  constructor
  · intro r block hrefuses
    rw [(refused_exec hrefuses).1]
    exact Table.write_eq_self_iff
  · intro r₀ r polls hmeets hrun
    have hmem : Meets f.poll (fun _ p => p ∈ polls) r₀ polls := .of_forall fun _ hp => hp
    refine run_invariant (fun s p s' hok hI hstep => ?_) (hmeets.and hmem)
      ⟨[], .refl f.machine r₀, by simp⟩ hrun
    exact poll_tracks hok.2 hI hok.1 hstep

/-- A primary whose only block is `block`, at slot 1. -/
def serving (block : Block) : Follower.Poll where
  target := .ok 1
  block := fun slot => .ok (if slot = 1 then some block else none)

/-- A primary that does not answer. -/
def unreachable : Follower.Poll where
  target := .error "connection refused"
  block := fun _ => .error "connection refused"

/-- The block at slot 1 with one transaction. -/
def blockOf (tx : RuntimeTransaction) : Block := .newWithRoot 1 0 [tx] 0 (.zero 32)

theorem block_unwinds_overdraft :
    (Refuses bareFollower (replicaOf [(.repeated 1, 1000)]) (blockOf overdraft) ∧
      (Comp.exec (bareFollower.applyBlock (blockOf overdraft))
        (replicaOf [(.repeated 1, 1000)])).2.state.accounts =
          (replicaOf [(.repeated 1, 1000)]).state.accounts) ∧
    ∃ r, Lib.run bareFollower.poll (replicaOf [(.repeated 1, 1000)])
        [unreachable, serving (blockOf (transferListing []))] = some r ∧
      Tracks bareFollower (replicaOf [(.repeated 1, 1000)])
        [unreachable, serving (blockOf (transferListing []))] r := by
  obtain ⟨hblock, hpolls⟩ := block_unwinds_iff bareFollower
  have hrefuses : Refuses bareFollower (replicaOf [(.repeated 1, 1000)]) (blockOf overdraft) := by
    decide
  refine ⟨⟨hrefuses, (hblock _ _ hrefuses).mpr ?_⟩, ?_⟩
  · exact restores_of_first rfl (by decide)
  · have hrun : (Lib.run bareFollower.poll (replicaOf [(.repeated 1, 1000)])
        [unreachable, serving (blockOf (transferListing []))]).isSome = true := by
      decide +kernel
    obtain ⟨r, hr⟩ := Option.isSome_iff_exists.mp hrun
    refine ⟨r, hr, hpolls _ _ _ ⟨trivial, fun r₁ hr₁ => ⟨?_, fun _ _ => trivial⟩⟩ hr⟩
    have hfirst : replicaOf [(.repeated 1, 1000)] = r₁ := Option.some.inj hr₁
    subst hfirst
    have haccepts : ¬ Refuses bareFollower (replicaOf [(.repeated 1, 1000)])
        (blockOf (transferListing [])) := by
      decide +kernel
    exact ⟨rfl, fun hrefused => absurd hrefused haccepts, fun _ _ => trivial⟩

/-- A payment of 250 and one of 5000, in one transaction. -/
def halfPaid : RuntimeTransaction :=
  signedBy [.repeated 1] ((transferListing []).message.instructions ++
    overdraft.message.instructions)

/-- **A refused block that stays, twice.** The second payment is refused and the first is not taken
    back; the next poll makes it again. -/
theorem half_block_stays :
    (Refuses bareFollower (replicaOf [(.repeated 1, 1000)]) (blockOf halfPaid) ∧
      (Comp.exec (bareFollower.applyBlock (blockOf halfPaid))
        (replicaOf [(.repeated 1, 1000)])).2.state.loadAccount (.repeated 1) =
          some (wallet 750)) ∧
    (Lib.run bareFollower.poll (replicaOf [(.repeated 1, 1000)])
        [serving (blockOf halfPaid), serving (blockOf halfPaid)]).map
          (fun r => (r.state.slot, r.state.loadAccount (.repeated 1))) =
      some (0, some (wallet 500)) := by
  decide +kernel

end Proof
end Himsha
