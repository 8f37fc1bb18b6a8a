import Himsha.Proof.TxidOrder

/-!
# What the sync loop tells about the mempool

A transaction is told of in turn as seen and as gone, whatever fails (`alternates_from`). Whether
it is told confirmed or evicted depends on the tick that misses it alone: a tick that fails after
it has read the height leaves a new height with an old snapshot of the mempool, and the block that
it has met is then no news to the next (`told_iff`).
-/

set_option autoImplicit false

namespace Himsha
namespace Proof

open Himsha.Lib Himsha.Runtime Himsha.Node Himsha.Node.BitcoinIndexer

/-! ## The events about one transaction -/

def eventTxid : MempoolEvent → String
  | .seen txid | .confirmed txid _ | .evicted txid => txid

/-- The transaction is in the mempool. -/
def isSeen : MempoolEvent → Bool
  | .seen _ => true
  | .confirmed .. | .evicted _ => false

def about (txid : String) (events : List MempoolEvent) : List MempoolEvent :=
  events.filter (eventTxid · = txid)

/-- Seen and gone in turn; `first` is whether the first event is a `Seen`. -/
def Alternates : Bool → List MempoolEvent → Prop
  | _, [] => True
  | first, event :: events => isSeen event = first ∧ Alternates (!first) events

theorem about_append (txid : String) (events later : List MempoolEvent) :
    about txid (events ++ later) = about txid events ++ about txid later :=
  List.filter_append ..

/-- Of one event for each text of a set, at most one is about a transaction. -/
theorem about_map {tell : String → MempoolEvent} (htell : ∀ x, eventTxid (tell x) = x)
    {texts : List String} (hnodup : texts.Nodup) (txid : String) :
    about txid (texts.map tell) = if txid ∈ texts then [tell txid] else [] := by
  have hcomp : ((fun event => decide (eventTxid event = txid)) ∘ tell) = (· == txid) := by
    funext x
    rw [Function.comp_apply, htell, beq_eq_decide]
  have hcount : texts.count txid = if txid ∈ texts then 1 else 0 := by
    split
    · rename_i hmem
      exact List.count_eq_one_of_mem hnodup hmem
    · rename_i hmem
      exact List.count_eq_zero_of_not_mem hmem
  unfold about
  rw [List.filter_map, hcomp, List.filter_beq, hcount]
  split <;> rfl

theorem mem_difference {a b : TextSet} {txid : String} :
    txid ∈ a.difference b ↔ txid ∈ a.texts ∧ txid ∉ b.texts := by
  simp [TextSet.difference]

theorem nodup_difference (a b : TextSet) : (a.difference b).Nodup := a.nodup.filter _

/-! ## One tick -/

variable {Txid : Type} (api : TxidApi Txid)

/-- The height and the mempool, where both calls are answered. -/
def reads (tick : Tick Txid) : Option (UInt64 × List Txid) := do
  let height ← tick.getBlockCount
  let mempool ← tick.getRawMempool
  return (height, mempool)

theorem reads_eq_some {tick : Tick Txid} {height : UInt64} {mempool : List Txid} :
    reads tick = some (height, mempool) ↔
      tick.getBlockCount = some height ∧ tick.getRawMempool = some mempool := by
  unfold reads
  cases tick.getBlockCount <;> cases tick.getRawMempool <;> simp

/-- A tick that fails tells nothing and keeps the snapshot. -/
theorem pollOnce_failed {tick : Tick Txid} (s : Sync) (h : reads tick = none) :
    (pollOnce api tick s).sent = [] ∧ (pollOnce api tick s).sync.seen = s.seen := by
  unfold pollOnce
  cases hheight : tick.getBlockCount with
  | none => exact ⟨rfl, rfl⟩
  | some height =>
    cases hmempool : tick.getRawMempool with
    | none =>
      simp only [called]
      refine ⟨trivial, ?_⟩
      split <;> rfl
    | some mempool =>
      rw [reads, hheight, hmempool] at h
      cases h

/-- A tick that does not has the new snapshot, and of one transaction it tells whether it came or
    went. -/
theorem pollOnce_reads {tick : Tick Txid} (s : Sync) {height : UInt64} {mempool : List Txid}
    (h : reads tick = some (height, mempool)) :
    (∀ txid, txid ∈ (pollOnce api tick s).sync.seen.texts ↔ txid ∈ mempool.map api.display) ∧
    ∀ txid, about txid (pollOnce api tick s).sent =
      (if txid ∈ mempool.map api.display ∧ txid ∉ s.seen.texts then [.seen txid] else []) ++
      if txid ∈ s.seen.texts ∧ txid ∉ mempool.map api.display then
        [if s.lastHeight < height then .confirmed txid height else .evicted txid] else [] := by
  obtain ⟨hheight, hmempool⟩ := reads_eq_some.mp h
  -- Neither the height that is kept nor the snapshot before depends on the other.
  have hseen : (if height > s.lastHeight then { s with lastHeight := height } else s).seen =
      s.seen := by split <;> rfl
  have hmem := tick.hash.mem_collect (mempool.map api.display)
  unfold pollOnce
  rw [hheight, hmempool]
  simp only [called, hseen]
  refine ⟨hmem, fun txid => ?_⟩
  rw [about_append, about_map (fun _ => rfl) (nodup_difference _ _),
    about_map (fun _ => by split <;> rfl) (nodup_difference _ _)]
  simp only [mem_difference, hmem, gt_iff_lt]

/-- The height that is kept is the highest of those met. -/
theorem pollOnce_lastHeight (tick : Tick Txid) (s : Sync) (n : UInt64) :
    (pollOnce api tick s).sync.lastHeight < n ↔
      s.lastHeight < n ∧ ∀ height ∈ tick.getBlockCount, height < n := by
  have hkept : ∀ height : UInt64,
      (if height > s.lastHeight then { s with lastHeight := height } else s).lastHeight < n ↔
        s.lastHeight < n ∧ height < n := by
    intro height
    split
    · rename_i hnew
      exact ⟨fun h => ⟨UInt64.lt_trans hnew h, h⟩, And.right⟩
    · rename_i hold
      exact ⟨fun h => ⟨h, UInt64.lt_of_le_of_lt (UInt64.not_lt.mp hold) h⟩, And.left⟩
  unfold pollOnce
  cases tick.getBlockCount with
  | none => simp [called]
  | some height =>
    have hall : (∀ h ∈ some height, h < n) ↔ height < n := by simp
    rw [hall, ← hkept height]
    cases tick.getRawMempool with
    | none => rfl
    | some mempool => rfl

/-! ## Runs -/

variable {api}

theorem syncAfter_append (s : Sync) (ticks later : List (Tick Txid)) :
    syncAfter api s (ticks ++ later) = syncAfter api (syncAfter api s ticks) later :=
  List.foldl_append ..

theorem syncAfter_failed {s : Sync} {ticks : List (Tick Txid)}
    (h : ∀ tick ∈ ticks, reads tick = none) : (syncAfter api s ticks).seen = s.seen := by
  induction ticks generalizing s with
  | nil => rfl
  | cons tick ticks ih =>
    have hhead := (pollOnce_failed api s (h tick List.mem_cons_self)).2
    exact (ih fun t ht => h t (List.mem_cons_of_mem _ ht)).trans hhead

theorem syncAfter_lastHeight (s : Sync) (ticks : List (Tick Txid)) (n : UInt64) :
    (syncAfter api s ticks).lastHeight < n ↔
      s.lastHeight < n ∧ ∀ tick ∈ ticks, ∀ height ∈ tick.getBlockCount, height < n := by
  induction ticks generalizing s with
  | nil => simp [syncAfter]
  | cons tick ticks ih =>
    rw [List.forall_mem_cons, ← and_assoc, ← pollOnce_lastHeight api tick s n]
    exact ih (pollOnce api tick s).sync

/-- From any state on, what is told of a transaction begins with `Seen` where it is not in the
    snapshot, and goes on in turn. -/
theorem alternates_from (s : Sync) (ticks : List (Tick Txid)) (txid : String) :
    Alternates (decide (txid ∉ s.seen.texts)) (about txid (sentFrom api s ticks)) := by
  induction ticks generalizing s with
  | nil => trivial
  | cons tick ticks ih =>
    have ih := ih (pollOnce api tick s).sync
    rw [sentFrom, about_append]
    cases hreads : reads tick with
    | none =>
      obtain ⟨hsent, hseen⟩ := pollOnce_failed api s hreads
      rw [hseen] at ih
      rw [hsent]
      exact ih
    | some answer =>
      obtain ⟨hseen, hsent⟩ := pollOnce_reads api s hreads
      rw [hsent]
      simp only [hseen] at ih
      by_cases hwas : txid ∈ s.seen.texts
      all_goals by_cases his : txid ∈ answer.2.map api.display
      -- It stays, it goes, it comes, or it is as little there as before.
      · simpa [hwas, his] using ih
      · have hgone : isSeen (if s.lastHeight < answer.1 then .confirmed txid answer.1
            else .evicted txid) = false := by split <;> rfl
        simpa [hwas, his, Alternates, hgone] using ih
      · simpa [hwas, his, Alternates, isSeen] using ih
      · simpa [hwas, his] using ih

/-! ## Departures -/

/-- A transaction that left the mempool between two ticks that read it, with only ticks that failed
    between the two. -/
structure Departure (api : TxidApi Txid) (ticks : List (Tick Txid)) where
  before : List (Tick Txid)
  earlier : Tick Txid
  failed : List (Tick Txid)
  later : Tick Txid
  after : List (Tick Txid)
  split : ticks = before ++ earlier :: (failed ++ later :: after)
  /-- The height and the mempool that the earlier tick reads. -/
  first : UInt64 × List Txid
  first_read : reads earlier = some first
  failed_none : ∀ tick ∈ failed, reads tick = none
  /-- The height and the mempool that the later tick reads. -/
  last : UInt64 × List Txid
  last_read : reads later = some last
  txid : String
  was : txid ∈ first.2.map api.display
  left : txid ∉ last.2.map api.display

namespace Departure

variable {ticks : List (Tick Txid)} (d : Departure api ticks)

/-- The height known at the earlier tick. -/
def known : UInt64 := (syncAfter api .initial (d.before ++ [d.earlier])).lastHeight

/-- What the later tick tells of the transaction. -/
def told : List MempoolEvent :=
  about d.txid (pollOnce api d.later
    (syncAfter api .initial (d.before ++ d.earlier :: d.failed))).sent

/-- It is told confirmed exactly where the later tick reads a height above the known one. -/
def Right : Prop := (∃ blockHeight, .confirmed d.txid blockHeight ∈ d.told) ↔ d.known < d.last.1

/-- The later tick reads a height above all that were met up to the earlier one, but a tick that
    failed in between has met it already. -/
def Overtaken : Prop :=
  (∀ tick ∈ d.before ++ [d.earlier], ∀ height ∈ tick.getBlockCount, height < d.last.1) ∧
    ∃ tick ∈ d.failed, ∃ height ∈ tick.getBlockCount, d.last.1 ≤ height

/-- The ticks up to the later one, which the run begins with. -/
theorem syncAfter_earlier_failed :
    syncAfter api .initial (d.before ++ d.earlier :: d.failed) =
      syncAfter api (syncAfter api .initial (d.before ++ [d.earlier])) d.failed := by
  rw [← syncAfter_append, List.append_assoc]
  rfl

theorem mem_seen :
    d.txid ∈ (syncAfter api .initial (d.before ++ d.earlier :: d.failed)).seen.texts := by
  rw [d.syncAfter_earlier_failed, syncAfter_failed d.failed_none, syncAfter_append]
  exact ((pollOnce_reads api _ d.first_read).1 d.txid).mpr d.was

/-- One event, and which one goes by the height that the ticks before have left. -/
theorem told_eq : d.told =
    [if (syncAfter api .initial (d.before ++ d.earlier :: d.failed)).lastHeight < d.last.1 then
      .confirmed d.txid d.last.1 else .evicted d.txid] := by
  unfold told
  rw [(pollOnce_reads api _ d.last_read).2, if_neg fun h => d.left h.1, if_pos ⟨d.mem_seen, d.left⟩]
  rfl

theorem confirmed_iff : (∃ blockHeight, .confirmed d.txid blockHeight ∈ d.told) ↔
    d.known < d.last.1 ∧ ∀ tick ∈ d.failed, ∀ height ∈ tick.getBlockCount, height < d.last.1 := by
  rw [known, ← syncAfter_lastHeight, ← d.syncAfter_earlier_failed, d.told_eq]
  split
  · rename_i hnew
    exact ⟨fun _ => hnew, fun _ => ⟨_, List.mem_singleton_self _⟩⟩
  · rename_i hold
    refine ⟨?_, fun h => absurd h hold⟩
    rintro ⟨blockHeight, hmem⟩
    cases List.mem_singleton.mp hmem

theorem known_lt : d.known < d.last.1 ↔
    ∀ tick ∈ d.before ++ [d.earlier], ∀ height ∈ tick.getBlockCount, height < d.last.1 := by
  rw [known, syncAfter_lastHeight]
  refine ⟨And.right, fun h => ⟨?_, h⟩⟩
  -- The earlier tick reads a height, so a later one above it is not zero.
  have hread := (reads_eq_some.mp d.first_read).1
  have hlt := h d.earlier (List.mem_append_right _ List.mem_cons_self) _ hread
  exact UInt64.lt_of_le_of_lt (UInt64.le_iff_toNat_le.mpr (Nat.zero_le _)) hlt

theorem right_iff : d.Right ↔ ¬ d.Overtaken := by
  unfold Right Overtaken
  rw [d.confirmed_iff, d.known_lt]
  constructor
  · rintro h ⟨habove, tick, htick, height, hheight, hle⟩
    exact UInt64.not_lt.mpr hle ((h.mpr habove).2 tick htick height hheight)
  · intro h
    refine ⟨And.left, fun habove => ⟨habove, fun tick htick height hheight => ?_⟩⟩
    by_contra hnot
    exact h ⟨habove, tick, htick, height, hheight, UInt64.not_lt.mp hnot⟩

end Departure

/-- **What a run tells of the mempool.** Every transaction is told of in turn as seen and as gone,
    beginning with seen, and every departure is told right, exactly where no departure is
    overtaken: that is, no height above all those known is met first by a tick that then fails. -/
theorem told_iff (api : TxidApi Txid) (ticks : List (Tick Txid)) :
    ((∀ txid, Alternates true (about txid (sentFrom api .initial ticks))) ∧
      ∀ d : Departure api ticks, d.Right) ↔
    ∀ d : Departure api ticks, ¬ d.Overtaken := by
  constructor
  · rintro ⟨-, hright⟩ d
    exact d.right_iff.mp (hright d)
  · intro h
    exact ⟨alternates_from .initial ticks, fun d => d.right_iff.mpr (h d)⟩

/-! ## A block that only a failed tick has met -/

/-- A set in the order of what it is collected from. -/
def inOrder : Collector where
  collect texts := ⟨texts.dedup, texts.nodup_dedup⟩
  mem_collect _ _ := List.mem_dedup

/-- One transaction at height 100; then a block, and the mempool cannot be read; then it is gone. -/
def blockMissed : List (Tick (Blob 32)) :=
  [⟨some 100, some [.zero 32], inOrder⟩, ⟨some 101, none, inOrder⟩, ⟨some 101, some [], inOrder⟩]

def goneMissed : Departure internalIds blockMissed where
  before := []
  earlier := ⟨some 100, some [.zero 32], inOrder⟩
  failed := [⟨some 101, none, inOrder⟩]
  later := ⟨some 101, some [], inOrder⟩
  after := []
  split := rfl
  first := (100, [.zero 32])
  first_read := rfl
  failed_none := by simp [reads]
  last := (101, [])
  last_read := rfl
  txid := internalIds.display (.zero 32)
  was := List.mem_cons_self
  left := List.not_mem_nil

/-- It is told evicted, at a height above the one known when it was last seen. -/
theorem missed_told_evicted :
    ¬ ((∀ txid, Alternates true (about txid (sentFrom internalIds .initial blockMissed))) ∧
      ∀ d : Departure internalIds blockMissed, d.Right) := by
  rintro ⟨-, h⟩
  have hknown : goneMissed.known < goneMissed.last.1 := by decide
  obtain ⟨blockHeight, hmem⟩ := (h goneMissed).mpr hknown
  rw [goneMissed.told_eq] at hmem
  cases List.mem_singleton.mp hmem

end Proof
end Himsha
