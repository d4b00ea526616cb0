/-
# When a sync leaves no receipt behind

`watcher_sync_to_disk` takes `sync_cursor == head` to mean that nothing is pending, and
`watcher_log_event` moves the cursor of a full ring with the tail.  So two kinds of events make
a sync pass over receipts that are still in the ring: a receipt logged into a full ring that
has nothing pending, and the 64th event pending, when it or one of the 63 before it is a
receipt.  `Safe` says that a call is neither.  A run of safe calls leaves nothing behind
(`Kept`), a call that is not safe does so at once, and a sync is complete at every point of a
run exactly when all its calls are safe.
-/

import AiOsExchange.Watcher.Numbered

namespace AiOsExchange
namespace Watcher

open CMemory Runs

/-- Every receipt among the last 64 events is stored: its text and a newline. -/
def Complete (a : Numbered) : Prop :=
  ∀ i e, a.logged[i]? = some e → a.logged.length ≤ i + watcherHistoryMax →
    e.type = .ledgerCommit → (i, e.text ++ ascii "\n") ∈ a.ledger

/-- The call passes over no receipt.  Either it logs nothing, or

* with the ring full and nothing pending, what it logs is not a receipt, and
* with 63 slots pending, neither it nor any of these is a receipt. -/
def Safe (w : WatcherState) (op : WatcherOp) : Prop :=
  ∀ type, op.type? = some type →
    (w.count = watcherHistoryMax → w.syncCursor = w.head → type ≠ .ledgerCommit) ∧
    ((w.head + 1) % watcherHistoryMax = w.syncCursor → type ≠ .ledgerCommit ∧
      ∀ i ∈ Rings.walk watcherHistoryMax watcherHistoryMax w.syncCursor w.head,
        (w.events i).type ≠ .ledgerCommit)

/-- The receipts before the cursor are stored, and nothing after it is. -/
structure Kept (a : Numbered) (c : ℕ) : Prop where
  ring : RingInv a c
  stored : ∀ i e, a.logged[i]? = some e → i < c → e.type = .ledgerCommit →
    (i, e.text ++ ascii "\n") ∈ a.ledger
  below : ∀ p ∈ a.ledger, p.1 < c

theorem kept_start (w : WatcherState) : Kept (Numbered.start w) 0 where
  ring := ringInv_start w
  stored := by simp [Numbered.start]
  below := by simp [Numbered.start]

/-- **A sync stores all receipts.**  It adds those from the cursor on, and those before it were
stored already. -/
theorem Kept.sync {a : Numbered} {c : ℕ} (h : Kept a c) : Kept a.sync a.logged.length where
  ring := h.ring.sync
  stored i e he hi htype := by
    have he' : a.logged[i]? = some e := he
    rcases Nat.lt_or_ge i c with hic | hic
    · exact List.mem_append_left _ (h.stored i e he' hic htype)
    · exact List.mem_append_right _ ((h.ring.mem_lines i _).2 ⟨hic, e, he', htype, rfl⟩)
  below p hp := by
    have hle := h.ring.le
    rcases List.mem_append.1 hp with hp | hp
    · have := h.below p hp
      omega
    · obtain ⟨-, e, he, -⟩ := (h.ring.mem_lines p.1 p.2).1 hp
      exact (List.getElem?_eq_some_iff.1 he).1

theorem Kept.complete {a : Numbered} {c : ℕ} (h : Kept a c) : Complete a.sync := by
  intro i e he _ htype
  exact h.sync.stored i e he (List.getElem?_eq_some_iff.1 he).1 htype

/-- With the counters read as numbers, the first clause of `Safe` is about `c = n` and the
second about `n + 1 = c + 64`. -/
theorem RingInv.caughtUp_iff {a : Numbered} {c : ℕ} (h : RingInv a c) :
    (a.watcher.count = watcherHistoryMax ∧ a.watcher.syncCursor = a.watcher.head) ↔
      64 ≤ a.logged.length ∧ c = a.logged.length := by
  have := h.head
  have := h.count
  have := h.cursor
  have := h.le
  have := h.pending
  simp only [watcherHistoryMax]
  omega

theorem RingInv.wraps_iff {a : Numbered} {c : ℕ} (h : RingInv a c) :
    (a.watcher.head + 1) % watcherHistoryMax = a.watcher.syncCursor ↔
      a.logged.length + 1 = c + 64 := by
  have := h.head
  have := h.cursor
  have := h.le
  have := h.pending
  simp only [watcherHistoryMax]
  omega

/-- The events in the slots walked from the cursor are those from number `c` on. -/
theorem RingInv.forall_walk_iff {a : Numbered} {c : ℕ} (h : RingInv a c) (p : WatcherEvent → Prop) :
    (∀ i ∈ Rings.walk watcherHistoryMax watcherHistoryMax a.watcher.syncCursor a.watcher.head,
        p (a.watcher.events i)) ↔ ∀ i e, a.logged[i]? = some e → c ≤ i → p e := by
  have hle := h.le
  simp only [h.walk, List.mem_map, List.mem_range'_1]
  constructor
  · intro hp i e he hci
    have hi : i < a.logged.length := (List.getElem?_eq_some_iff.1 he).1
    obtain rfl : e = a.watcher.events (i % 64) := Option.some.inj (he.symm.trans (h.slot hci hi).1)
    exact hp _ ⟨i, ⟨hci, by omega⟩, rfl⟩
  · rintro hp _ ⟨i, ⟨hci, hi⟩, rfl⟩
    exact hp i _ (h.slot hci (by omega)).1 hci

/-- A safe event leaves nothing behind: what the cursor skips is no receipt. -/
theorem Kept.log {a : Numbered} {c : ℕ} (h : Kept a c) (type : WatcherEventType) (pid : UInt32)
    (contextData : Option Buf) (timer : Tick)
    (hsafe : Safe a.watcher (.log type pid contextData timer)) :
    Kept (a.log (watcherLogEvent type pid contextData timer.val a.watcher))
      (nextCursor a.logged.length c) := by
  obtain ⟨hfull, hwrap⟩ := hsafe type rfl
  have hring := h.ring.log type pid contextData timer
  refine ⟨hring, fun i e he hi htype => ?_, fun p hp => ?_⟩
  · rcases Nat.lt_or_ge i c with hic | hic
    · have hlt : i < a.logged.length := lt_of_lt_of_le hic h.ring.le
      refine h.stored i e ?_ hic htype
      rw [← he]
      exact (List.getElem?_append_left hlt).symm
    · -- the cursor moved, so one of the two clauses of `Safe` speaks of the event
      exfalso
      unfold nextCursor at hi
      split_ifs at hi with hmove
      · have hlog : type ≠ .ledgerCommit ∧
            ∀ j e, a.logged[j]? = some e → c ≤ j → e.type ≠ .ledgerCommit := by
          rcases hmove with hmove | hmove
          · obtain ⟨hcount, hcur⟩ := h.ring.caughtUp_iff.2 hmove
            refine ⟨hfull hcount hcur, fun j e he hcj => ?_⟩
            have := (List.getElem?_eq_some_iff.1 he).1
            omega
          · obtain ⟨h1, h2⟩ := hwrap (h.ring.wraps_iff.2 hmove)
            exact ⟨h1, (h.ring.forall_walk_iff (·.type ≠ .ledgerCommit)).1 h2⟩
        rcases Nat.lt_or_ge i a.logged.length with hlt | hge
        · exact hlog.2 i e ((List.getElem?_append_left hlt).symm.trans he) hic htype
        · obtain rfl : i = a.logged.length := by omega
          have he' : some _ = some e := (List.getElem?_concat_length).symm.trans he
          rw [← Option.some.inj he'] at htype
          refine hlog.1 (htype ▸ ?_)
          simp [eventRecord]
      · omega
  · have := h.below p hp
    have := h.ring.le
    unfold nextCursor
    split_ifs <;> omega

/-- An event that is not safe leaves a receipt behind that no line was stored for. -/
theorem Kept.not_complete {a : Numbered} {c : ℕ} (h : Kept a c) (type : WatcherEventType)
    (pid : UInt32) (contextData : Option Buf) (timer : Tick)
    (hsafe : ¬ Safe a.watcher (.log type pid contextData timer)) :
    ¬ Complete (a.log (watcherLogEvent type pid contextData timer.val a.watcher)).sync := by
  have hring := h.ring.log type pid contextData timer
  set b := a.log (watcherLogEvent type pid contextData timer.val a.watcher)
  have hle := h.ring.le
  have hlen : b.logged.length = a.logged.length + 1 := by
    simp [b, Numbered.log]
  -- the event left behind, at or after the old cursor
  obtain ⟨hmove, i, e, he, hci, htype⟩ :
      nextCursor a.logged.length c = a.logged.length + 1 ∧
        ∃ i e, b.logged[i]? = some e ∧ c ≤ i ∧ e.type = .ledgerCommit := by
    have hnew : type = .ledgerCommit →
        ∃ i e, b.logged[i]? = some e ∧ c ≤ i ∧ e.type = .ledgerCommit := by
      intro ht
      refine ⟨a.logged.length, _, List.getElem?_concat_length, hle, ?_⟩
      rw [← ht]
      simp [eventRecord]
    simp only [Safe, WatcherOp.type?, Option.some.injEq, forall_eq'] at hsafe
    rw [not_and_or] at hsafe
    rcases hsafe with hsafe | hsafe
    · simp only [Classical.not_imp, not_not] at hsafe
      obtain ⟨hcount, hcur, ht⟩ := hsafe
      have := h.ring.caughtUp_iff.1 ⟨hcount, hcur⟩
      exact ⟨by unfold nextCursor; rw [if_pos (Or.inl this)], hnew ht⟩
    · rw [Classical.not_imp, h.ring.wraps_iff,
        h.ring.forall_walk_iff (·.type ≠ .ledgerCommit)] at hsafe
      refine ⟨by unfold nextCursor; rw [if_pos (Or.inr hsafe.1)], ?_⟩
      by_cases ht : type = .ledgerCommit
      · exact hnew ht
      · have := hsafe.2
        simp only [not_and, not_forall, not_not] at this
        obtain ⟨i, e, he, hci, htype⟩ := this ht
        refine ⟨i, e, ?_, hci, htype⟩
        rw [← he]
        exact List.getElem?_append_left (List.getElem?_eq_some_iff.1 he).1
  have hi : i < b.logged.length := (List.getElem?_eq_some_iff.1 he).1
  have hpending := h.ring.pending
  intro hcomplete
  have hmem : (i, e.text ++ ascii "\n") ∈ b.ledger ++ b.lines :=
    hcomplete i e he (by simp only [watcherHistoryMax, Numbered.sync]; omega) htype
  rcases List.mem_append.1 hmem with hmem | hmem
  · have := h.below _ hmem
    omega
  · obtain ⟨hn, -⟩ := (hring.mem_lines i _).1 hmem
    omega

/-- The invariant of runs of safe calls. -/
def Inv (a : Numbered) : Prop := ∃ c, Kept a c

theorem inv_step (a : Numbered) (op : WatcherOp) (h : Inv a) (hsafe : Safe a.watcher op) :
    Inv (a.step op) := by
  obtain ⟨c, h⟩ := h
  cases op with
  | log type pid contextData timer => exact ⟨_, h.log type pid contextData timer hsafe⟩
  | commit txHash volume timer => exact ⟨_, h.log .ledgerCommit 0 _ timer hsafe⟩
  | sync => exact ⟨_, h.sync⟩

theorem not_complete_step (a : Numbered) (op : WatcherOp) (h : Inv a)
    (hsafe : ¬ Safe a.watcher op) : ¬ Complete (a.step op).sync := by
  obtain ⟨c, h⟩ := h
  cases op with
  | log type pid contextData timer => exact h.not_complete type pid contextData timer hsafe
  | commit txHash volume timer => exact h.not_complete .ledgerCommit 0 _ timer hsafe
  | sync => exact absurd (fun _ h => by simp [WatcherOp.type?] at h) hsafe

/-- **When ledger sync loses nothing.**  From `watcher_init` on, a sync at any point of the run
leaves every receipt among the last 64 events stored, if and only if every call of the run is
safe. -/
theorem sync_complete_iff (w : WatcherState) (ops : List WatcherOp) :
    (∀ pre, pre <+: ops → Complete (run Numbered.step (Numbered.start w) pre).sync) ↔
      StepsMeet Numbered.step (fun a op => Safe a.watcher op) (Numbered.start w) ops :=
  @forall_prefix_iff_stepsMeet _ _ _ _ Inv (fun a => Complete a.sync) inv_step
    (fun _ h => h.elim fun _ h => h.complete) not_complete_step _ ⟨0, kept_start w⟩ ops

/-- Up to 63 receipts in a row are all pending. -/
theorem kept_receipts (w : WatcherState) (txHash : UInt64) (volume : Int32) (timer : Tick) {k : ℕ}
    (hk : k ≤ 63) :
    Kept (run Numbered.step (Numbered.start w)
        (List.replicate k (.commit txHash volume timer))) 0 ∧
      (run Numbered.step (Numbered.start w)
        (List.replicate k (.commit txHash volume timer))).logged.length = k := by
  induction k with
  | zero => exact ⟨kept_start w, rfl⟩
  | succ k ih =>
      obtain ⟨h, hlen⟩ := ih (by omega)
      rw [List.replicate_succ', run_append, run_cons, run_nil]
      set a := run Numbered.step (Numbered.start w) (List.replicate k (.commit txHash volume timer))
      have hsafe : Safe a.watcher (.commit txHash volume timer) := by
        intro type _
        refine ⟨fun hcount hcur => ?_, fun hwrap => ?_⟩
        · have := (h.ring.caughtUp_iff.1 ⟨hcount, hcur⟩).1
          omega
        · have := h.ring.wraps_iff.1 hwrap
          omega
      have hnext : nextCursor a.logged.length 0 = 0 := by
        unfold nextCursor
        rw [if_neg (by omega)]
      constructor
      · rw [← hnext]
        exact h.log .ledgerCommit 0 _ timer hsafe
      · simp [Numbered.step, Numbered.log, hlen]

/-- **64 receipts and none stored.**  After 64 receipts the cursor meets the head, and the sync
takes the ledger to be up to date. -/
theorem sync_misses_full_ring :
    ¬ ∀ (w : WatcherState) (ops : List WatcherOp),
      Complete (run Numbered.step (Numbered.start w) ops).sync := by
  intro h
  let w : WatcherState := ⟨fun _ => ⟨0, .none, 0, fun _ => 0⟩, 0, 0, 0, 0⟩
  let timer : Tick := ⟨1, by decide⟩
  obtain ⟨hkept, hlen⟩ := kept_receipts w 1 5 timer (le_refl 63)
  have hall := h w (List.replicate 64 (.commit 1 5 timer))
  rw [List.replicate_succ', run_append, run_cons, run_nil] at hall
  generalize run Numbered.step (Numbered.start w) (List.replicate 63 (.commit 1 5 timer)) = a
    at hkept hlen hall
  refine hkept.not_complete .ledgerCommit 0 _ timer (fun hsafe => ?_) hall
  exact ((hsafe .ledgerCommit rfl).2 (hkept.ring.wraps_iff.2 (by omega))).1 rfl

end Watcher
end AiOsExchange
