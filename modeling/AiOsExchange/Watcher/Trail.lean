/-
# The trail behind the ring

What the watcher of `kernel/watcher.c` is for is a list of all events there ever were, of which the
ring has the last, and the number of the first event that no sync has looked at.

| call | on the trail |
| --- | --- |
| `watcher_log_event` | the event comes to the end, and the number moves as `nextCursor` says |
| `watcher_sync_to_disk` | the receipts from the number on are appended, and it moves to the end |
| `watcher_dump_history` | the last 64 events |

`Recorded` relates a watcher to its trail, and each of the calls keeps it.
-/

import AiOsExchange.Watcher.History

namespace AiOsExchange
namespace Watcher

open CMemory Runs

/-- The ring of `w` has the end of the trail, and its cursor stands for the number `cursor`. -/
def Recorded (w : WatcherState) (trail : List Entry) (cursor : ℕ) : Prop :=
  ∃ a : Numbered, a.watcher = w ∧ RingInv a cursor ∧ a.logged.map WatcherEvent.entry = trail

/-- The texts of the receipts that no sync has looked at. -/
def receiptsFrom (trail : List Entry) (cursor : ℕ) : List (List UInt8) :=
  ((trail.drop cursor).filter fun e => decide (e.type = .ledgerCommit)).map Entry.context

section
variable {w : WatcherState} {trail : List Entry} {cursor : ℕ}

/-- The trail of a watcher that has just been initialised is empty. -/
theorem recorded_init (w : WatcherState) : Recorded (watcherInit w) [] 0 :=
  ⟨Numbered.start w, rfl, ringInv_start w, rfl⟩

/-- **An event comes to the end of the trail.** -/
theorem Recorded.log (h : Recorded w trail cursor) (type : WatcherEventType) (pid : UInt32)
    (contextData : Option Buf) {timer : UInt64} (ht : timer ≠ 0) :
    Recorded (watcherLogEvent type pid contextData timer w)
      (trail ++ [⟨type, pid, keptText contextData⟩]) (nextCursor trail.length cursor) := by
  obtain ⟨a, rfl, hring, rfl⟩ := h
  refine ⟨a.log (watcherLogEvent type pid contextData timer a.watcher), rfl, ?_, ?_⟩
  · rw [List.length_map]
    exact hring.log type pid contextData ⟨timer, ht⟩
  · rw [Numbered.log, List.map_append, List.map_singleton, watcherLogEvent_events,
      Function.update_self, WatcherEvent.entry, text_eventRecord]
    rfl

/-- The events in the slots that a sync walks over are those from the cursor on. -/
theorem RingInv.walked {a : Numbered} (h : RingInv a cursor) :
    (Rings.walk watcherHistoryMax watcherHistoryMax a.watcher.syncCursor a.watcher.head).map
      a.watcher.events = a.logged.drop cursor := by
  have hle := h.le
  rw [h.walk, List.map_map]
  apply List.ext_getElem?
  intro j
  rw [List.getElem?_map, List.getElem?_drop]
  rcases Nat.lt_or_ge j (a.logged.length - cursor) with hj | hj
  · rw [List.getElem?_range' hj, Option.map_some, (@RingInv.slot _ _ (cursor + j) h (by omega) (by omega)).1,
      Function.comp_apply, Nat.one_mul]
  · rw [List.getElem?_eq_none (by simpa using hj), List.getElem?_eq_none (by omega)]
    rfl

/-- The receipts among them. -/
theorem RingInv.synced {a : Numbered} (h : RingInv a cursor) :
    (syncedSlots a.watcher).map (fun i => (a.watcher.events i).text) =
      receiptsFrom (a.logged.map WatcherEvent.entry) cursor := by
  have htimed : (a.logged.drop cursor).filter
      (fun e => decide (e.timestamp ≠ 0) && decide (e.type = .ledgerCommit)) =
      (a.logged.drop cursor).filter fun e => decide (e.type = .ledgerCommit) := by
    refine List.filter_congr fun e he => ?_
    rw [decide_eq_true (h.timed e (List.mem_of_mem_drop he)), Bool.true_and]
  have hslots : (syncedSlots a.watcher).map a.watcher.events =
      (a.logged.drop cursor).filter fun e => decide (e.type = .ledgerCommit) := by
    rw [← htimed, ← h.walked, List.filter_map]
    rfl
  rw [receiptsFrom, ← List.map_drop, List.filter_map, List.map_map]
  refine Eq.trans ?_ (congrArg (List.map WatcherEvent.text) hslots)
  rw [List.map_map]
  rfl

/-- **A sync appends the receipts from the cursor on**, each with a newline, -/
theorem Recorded.sync_calls (h : Recorded w trail cursor) :
    (watcherSyncToDisk w).2 = (receiptsFrom trail cursor).flatMap receiptCalls := by
  obtain ⟨a, rfl, hring, rfl⟩ := h
  rw [← hring.synced, List.flatMap_map, watcherSyncToDisk]
  split_ifs with heq
  · simp [syncedSlots, heq]
  · rfl

/-- **and has then looked at all.** -/
theorem Recorded.sync (h : Recorded w trail cursor) :
    Recorded (watcherSyncToDisk w).1 trail trail.length := by
  obtain ⟨a, rfl, hring, rfl⟩ := h
  refine ⟨a.sync, rfl, ?_, rfl⟩
  rw [List.length_map]
  exact hring.sync

/-- **A dump has the last 64 events.** -/
theorem Recorded.dump (h : Recorded w trail cursor) :
    (watcherDumpHistory w).map WatcherEvent.entry = trail.drop (trail.length - 64) := by
  obtain ⟨a, rfl, hring, rfl⟩ := h
  have hcount : a.watcher.count = a.logged.length - (a.logged.length - 64) := by
    rw [hring.count]
    omega
  rw [watcherDumpHistory, hcount, hring.tail, List.length_map, ← List.map_drop]
  exact congrArg (List.map WatcherEvent.entry) (hring.events.forward_eq (by omega))

/-- An event keeps at most 64 bytes. -/
theorem Recorded.context_length (h : Recorded w trail cursor) :
    ∀ e ∈ trail, e.context.length ≤ 64 := by
  obtain ⟨a, rfl, -, rfl⟩ := h
  intro e he
  obtain ⟨event, -, rfl⟩ := List.mem_map.1 he
  exact text_length_le event.context 64

/-- What is kept of a context has no NUL. -/
theorem Recorded.nul_not_mem (h : Recorded w trail cursor) : ∀ e ∈ trail, (0 : UInt8) ∉ e.context := by
  obtain ⟨a, rfl, -, rfl⟩ := h
  intro e he
  obtain ⟨event, -, rfl⟩ := List.mem_map.1 he
  exact nul_not_mem_text event.context 64

end

end Watcher
end AiOsExchange
