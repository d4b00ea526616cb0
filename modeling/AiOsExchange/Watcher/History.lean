/-
# The history is the last 64 events

What the watcher remembers is meant to be the end of the list of everything logged.  The ring
gives it back from the tail on (`watcherDumpHistory`), and the copy of a context ends with its
own NUL, so nothing of an event that had the slot before shows through (`text_eventRecord`).

The relation is `Remembers`: the slots, seen as entries, hold the last 64 of the list, and the
counters are numbers of its elements modulo 64.  Every call keeps it (`Remembers.log`).
-/

import AiOsExchange.Lib.Run
import AiOsExchange.Watcher.Order

namespace AiOsExchange
namespace Watcher

open CMemory Runs

/-- A call of `watcher_log_event`, with the timer's reading. -/
structure LogCall where
  type : WatcherEventType
  pid : UInt32
  contextData : Option Buf
  timer : UInt64

/-- The call, made. -/
def LogCall.exec (w : WatcherState) (call : LogCall) : WatcherState :=
  watcherLogEvent call.type call.pid call.contextData call.timer w

/-- What an event is remembered by. -/
structure Entry where
  type : WatcherEventType
  processId : UInt32
  context : List UInt8

/-- The entry in a slot. -/
def WatcherEvent.entry (e : WatcherEvent) : Entry := ⟨e.type, e.processId, e.text⟩

/-- The entry a call is owed: the first 63 characters of its context. -/
def LogCall.entry (call : LogCall) : Entry := ⟨call.type, call.pid, keptText call.contextData⟩

/-- **The ring remembers the end of a list.** -/
structure Remembers (w : WatcherState) (entries : List Entry) : Prop where
  events : Rings.Holds 64 (WatcherEvent.entry ∘ w.events) entries
  head : w.head = entries.length % 64
  tail : w.tail = (entries.length - 64) % 64
  count : w.count = min entries.length 64

theorem remembers_init (w : WatcherState) : Remembers (watcherInit w) [] where
  events := Rings.Holds.nil _
  head := rfl
  tail := rfl
  count := rfl

/-- A call adds its entry. -/
theorem Remembers.log {w : WatcherState} {entries : List Entry} (h : Remembers w entries)
    (call : LogCall) : Remembers (call.exec w) (entries ++ [call.entry]) := by
  have htail := h.tail
  have hcount := h.count
  have hentry : (eventRecord call.type call.pid call.contextData call.timer
      (w.events w.head)).entry = call.entry := by
    rw [WatcherEvent.entry, text_eventRecord]
    rfl
  have hlen : (entries ++ [call.entry]).length = entries.length + 1 := by simp
  constructor
  · rw [LogCall.exec, watcherLogEvent_events, Function.comp_update, hentry, h.head]
    exact h.events.push call.entry
  · rw [LogCall.exec, watcherLogEvent_head, h.head, hlen, Nat.mod_add_mod]
  · rw [LogCall.exec, watcherLogEvent_tail, hlen]
    split_ifs <;> omega
  · rw [LogCall.exec, watcherLogEvent_count, hlen]
    split_ifs <;> omega

theorem remembers_run (w : WatcherState) (calls : List LogCall) :
    Remembers (run LogCall.exec (watcherInit w) calls) (calls.map LogCall.entry) := by
  induction calls using List.reverseRecOn with
  | nil => exact remembers_init w
  | append_singleton calls call ih =>
      rw [run_append, List.map_append]
      exact ih.log call

/-- The dump is the end of the list. -/
theorem Remembers.dump {w : WatcherState} {entries : List Entry} (h : Remembers w entries) :
    (watcherDumpHistory w).map WatcherEvent.entry = entries.drop (entries.length - 64) := by
  have hcount : w.count = entries.length - (entries.length - 64) := by
    rw [h.count]
    omega
  rw [watcherDumpHistory, List.map_map, hcount, h.tail]
  exact h.events.forward_eq (by omega)

/-- **The event history is the last 64 events**, oldest first, and the counters stay in their
bounds. -/
theorem history_last (w : WatcherState) (calls : List LogCall) :
    (watcherDumpHistory (run LogCall.exec (watcherInit w) calls)).map WatcherEvent.entry =
        (calls.map LogCall.entry).drop (calls.length - 64) ∧
      (run LogCall.exec (watcherInit w) calls).head < 64 ∧
      (run LogCall.exec (watcherInit w) calls).tail < 64 ∧
      (run LogCall.exec (watcherInit w) calls).count = min calls.length 64 ∧
      (run LogCall.exec (watcherInit w) calls).head =
        ((run LogCall.exec (watcherInit w) calls).tail +
          (run LogCall.exec (watcherInit w) calls).count) % 64 := by
  have h := remembers_run w calls
  have hdump := h.dump
  have hhead := h.head
  have htail := h.tail
  have hcount := h.count
  rw [List.length_map] at hdump hhead htail hcount
  exact ⟨hdump, by omega, by omega, hcount, by omega⟩

end Watcher
end AiOsExchange
