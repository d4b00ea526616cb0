/-
# The watcher's ring of events

`kernel/watcher.c` and `include/os_watcher.h`.  The kernel remembers the last 64 events in a
ring: `head` is the slot of the next event, `tail` that of the oldest, `count` how many there
are.  `sync_cursor` is the high-water mark of `watcher_sync_to_disk`, the slot of the first
event not yet looked at.

| source | here |
| --- | --- |
| `watcher_state_t` and `sync_cursor` | `WatcherState` |
| `watcher_init` | `watcherInit` |
| `watcher_log_event` | `watcherLogEvent` |
| `watcher_dump_history` | `watcherDumpHistory` |
| `u64_to_hex_str`, `i32_to_dec_str` | `u64ToHexStr`, `i32ToDecStr` |
| `watcher_commit_ledger` | `receiptContext`, `watcherCommitLedger` |
| `watcher_sync_to_disk` | `syncedSlots`, `watcherSyncToDisk` |

The system timer is read once for each event and is an argument here.  The calls of
`fs_append_file_content` that a sync makes are its second result; what it prints on the UART
is left out.
-/

import AiOsExchange.Lib.Buffer
import AiOsExchange.Lib.Ring

namespace AiOsExchange
namespace Watcher

open CMemory

/-- `WATCHER_HISTORY_MAX`. -/
def watcherHistoryMax : ℕ := 64

/-- `watcher_event_type_t`. -/
inductive WatcherEventType
  | none | keystroke | fsRead | fsWrite | procSpawn | ledgerCommit
  deriving DecidableEq

/-- `watcher_event_t`, one slot of the ring. -/
structure WatcherEvent where
  timestamp : UInt64
  type : WatcherEventType
  processId : UInt32
  context : Buf

/-- `watcher_state_t` together with the static `sync_cursor`. -/
structure WatcherState where
  events : ℕ → WatcherEvent
  head : ℕ
  tail : ℕ
  count : ℕ
  syncCursor : ℕ

/-- The text a slot's context holds, `char context[64]`. -/
def WatcherEvent.text (e : WatcherEvent) : List UInt8 := CMemory.text e.context 64

/-- `watcher_init`: of each context only the first byte is written. -/
def watcherInit (w : WatcherState) : WatcherState where
  events i :=
    { timestamp := 0, type := .none, processId := 0, context := put (w.events i).context 0 [0] }
  head := 0
  tail := 0
  count := 0
  syncCursor := 0

/-- The record `watcher_log_event` leaves in a slot that held `old`: the context is copied up
to 63 bytes and terminated, a null pointer giving the empty string. -/
def eventRecord (type : WatcherEventType) (pid : UInt32) (contextData : Option Buf)
    (timer : UInt64) (old : WatcherEvent) : WatcherEvent where
  timestamp := timer
  type := type
  processId := pid
  context := match contextData with
    | some src => copyString src 63 old.context
    | .none => put old.context 0 [0]

/-- `watcher_log_event`.  When the ring is full the tail moves with the head, and takes the
sync cursor along if it stands there. -/
def watcherLogEvent (type : WatcherEventType) (pid : UInt32) (contextData : Option Buf)
    (timer : UInt64) (w : WatcherState) : WatcherState :=
  let w' := { w with
    events := Function.update w.events w.head
      (eventRecord type pid contextData timer (w.events w.head))
    head := (w.head + 1) % watcherHistoryMax }
  if w.count < watcherHistoryMax then { w' with count := w.count + 1 }
  else
    let tail := (w.tail + 1) % watcherHistoryMax
    { w' with
      tail := tail
      syncCursor := if w.syncCursor = w.tail then tail else w.syncCursor }

section
variable (type : WatcherEventType) (pid : UInt32) (contextData : Option Buf) (timer : UInt64)
  (w : WatcherState)

@[simp] theorem watcherLogEvent_events :
    (watcherLogEvent type pid contextData timer w).events =
      Function.update w.events w.head
        (eventRecord type pid contextData timer (w.events w.head)) := by
  unfold watcherLogEvent
  split_ifs <;> rfl

@[simp] theorem watcherLogEvent_head :
    (watcherLogEvent type pid contextData timer w).head = (w.head + 1) % 64 := by
  unfold watcherLogEvent
  split_ifs <;> rfl

@[simp] theorem watcherLogEvent_tail :
    (watcherLogEvent type pid contextData timer w).tail =
      if w.count < 64 then w.tail else (w.tail + 1) % 64 := by
  rw [watcherLogEvent, apply_ite WatcherState.tail]
  rfl

@[simp] theorem watcherLogEvent_count :
    (watcherLogEvent type pid contextData timer w).count =
      if w.count < 64 then w.count + 1 else w.count := by
  rw [watcherLogEvent, apply_ite WatcherState.count]
  rfl

end

/-- The events `watcher_dump_history` prints: `count` of them, from the tail on. -/
def watcherDumpHistory (w : WatcherState) : List WatcherEvent :=
  (Rings.forward watcherHistoryMax w.count w.tail).map w.events

/-! ### The text of a receipt -/

/-- `hex_chars`. -/
def hexChars : List UInt8 := ascii "0123456789ABCDEF"

/-- `u64_to_hex_str`: digit `i` of the sixteen is nibble `15 - i`. -/
def u64ToHexStr (val : UInt64) : List UInt8 :=
  (List.range 16).map fun i => hexChars.getD (val.toNat / 16 ^ (15 - i) % 16) 0

/-- The loop `while (val > 0) { temp[ti++] = (val % 10) + '0'; val /= 10; }`, least
significant digit first; `temp` has room for 16. -/
def tempDigits : ℕ → ℕ → List UInt8
  | 0, _ => []
  | fuel + 1, val => if val = 0 then [] else UInt8.ofNat (val % 10 + 48) :: tempDigits fuel (val / 10)

/-- `i32_to_dec_str`.  `-val` is the two's-complement negation, so `INT_MIN` stays negative and
the digit loop is not entered for it. -/
def i32ToDecStr (val : Int32) : List UInt8 :=
  if val.toInt = 0 then ascii "0"
  else
    let isNeg := decide (val.toInt < 0)
    let abs := if isNeg then -val else val
    let temp := tempDigits 16 abs.toInt.toNat
    (temp ++ if isNeg then ascii "-" else []).reverse

/-- The text `watcher_commit_ledger` builds in `context_buf`. -/
def receiptContext (txHash : UInt64) (volume : Int32) : List UInt8 :=
  ascii "TX: 0x" ++ u64ToHexStr txHash ++ ascii " | VOL: " ++ i32ToDecStr volume

/-- `watcher_commit_ledger`. -/
def watcherCommitLedger (txHash : UInt64) (volume : Int32) (timer : UInt64) (w : WatcherState) :
    WatcherState :=
  watcherLogEvent .ledgerCommit 0 (some (cString (receiptContext txHash volume))) timer w

/-! ### Sync -/

/-- A call of `fs_append_file_content`. -/
structure AppendCall where
  filename : List UInt8
  data : List UInt8
  deriving DecidableEq

/-- `"LEDGER.LOG"`. -/
def ledgerLog : List UInt8 := ascii "LEDGER.LOG"

/-- The slots the loop of `watcher_sync_to_disk` stores: those from the cursor up to the head
that are initialised and hold a `LEDGER_COMMIT`. -/
def syncedSlots (w : WatcherState) : List ℕ :=
  (Rings.walk watcherHistoryMax watcherHistoryMax w.syncCursor w.head).filter fun i =>
    decide ((w.events i).timestamp ≠ 0) && decide ((w.events i).type = .ledgerCommit)

/-- The two appends made for a slot. -/
def appendCalls (w : WatcherState) (i : ℕ) : List AppendCall :=
  [⟨ledgerLog, (w.events i).text⟩, ⟨ledgerLog, ascii "\n"⟩]

/-- `watcher_sync_to_disk`. -/
def watcherSyncToDisk (w : WatcherState) : WatcherState × List AppendCall :=
  if w.syncCursor = w.head then (w, [])
  else ({ w with syncCursor := w.head }, (syncedSlots w).flatMap (appendCalls w))

end Watcher
end AiOsExchange
