/-
# Numbering the events

`head`, `tail`, `count` and `sync_cursor` are numbers of events reduced modulo 64, and
`head == sync_cursor` can stand for none pending as well as for 64.  This file runs the watcher
next to the list of all events ever logged, with a note of which event each slot was last
written for and of which event each line of `LEDGER.LOG` came from (`Numbered`).  The notes
do not influence the watcher (`run_numbered_watcher`), and the lines are the bytes it appends
(`run_numbered_ledger`).

The cursor always stands for some number `c` of an event with at most 63 events after it
(`RingInv`).  A logged event leaves `c` where it is, with two exceptions (`nextCursor`): the
full ring takes a cursor along that has nothing pending, and 64 pending events are none.
-/

import AiOsExchange.Lib.Run
import AiOsExchange.Watcher.State

namespace AiOsExchange
namespace Watcher

open CMemory Runs

/-- A timer reading that is not zero. -/
structure Tick where
  val : UInt64
  nonzero : val ≠ 0

/-- The calls made on the watcher. -/
inductive WatcherOp
  | log (type : WatcherEventType) (pid : UInt32) (contextData : Option Buf) (timer : Tick)
  | commit (txHash : UInt64) (volume : Int32) (timer : Tick)
  | sync

/-- The type of the event a call logs. -/
def WatcherOp.type? : WatcherOp → Option WatcherEventType
  | .log type _ _ _ => some type
  | .commit _ _ _ => some .ledgerCommit
  | .sync => none

/-- The watcher and the appends it has made so far. -/
def exec (s : WatcherState × List AppendCall) : WatcherOp → WatcherState × List AppendCall
  | .log type pid contextData timer => (watcherLogEvent type pid contextData timer.val s.1, s.2)
  | .commit txHash volume timer => (watcherCommitLedger txHash volume timer.val s.1, s.2)
  | .sync => ((watcherSyncToDisk s.1).1, s.2 ++ (watcherSyncToDisk s.1).2)

/-- The watcher beside the history of its events: `logged` is every record written, `number i`
the number of the one last written to slot `i`, and `ledger` the lines stored, each with the
number of its event. -/
structure Numbered where
  watcher : WatcherState
  logged : List WatcherEvent
  number : ℕ → ℕ
  ledger : List (ℕ × List UInt8)

namespace Numbered

/-- Note the event that led to the watcher `w`. -/
def log (a : Numbered) (w : WatcherState) : Numbered where
  watcher := w
  logged := a.logged ++ [w.events a.watcher.head]
  number := Function.update a.number a.watcher.head a.logged.length
  ledger := a.ledger

/-- The lines a sync stores, with the numbers of their events. -/
def lines (a : Numbered) : List (ℕ × List UInt8) :=
  (syncedSlots a.watcher).map fun i => (a.number i, (a.watcher.events i).text ++ ascii "\n")

/-- Note the lines of a sync. -/
def sync (a : Numbered) : Numbered where
  watcher := (watcherSyncToDisk a.watcher).1
  logged := a.logged
  number := a.number
  ledger := a.ledger ++ a.lines

/-- One call, noted. -/
def step (a : Numbered) : WatcherOp → Numbered
  | .log type pid contextData timer =>
      a.log (watcherLogEvent type pid contextData timer.val a.watcher)
  | .commit txHash volume timer => a.log (watcherCommitLedger txHash volume timer.val a.watcher)
  | .sync => a.sync

/-- After `watcher_init`, whatever the memory held before. -/
def start (w : WatcherState) : Numbered where
  watcher := watcherInit w
  logged := []
  number := fun _ => 0
  ledger := []

end Numbered

/-! ### The notes change nothing -/

theorem step_watcher (a : Numbered) (calls : List AppendCall) (op : WatcherOp) :
    (a.step op).watcher = (exec (a.watcher, calls) op).1 := by
  cases op <;> rfl

/-- The numbered watcher is the watcher. -/
theorem run_numbered_watcher (ops : List WatcherOp) (a : Numbered) (calls : List AppendCall) :
    (run Numbered.step a ops).watcher = (run exec (a.watcher, calls) ops).1 := by
  induction ops generalizing a calls with
  | nil => rfl
  | cons op ops ih =>
      rw [run_cons, run_cons, ih (a.step op) (exec (a.watcher, calls) op).2,
        step_watcher a calls op]

theorem lines_bytes (a : Numbered) :
    a.lines.flatMap Prod.snd = (watcherSyncToDisk a.watcher).2.flatMap AppendCall.data := by
  unfold Numbered.lines watcherSyncToDisk
  split_ifs with h
  · simp [syncedSlots, h]
  · simp [appendCalls, List.flatMap_map, List.flatMap_assoc]

/-- **The lines are what was appended.**  The bytes of the noted lines, one after the other,
are the bytes of all appends. -/
theorem run_numbered_ledger (ops : List WatcherOp) (a : Numbered) (calls : List AppendCall)
    (h : a.ledger.flatMap Prod.snd = calls.flatMap AppendCall.data) :
    (run Numbered.step a ops).ledger.flatMap Prod.snd
      = (run exec (a.watcher, calls) ops).2.flatMap AppendCall.data := by
  induction ops generalizing a calls with
  | nil => exact h
  | cons op ops ih =>
      rw [run_cons, run_cons, ih (a.step op) (exec (a.watcher, calls) op).2,
        step_watcher a calls op]
      cases op with
      | log => exact h
      | commit => exact h
      | sync => simp [Numbered.step, Numbered.sync, exec, h, lines_bytes]

/-! ### The cursor as a number -/

/-- The number the cursor stands for after event number `n` is logged, `c` before. -/
def nextCursor (n c : ℕ) : ℕ :=
  if (64 ≤ n ∧ c = n) ∨ n + 1 = c + 64 then n + 1 else c

/-- **The counters are numbers of events.**  With `n` events logged and the cursor standing for
number `c`, the slots hold the last 64 events, and every counter is a number modulo 64. -/
structure RingInv (a : Numbered) (c : ℕ) : Prop where
  events : Rings.Holds 64 a.watcher.events a.logged
  number : Rings.Holds 64 a.number (List.range a.logged.length)
  head : a.watcher.head = a.logged.length % 64
  tail : a.watcher.tail = (a.logged.length - 64) % 64
  count : a.watcher.count = min a.logged.length 64
  cursor : a.watcher.syncCursor = c % 64
  le : c ≤ a.logged.length
  pending : a.logged.length < c + 64
  timed : ∀ e ∈ a.logged, e.timestamp ≠ 0

theorem ringInv_start (w : WatcherState) : RingInv (Numbered.start w) 0 where
  events := Rings.Holds.nil _
  number := Rings.Holds.nil _
  head := rfl
  tail := rfl
  count := rfl
  cursor := rfl
  le := le_rfl
  pending := by simp [Numbered.start]
  timed := by simp [Numbered.start]

/-- A logged event is recorded in the head slot, and the counters move on. -/
theorem RingInv.log {a : Numbered} {c : ℕ} (h : RingInv a c) (type : WatcherEventType)
    (pid : UInt32) (contextData : Option Buf) (timer : Tick) :
    RingInv (a.log (watcherLogEvent type pid contextData timer.val a.watcher))
      (nextCursor a.logged.length c) := by
  have hhead := h.head
  have htail := h.tail
  have hcount := h.count
  have hcursor := h.cursor
  have hle := h.le
  have hpending := h.pending
  set n := a.logged.length with hn
  set rec := eventRecord type pid contextData timer.val (a.watcher.events a.watcher.head)
  have hevents : (watcherLogEvent type pid contextData timer.val a.watcher).events
      = Function.update a.watcher.events (n % 64) rec := by
    rw [← hhead, watcherLogEvent_events]
  have hlogged : (a.log (watcherLogEvent type pid contextData timer.val a.watcher)).logged
      = a.logged ++ [rec] := by
    simp only [Numbered.log, hevents, hhead, Function.update_self]
  have hlen : (a.log (watcherLogEvent type pid contextData timer.val a.watcher)).logged.length
      = n + 1 := by
    rw [hlogged, List.length_append, List.length_singleton]
  refine ⟨?_, ?_, ?_, ?_, ?_, ?_, ?_, ?_, ?_⟩
  · rw [hlogged]
    show Rings.Holds 64 (watcherLogEvent type pid contextData timer.val a.watcher).events _
    rw [hevents]
    exact h.events.push rec
  · rw [hlen, List.range_succ]
    show Rings.Holds 64 (Function.update a.number a.watcher.head n) _
    have := h.number.push n
    rwa [List.length_range, ← hhead] at this
  · rw [hlen]
    show (watcherLogEvent type pid contextData timer.val a.watcher).head = _
    rw [watcherLogEvent_head, hhead, Nat.mod_add_mod]
  · rw [hlen]
    show (watcherLogEvent type pid contextData timer.val a.watcher).tail = _
    rw [watcherLogEvent_tail]
    split_ifs <;> omega
  · rw [hlen]
    show (watcherLogEvent type pid contextData timer.val a.watcher).count = _
    rw [watcherLogEvent_count]
    split_ifs <;> omega
  · show (watcherLogEvent type pid contextData timer.val a.watcher).syncCursor = _
    unfold watcherLogEvent nextCursor
    split_ifs <;> simp only [watcherHistoryMax] at * <;> omega
  · rw [hlen]
    unfold nextCursor
    split_ifs <;> omega
  · rw [hlen]
    unfold nextCursor
    split_ifs <;> omega
  · intro e he
    rw [hlogged, List.mem_append, List.mem_singleton] at he
    rcases he with he | rfl
    · exact h.timed e he
    · exact timer.nonzero

/-- A sync brings the cursor up to the head. -/
theorem RingInv.sync {a : Numbered} {c : ℕ} (h : RingInv a c) :
    RingInv a.sync a.logged.length := by
  have hcursor : (watcherSyncToDisk a.watcher).1.syncCursor = a.watcher.head := by
    unfold watcherSyncToDisk
    split_ifs with he
    · exact he
    · rfl
  refine ⟨?_, h.number, ?_, ?_, ?_, ?_, le_rfl, by simp [Numbered.sync], h.timed⟩
  all_goals simp only [Numbered.sync]
  · unfold watcherSyncToDisk
    split_ifs <;> exact h.events
  · unfold watcherSyncToDisk
    split_ifs <;> exact h.head
  · unfold watcherSyncToDisk
    split_ifs <;> exact h.tail
  · unfold watcherSyncToDisk
    split_ifs <;> exact h.count
  · rw [hcursor, h.head]

/-- A slot between the cursor and the head still holds the event the cursor counts there. -/
theorem RingInv.slot {a : Numbered} {c i : ℕ} (h : RingInv a c) (hc : c ≤ i)
    (hi : i < a.logged.length) :
    a.logged[i]? = some (a.watcher.events (i % 64)) ∧ a.number (i % 64) = i := by
  have hpending := h.pending
  constructor
  · rw [List.getElem?_eq_getElem hi, h.events i _ (List.getElem?_eq_getElem hi) (by omega)]
  · exact h.number i i (by simp [hi]) (by simp; omega)

theorem RingInv.walk {a : Numbered} {c : ℕ} (h : RingInv a c) :
    Rings.walk watcherHistoryMax watcherHistoryMax a.watcher.syncCursor a.watcher.head
      = (List.range' c (a.logged.length - c)).map (· % 64) := by
  have hle := h.le
  have hpending := h.pending
  have := Rings.walk_eq (N := 64) (c := c) (a.logged.length - c) (by omega)
    (show a.logged.length - c ≤ 64 by omega)
  rw [show c + (a.logged.length - c) = a.logged.length by omega] at this
  rw [h.cursor, h.head]
  exact this

/-- **What a sync stores**: the receipts among the events from the cursor on, under their own
numbers. -/
theorem RingInv.mem_lines {a : Numbered} {c : ℕ} (h : RingInv a c) (i : ℕ) (l : List UInt8) :
    (i, l) ∈ a.lines ↔ c ≤ i ∧ ∃ e, a.logged[i]? = some e ∧ e.type = .ledgerCommit ∧
      l = e.text ++ ascii "\n" := by
  have hle := h.le
  simp only [Numbered.lines, syncedSlots, h.walk, List.mem_map, List.mem_filter,
    List.mem_range'_1, Bool.and_eq_true, decide_eq_true_eq, Prod.mk.injEq]
  constructor
  · rintro ⟨_, ⟨⟨j, ⟨hcj, hj⟩, rfl⟩, -, htype⟩, rfl, rfl⟩
    obtain ⟨he, hnum⟩ := h.slot hcj (by omega)
    rw [hnum]
    exact ⟨hcj, _, he, htype, rfl⟩
  · rintro ⟨hci, e, he, htype, rfl⟩
    have hi : i < a.logged.length := (List.getElem?_eq_some_iff.1 he).1
    obtain ⟨he', hnum⟩ := h.slot hci hi
    obtain rfl : e = a.watcher.events (i % 64) := Option.some.inj (he.symm.trans he')
    refine ⟨i % 64, ⟨⟨i, ⟨hci, by omega⟩, rfl⟩, ?_, htype⟩, hnum, rfl⟩
    exact h.timed _ (List.mem_of_getElem? he)

end Watcher
end AiOsExchange
