/-
# What the ledger is given, and in which order

A sync walks from `sync_cursor` to `head` over slots that may have been written any number of
times.  Whatever the phase, the slots it visits hold the events the cursor counts from there on
(`RingInv.walk`), and the cursor only moves forward.  So over a whole run the texts handed to
`fs_append_file_content` are those of some of the receipts logged, each at most once and in the
order of logging, and each of them was logged before the sync that stored it.

An event is meant by its number here: `loggedEvents ops` lists what the calls `ops` log, and the
numbers used are the positions in that list.
-/

import AiOsExchange.Watcher.Numbered
import Mathlib.Data.List.Induction

namespace AiOsExchange
namespace Watcher

open CMemory Runs

/-- What a slot keeps of a context: 63 bytes at most, nothing of a null pointer. -/
def keptText : Option Buf → List UInt8
  | some src => text src 63
  | none => []

/-- The event a call logs, as its type and the text kept. -/
def WatcherOp.event? : WatcherOp → Option (WatcherEventType × List UInt8)
  | .log type _ contextData _ => some (type, keptText contextData)
  | .commit txHash volume _ =>
      some (.ledgerCommit, keptText (some (cString (receiptContext txHash volume))))
  | .sync => none

/-- The events that calls log, in order. -/
def loggedEvents (ops : List WatcherOp) : List (WatcherEventType × List UInt8) :=
  ops.filterMap WatcherOp.event?

/-- The text of event number `i`. -/
def textOf (ops : List WatcherOp) (i : ℕ) : List UInt8 :=
  (((loggedEvents ops)[i]?).map Prod.snd).getD []

/-- The two appends that store a text: the text and one newline. -/
def receiptCalls (text : List UInt8) : List AppendCall :=
  [⟨ledgerLog, text⟩, ⟨ledgerLog, ascii "\n"⟩]

theorem text_eventRecord (type : WatcherEventType) (pid : UInt32) (contextData : Option Buf)
    (timer : UInt64) (old : WatcherEvent) :
    (eventRecord type pid contextData timer old).text = keptText contextData := by
  cases contextData with
  | some src =>
      have hlen : (text src 63).length ≤ 64 := (text_length_le src 63).trans (by omega)
      exact text_put (nul_not_mem_text src 63) hlen
  | none =>
      have hnul : (put old.context 0 [0]) 0 = 0 := by simp [put]
      have hlen : strnlen (put old.context 0 [0]) 64 = 0 :=
        strnlen_eq_of_nul (by omega) hnul fun i hi => absurd hi i.not_lt_zero
      rw [WatcherEvent.text, eventRecord, text, hlen]
      rfl

/-- A call logs one event or none. -/
theorem step_logged (a : Numbered) (op : WatcherOp) :
    (a.step op).logged.map (fun e => (e.type, e.text)) =
      a.logged.map (fun e => (e.type, e.text)) ++ op.event?.toList := by
  have hrec (type : WatcherEventType) (pid : UInt32) (contextData : Option Buf) (timer : UInt64) :
      (a.log (watcherLogEvent type pid contextData timer a.watcher)).logged =
        a.logged ++ [eventRecord type pid contextData timer (a.watcher.events a.watcher.head)] := by
    rw [Numbered.log, watcherLogEvent_events, Function.update_self]
  cases op with
  | log type pid contextData timer =>
      rw [Numbered.step, hrec, List.map_append, List.map_singleton, text_eventRecord]
      rfl
  | commit txHash volume timer =>
      rw [Numbered.step, watcherCommitLedger, hrec, List.map_append, List.map_singleton,
        text_eventRecord]
      rfl
  | sync => exact (List.append_nil _).symm

theorem run_logged (w : WatcherState) (ops : List WatcherOp) :
    (run Numbered.step (Numbered.start w) ops).logged.map (fun e => (e.type, e.text)) =
      loggedEvents ops := by
  induction ops using List.reverseRecOn with
  | nil => rfl
  | append_singleton ops op ih =>
      rw [run_append, run_cons, run_nil, step_logged, ih, loggedEvents, loggedEvents,
        List.filterMap_append]
      cases h : op.event? <;> simp [h]

/-- The lines of a run stay in the ledger. -/
theorem ledger_isPrefix (a : Numbered) (ops : List WatcherOp) :
    a.ledger <+: (run Numbered.step a ops).ledger := by
  induction ops generalizing a with
  | nil => exact List.prefix_rfl
  | cons op ops ih =>
      refine List.IsPrefix.trans ?_ (ih (a.step op))
      cases op with
      | log => exact List.prefix_rfl
      | commit => exact List.prefix_rfl
      | sync => exact List.prefix_append _ _

/-- **The ledger is in order.**  Its lines belong to receipts before the cursor, and their
numbers increase. -/
structure InOrder (a : Numbered) (c : ℕ) : Prop where
  ring : RingInv a c
  sorted : (a.ledger.map Prod.fst).Pairwise (· < ·)
  below : ∀ p ∈ a.ledger, p.1 < c
  receipt : ∀ p ∈ a.ledger, ∃ e, a.logged[p.1]? = some e ∧ e.type = .ledgerCommit ∧
    p.2 = e.text ++ ascii "\n"

theorem inOrder_start (w : WatcherState) : InOrder (Numbered.start w) 0 where
  ring := ringInv_start w
  sorted := List.Pairwise.nil
  below := by simp [Numbered.start]
  receipt := by simp [Numbered.start]

/-- Logging moves the cursor forward or not at all. -/
theorem InOrder.log {a : Numbered} {c : ℕ} (h : InOrder a c) (type : WatcherEventType)
    (pid : UInt32) (contextData : Option Buf) (timer : Tick) :
    InOrder (a.log (watcherLogEvent type pid contextData timer.val a.watcher))
      (nextCursor a.logged.length c) := by
  refine ⟨h.ring.log type pid contextData timer, h.sorted, fun p hp => ?_, fun p hp => ?_⟩
  · have hlt := h.below p hp
    have hle := h.ring.le
    unfold nextCursor
    split_ifs <;> omega
  · obtain ⟨e, he, hrest⟩ := h.receipt p hp
    refine ⟨e, ?_, hrest⟩
    rw [← he]
    exact List.getElem?_append_left (List.getElem?_eq_some_iff.1 he).1

/-- The numbers of the lines of one sync increase. -/
theorem RingInv.lines_sorted {a : Numbered} {c : ℕ} (h : RingInv a c) :
    (a.lines.map Prod.fst).Pairwise (· < ·) := by
  have hle := h.le
  have hnumbers : a.lines.map Prod.fst = (syncedSlots a.watcher).map a.number := by
    simp [Numbered.lines]
  have hwalk : (Rings.walk watcherHistoryMax watcherHistoryMax a.watcher.syncCursor
      a.watcher.head).map a.number = List.range' c (a.logged.length - c) := by
    rw [h.walk, List.map_map]
    refine (List.map_congr_left fun i hi => ?_).trans (List.map_id _)
    obtain ⟨hc, hi⟩ := List.mem_range'_1.1 hi
    exact (h.slot hc (by omega)).2
  have hsub : (a.lines.map Prod.fst).Sublist (List.range' c (a.logged.length - c)) := by
    rw [hnumbers, ← hwalk]
    exact List.filter_sublist.map a.number
  exact List.Pairwise.sublist hsub (List.pairwise_lt_range' (s := c))

/-- **A sync goes on where the last one stopped.** -/
theorem InOrder.sync {a : Numbered} {c : ℕ} (h : InOrder a c) : InOrder a.sync a.logged.length where
  ring := h.ring.sync
  sorted := by
    show ((a.ledger ++ a.lines).map Prod.fst).Pairwise (· < ·)
    rw [List.map_append]
    refine List.pairwise_append.2 ⟨h.sorted, h.ring.lines_sorted, fun i hi j hj => ?_⟩
    obtain ⟨p, hp, rfl⟩ := List.mem_map.1 hi
    obtain ⟨q, hq, rfl⟩ := List.mem_map.1 hj
    exact lt_of_lt_of_le (h.below p hp) ((h.ring.mem_lines q.1 q.2).1 hq).1
  below p hp := by
    rcases List.mem_append.1 hp with hp | hp
    · exact lt_of_lt_of_le (h.below p hp) h.ring.le
    · obtain ⟨-, e, he, -⟩ := (h.ring.mem_lines p.1 p.2).1 hp
      exact (List.getElem?_eq_some_iff.1 he).1
  receipt p hp := by
    rcases List.mem_append.1 hp with hp | hp
    · exact h.receipt p hp
    · exact ((h.ring.mem_lines p.1 p.2).1 hp).2

theorem inOrder_step (a : Numbered) (op : WatcherOp) (h : ∃ c, InOrder a c) :
    ∃ c, InOrder (a.step op) c := by
  obtain ⟨c, h⟩ := h
  cases op with
  | log type pid contextData timer => exact ⟨_, h.log type pid contextData timer⟩
  | commit txHash volume timer => exact ⟨_, h.log .ledgerCommit 0 _ timer⟩
  | sync => exact ⟨_, h.sync⟩

theorem inOrder_run (w : WatcherState) (ops : List WatcherOp) :
    ∃ c, InOrder (run Numbered.step (Numbered.start w) ops) c :=
  run_keeps inOrder_step ⟨0, inOrder_start w⟩ ops

/-- The appends of a sync are two for each of its lines. -/
theorem lines_calls (a : Numbered) :
    (watcherSyncToDisk a.watcher).2 = a.lines.flatMap fun p => receiptCalls p.2.dropLast := by
  have hline (l : List UInt8) : (l ++ ascii "\n").dropLast = l := List.dropLast_concat
  unfold Numbered.lines watcherSyncToDisk
  split_ifs with h
  · simp [syncedSlots, h]
  · simp only [List.flatMap_map, hline]
    rfl

theorem run_calls (ops : List WatcherOp) (a : Numbered) (calls : List AppendCall)
    (h : calls = a.ledger.flatMap fun p => receiptCalls p.2.dropLast) :
    (run exec (a.watcher, calls) ops).2 =
      (run Numbered.step a ops).ledger.flatMap fun p => receiptCalls p.2.dropLast := by
  induction ops generalizing a calls with
  | nil => exact h
  | cons op ops ih =>
      have hstep : exec (a.watcher, calls) op =
          ((a.step op).watcher, (exec (a.watcher, calls) op).2) := by
        rw [step_watcher a calls op]
      rw [run_cons, run_cons, hstep]
      refine ih (a.step op) _ ?_
      cases op with
      | log => exact h
      | commit => exact h
      | sync =>
          show calls ++ (watcherSyncToDisk a.watcher).2 = (a.ledger ++ a.lines).flatMap _
          rw [h, lines_calls, List.flatMap_append]

/-- **Nothing is stored twice, out of order or from a wrong slot.**  There is one increasing
list of event numbers such that, at every point of the run, the appends made so far are those of
the texts of some first numbers of the list, a newline after each, and every one of these
numbers belongs to a receipt logged by then. -/
theorem ledger_in_order (w : WatcherState) (ops : List WatcherOp) :
    ∃ used : List ℕ, used.Pairwise (· < ·) ∧ ∀ pre, pre <+: ops → ∃ k,
      (∀ i ∈ used.take k, ∃ text, (loggedEvents pre)[i]? = some (.ledgerCommit, text)) ∧
      (run exec (watcherInit w, []) pre).2 =
        (used.take k).flatMap fun i => receiptCalls (textOf pre i) := by
  obtain ⟨_, hall⟩ := inOrder_run w ops
  refine ⟨(run Numbered.step (Numbered.start w) ops).ledger.map Prod.fst, hall.sorted,
    fun pre hpre => ?_⟩
  obtain ⟨post, rfl⟩ := hpre
  obtain ⟨c, h⟩ := inOrder_run w pre
  rw [run_append]
  set a := run Numbered.step (Numbered.start w) pre with ha
  have htake : ((run Numbered.step a post).ledger.map Prod.fst).take a.ledger.length =
      a.ledger.map Prod.fst := by
    rw [← List.map_take, ← List.prefix_iff_eq_take.1 (ledger_isPrefix a post)]
  have hevent (p : ℕ × List UInt8) (hp : p ∈ a.ledger) :
      ∃ text, (loggedEvents pre)[p.1]? = some (.ledgerCommit, text) ∧ p.2.dropLast = text := by
    obtain ⟨e, he, htype, htext⟩ := h.receipt p hp
    refine ⟨e.text, ?_, by rw [htext]; exact List.dropLast_concat⟩
    rw [← run_logged w pre, List.getElem?_map, he, Option.map_some, htype]
  refine ⟨a.ledger.length, fun i hi => ?_, ?_⟩
  · rw [htake] at hi
    obtain ⟨p, hp, rfl⟩ := List.mem_map.1 hi
    obtain ⟨text, htext, -⟩ := hevent p hp
    exact ⟨text, htext⟩
  · rw [htake, List.flatMap_map]
    refine (run_calls pre (Numbered.start w) [] rfl).trans ?_
    refine List.flatMap_congr fun p hp => ?_
    obtain ⟨text, htext, hline⟩ := hevent p hp
    rw [hline, textOf, htext]
    rfl

end Watcher
end AiOsExchange
