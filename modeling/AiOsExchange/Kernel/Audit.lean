/-
# What a run leaves behind

Two records of what the kernel has done: the events that the watcher of `kernel/watcher.c` dumps,
and the receipts in `LEDGER.LOG`.

| call | events | receipts stored |
| --- | --- | --- |
| a request for a file | one, with the sender and the name | |
| an execution that ends with a value | a receipt behind the event of its request | |
| a sync | | those logged since the cursor |

`kernel_audit` says which events a dump shows after any run of calls, and `ledger_read` what
`LEDGER.LOG` is then read as, if no write request is for it and there is room for it.
-/

import AiOsExchange.Kernel.Serves

namespace AiOsExchange
namespace Kernel

open CMemory Computations Watcher Fat32 Autarky Runs

namespace Service

/-! ### The audit -/

/-- The receipt that an execution leaves. -/
def receiptsOf (fuel : ℕ) (source : List Char) (sv : Service) : List Entry :=
  match compile source with
  | .ok ast =>
      match (evaluate fuel seededEnv (eraseProofs ast) sv.net).1 with
      | .ok val => [receiptEntry source val (sv.timer 0)]
      | _ => []
  | _ => []

/-- The events that a request leaves. -/
def requestEvents (fuel : ℕ) (sv : Service) (inMsg : OsMessage) : List Entry :=
  let pid := UInt32.ofNat inMsg.senderId
  let context := text inMsg.payload 63
  match inMsg.type with
  | .fsListReq => [⟨.fsRead, pid, ascii "ROOT_DIR"⟩]
  | .fsReadReq => [⟨.fsRead, pid, context⟩]
  | .fsWriteReq => [⟨.fsWrite, pid, context⟩]
  | .atkExecReq => ⟨.fsRead, pid, context⟩ :: receiptsOf fuel (sv.source inMsg) (sv.tick 1)
  | _ => []

/-- The events that a call leaves. -/
def eventsOf (fuel : ℕ) (sv : Service) : KernelCall → List Entry
  | .send _ inMsg => if inMsg.targetId = sysModKernel then sv.requestEvents fuel inMsg else []
  | .receive _ => []

/-- The events of a run. -/
def audit (fmtValue : Value → List Char) (fuel : ℕ) : Service → List KernelCall → List Entry
  | _, [] => []
  | sv, call :: calls =>
      sv.eventsOf fuel call ++ audit fmtValue fuel (Runs.next (step fmtValue fuel) sv call) calls

section
variable {fmtValue : Value → List Char} {fuel : ℕ} {sv : Service}

/-- An execution adds its receipt. -/
theorem trail_execute (source : List Char) (sv : Service) :
    (sv.execute fmtValue fuel source).2.trail = sv.trail ++ receiptsOf fuel source sv := by
  rw [execute, receiptsOf]
  rcases compile source with ast | msg | _ | _
  · simp only
    rcases evaluate fuel seededEnv (eraseProofs ast) sv.net with ⟨_ | _ | _ | _, net⟩ <;>
      simp [evaluated, note, tick]
  all_goals exact (List.append_nil _).symm

/-- A request adds its events. -/
theorem trail_request (loc : Locals) (inMsg : OsMessage) (sv : Service) :
    (sv.request fmtValue fuel loc inMsg).2.trail = sv.trail ++ sv.requestEvents fuel inMsg := by
  rw [requestEvents]
  cases ht : inMsg.type with
  | fsListReq => rw [request_list ht]; rfl
  | fsReadReq => rw [request_read ht]; rfl
  | fsWriteReq => rw [request_write ht]; rfl
  | atkExecReq =>
      rw [request_exec ht, trail_execute]
      exact List.append_assoc sv.trail [_] _
  | watcherDumpReq => rw [request_dump ht]; exact (List.append_nil _).symm
  | watcherSyncReq => rw [request_sync ht]; exact (List.append_nil _).symm
  | _ => rw [request, ht]; exact (List.append_nil _).symm

/-- A call adds its events. -/
theorem trail_step (sv : Service) (call : KernelCall) :
    (Runs.next (step fmtValue fuel) sv call).trail = sv.trail ++ sv.eventsOf fuel call := by
  cases call with
  | send loc inMsg =>
      rw [Runs.next, step, eventsOf]
      split_ifs
      · rw [← trail_request loc inMsg sv]
        simp only
        cases (sv.request fmtValue fuel loc inMsg).1 <;> rfl
      · exact (List.append_nil _).symm
  | receive buffer =>
      rw [Runs.next, step]
      cases sv.inbox <;> exact (List.append_nil _).symm

/-- **A run adds its events**, in order. -/
theorem trail_run (sv : Service) (calls : List KernelCall) :
    (run (Runs.next (step fmtValue fuel)) sv calls).trail =
      sv.trail ++ sv.audit fmtValue fuel calls := by
  induction calls generalizing sv with
  | nil => exact (List.append_nil _).symm
  | cons call calls ih => rw [run_cons, ih, trail_step, List.append_assoc, audit]

end

end Service

/-- What an append of `piece` makes of the bytes that went into a file: it is cut at the end of the
sector. -/
def addPiece (log : Option (List UInt8)) (piece : List UInt8) : Option (List UInt8) :=
  some (log.elim piece fun log => log ++ piece.take (StoredFile.room log.length piece.length))

/-- A receipt is added, its text and a newline. -/
def addReceipt (log : Option (List UInt8)) (receipt : List UInt8) : Option (List UInt8) :=
  addPiece (addPiece log receipt) (ascii "\n")

namespace Service

/-- The receipts that a call stores. -/
def storedBy (sv : Service) : KernelCall → List (List UInt8)
  | .send _ inMsg =>
      if inMsg.targetId = sysModKernel ∧ inMsg.type = .watcherSyncReq then
        receiptsFrom sv.trail sv.cursor
      else []
  | .receive _ => []

/-- The receipts that a run stores. -/
def stored (fmtValue : Value → List Char) (fuel : ℕ) : Service → List KernelCall → List (List UInt8)
  | _, [] => []
  | sv, call :: calls =>
      sv.storedBy call ++ stored fmtValue fuel (Runs.next (step fmtValue fuel) sv call) calls

/-- The call writes no file with the name of the ledger. -/
def Spares : KernelCall → Prop
  | .send _ inMsg => inMsg.type = .fsWriteReq → formatFatName (stringAt inMsg.payload) ≠ ledgerName
  | .receive _ => True

/-- The call is admitted and spares the ledger, and if there is no ledger there is room for one. -/
structure AdmitsLedger (fuel : ℕ) (sv : Service) (call : KernelCall) : Prop where
  admits : sv.Admits fuel call
  spares : Spares call
  room : sv.store.find ledgerName = none → sv.store.HasRoom

section
variable {fmtValue : Value → List Char} {fuel : ℕ} {sv : Service} {st : Store}
  {log : Option (List UInt8)}

/-- A piece is appended. -/
theorem tells_piece (h : st.Tells ledgerName log) {piece : List UInt8} (hlen : piece.length ≤ 512)
    (hroom : st.find ledgerName = none → st.HasRoom) :
    (st.append ledgerName (cString piece) piece.length).Tells ledgerName (addPiece log piece) := by
  have hcut (n : ℕ) (hn : n ≤ piece.length) : bytesAt (cString piece) 0 n = piece.take n := by
    rw [← bytesAt_take _ _ hn, bytesAt_cString]
  have happend := h.append (cString piece) fun hnone => ⟨hroom hnone, hlen⟩
  rw [bytesAt_cString] at happend
  cases log with
  | none => exact happend
  | some log =>
      rw [Option.elim_some, hcut (StoredFile.room _ _) (Nat.min_le_left _ _)] at happend
      exact happend

/-- A receipt is kept. -/
theorem tells_receipt (h : st.Tells ledgerName log) {receipt : List UInt8}
    (hlen : receipt.length ≤ 64) (hroom : st.find ledgerName = none → st.HasRoom) :
    (keepReceipt st receipt).Tells ledgerName (addReceipt log receipt) := by
  have hfirst := tells_piece h (hlen.trans (by omega)) hroom
  refine tells_piece hfirst (by decide : (ascii "\n").length ≤ 512) fun hnone => ?_
  obtain ⟨f, hf, -⟩ := hfirst
  rw [hf] at hnone
  cases hnone

/-- The receipts are kept. -/
theorem tells_receipts {receipts : List (List UInt8)} (hlen : ∀ r ∈ receipts, r.length ≤ 64)
    (h : st.Tells ledgerName log) (hroom : st.find ledgerName = none → st.HasRoom) :
    (receipts.foldl keepReceipt st).Tells ledgerName (receipts.foldl addReceipt log) := by
  induction receipts generalizing st log with
  | nil => exact h
  | cons r receipts ih =>
      have hfirst := tells_receipt h (hlen r List.mem_cons_self) hroom
      refine ih (fun r hr => hlen r (List.mem_cons_of_mem _ hr)) hfirst fun hnone => ?_
      obtain ⟨f, hf, -⟩ := hfirst
      rw [hf] at hnone
      cases hnone

/-- An execution stores nothing. -/
theorem store_execute (source : List Char) (sv : Service) :
    (sv.execute fmtValue fuel source).2.store = sv.store := by
  rw [execute]
  rcases compile source with ast | msg | _ | _
  · simp only
    rcases evaluate fuel seededEnv (eraseProofs ast) sv.net with ⟨_ | _ | _ | _, net⟩ <;> rfl
  all_goals rfl

/-- **A request stores its receipts** in the ledger, and nothing else. -/
theorem tells_request (hlen : ∀ e ∈ sv.trail, e.context.length ≤ 64)
    (h : sv.store.Tells ledgerName log) {loc : Locals} {inMsg : OsMessage}
    (htarget : inMsg.targetId = sysModKernel) (hok : sv.AdmitsLedger fuel (.send loc inMsg)) :
    (sv.request fmtValue fuel loc inMsg).2.store.Tells ledgerName
      ((sv.storedBy (.send loc inMsg)).foldl addReceipt log) := by
  by_cases hsync : inMsg.type = .watcherSyncReq
  · rw [request_sync hsync, storedBy, if_pos ⟨htarget, hsync⟩]
    refine tells_receipts (fun r hr => ?_) h hok.room
    obtain ⟨e, he, rfl⟩ := List.mem_map.1 hr
    exact hlen e (List.mem_of_mem_drop (List.mem_of_mem_filter he))
  · rw [storedBy, if_neg fun hboth => hsync hboth.2, List.foldl_nil]
    by_cases hwrite : inMsg.type = .fsWriteReq
    · rw [request_write hwrite]
      have hfind := @Store.find_write_of_ne sv.store _ _ (writeData inMsg) (writeLength inMsg)
        (hok.spares hwrite)
      cases log with
      | none => exact hfind.trans h
      | some log =>
          obtain ⟨f, hf, hkeeps⟩ := h
          exact ⟨f, hfind.trans hf, hkeeps⟩
    · have hstore : (sv.request fmtValue fuel loc inMsg).2.store = sv.store := by
        cases ht : inMsg.type with
        | fsListReq => rw [request_list ht]; rfl
        | fsReadReq => rw [request_read ht]; rfl
        | fsWriteReq => exact absurd ht hwrite
        | atkExecReq => rw [request_exec ht, store_execute]; rfl
        | watcherDumpReq => rw [request_dump ht]
        | watcherSyncReq => exact absurd ht hsync
        | _ => rw [request, ht]
      rwa [hstore]

/-- **A call stores its receipts** in the ledger, and nothing else. -/
theorem tells_step (hlen : ∀ e ∈ sv.trail, e.context.length ≤ 64)
    (h : sv.store.Tells ledgerName log) {call : KernelCall} (hok : sv.AdmitsLedger fuel call) :
    (Runs.next (step fmtValue fuel) sv call).store.Tells ledgerName
      ((sv.storedBy call).foldl addReceipt log) := by
  cases call with
  | send loc inMsg =>
      rw [Runs.next, step]
      split_ifs with htarget
      · have hrequest : (sv.request fmtValue fuel loc inMsg).2.store.Tells ledgerName
            ((sv.storedBy (.send loc inMsg)).foldl addReceipt log) :=
          tells_request hlen h htarget hok
        simp only
        cases (sv.request fmtValue fuel loc inMsg).1 <;> exact hrequest
      · rw [storedBy, if_neg fun hboth => htarget hboth.1]
        exact h
  | receive buffer =>
      rw [Runs.next, step]
      cases sv.inbox <;> exact h

end

end Service

section
variable {fmtValue : Value → List Char} {fuel : ℕ} (hfuel : 0 < fuel) {count : ℕ} {root : List ℕ}
  {k : KernelState} {sv : Service} (h : k.Serves count root sv) {log : Option (List UInt8)}
  (hlog : sv.store.Tells Service.ledgerName log) (calls : List KernelCall)
  (hok : StepsMeet (Runs.next (Service.step fmtValue fuel)) (Service.AdmitsLedger fuel) sv calls)
include hfuel h hlog hok

/-- The receipts of a run. -/
theorem ledger_run :
    (run (Runs.next (Service.step fmtValue fuel)) sv calls).store.Tells Service.ledgerName
      ((sv.stored fmtValue fuel calls).foldl addReceipt log) := by
  induction calls generalizing k sv log with
  | nil => exact hlog
  | cons call calls ih =>
      have hstep : (Runs.next (Service.step fmtValue fuel) sv call).store.Tells Service.ledgerName
          ((sv.storedBy call).foldl addReceipt log) :=
        Service.tells_step h.recorded.context_length hlog hok.1
      have hnext := (kernel_serves fmtValue hfuel count root).next k sv call h hok.1.admits
      rw [Service.stored, List.foldl_append]
      exact ih hnext hstep hok.2

/-- **What the ledger is read as.**  After a run of calls of which none writes `LEDGER.LOG`, where
there is room for the file as long as there is none, it has the receipts of the syncs behind what it
had, in order, as a sector holds them. -/
theorem ledger_read (buffer : Buf) {m maxLen : ℕ} (h16 : 16 < maxLen) (hmax : m < maxLen)
    (h512 : m ≤ 512) :
    text (fsReadFileContent ledgerLog buffer maxLen
        (run (Runs.next (kernelCall fmtValue fuel)) k calls).fs).1 m =
      (((sv.stored fmtValue fuel calls).foldl addReceipt log).map fun log => shownLog log m).getD
        (fileNotFound.take m) := by
  have htells := ledger_run hfuel h hlog calls hok
  have hrun := (kernel_answers fmtValue hfuel h calls (hok.mono fun _ _ hcall => hcall.admits)).2
  rw [← hrun.store] at htells
  rw [hrun.orderly.read (by decide) htells.not_foreign h16 hmax h512]
  exact htells.read_eq h512

end

/-- A request to store the pending receipts. -/
def syncRequest : KernelCall :=
  .send ⟨fun _ => 0, fun _ => 0, fun _ => 0, fun _ => 0⟩ (blankMessage sysModKernel .watcherSyncReq)

/-- A kernel with a pending receipt, -/
def pendingKernel : KernelState :=
  { kernelOn (oneFileVolume (ascii "A") (ascii "hi")) with
    watcher := watcherCommitLedger 1 5 1 idleHost.watcher }

/-- as a service. -/
def pendingService : Service :=
  { Service.boot (oneFileVolume (ascii "A") (ascii "hi")).asStore idleHost.net idleHost.timer with
    trail := [⟨.ledgerCommit, 0, keptText (some (cString (receiptContext 1 5)))⟩] }

theorem pendingKernel_serves : pendingKernel.Serves 126 [2] pendingService := by
  have h : (oneFileVolume (ascii "A") (ascii "hi")).Consistent 126 [2] :=
    oneFileVolume_consistent (by decide)
  have hboot := serves_kernelOn (h.orderly fun _ => rfl)
  exact ⟨hboot.orderly, hboot.store, hboot.valid, hboot.inbox,
    hboot.recorded.log .ledgerCommit 0 (some (cString (receiptContext 1 5)))
      (by decide : (1 : UInt64) ≠ 0), hboot.net, hboot.timer, hboot.ticks⟩

/-- The receipt is read. -/
theorem receipt_read :
    text (fsReadFileContent ledgerLog (fun _ => 0) 256
        (run (Runs.next (kernelCall (fun _ => []) 1)) pendingKernel [syncRequest]).fs).1 255 =
      ascii "TX: 0x0000000000000001 | VOL: 5\n" := by
  have hnone : pendingService.store.find Service.ledgerName = none :=
    Option.isNone_iff_eq_none.1 (by decide +kernel)
  have hroom : pendingService.store.HasRoom := by decide +kernel
  have hadmits : pendingService.AdmitsLedger 1 syncRequest :=
    ⟨fun _ hforeign => by simp [Store.Foreign, hnone] at hforeign, fun hne => absurd hne (by decide),
      fun _ => hroom⟩
  refine (@ledger_read (fun _ => []) 1 Nat.one_pos _ _ _ _ pendingKernel_serves none hnone
    [syncRequest] ⟨hadmits, trivial⟩ (fun _ => 0) 255 256 (by omega) (by omega) (by omega)).trans ?_
  decide +kernel

end Kernel
end AiOsExchange
