/-
# The kernel serves

The system calls of `kernel/syscall.c` that pass messages do what the calls of the service do, on
every kernel whose volume has its root directory in order, whose block device does not fail and
whose timer does not read zero (`KernelState.Serves`).

| in the service | in the kernel |
| --- | --- |
| the store | what the volume stands for |
| the trail | the ring of the watcher has its end |
| the inbox | the messages between the head and the tail of the mailbox |

So a run of calls gets the letters that it gets of the service (`kernel_answers`), and a dump of the
watcher shows the last 64 events of its trail (`kernel_dump`).
-/

import AiOsExchange.Fat32.Journal
import AiOsExchange.Kernel.Fifo
import AiOsExchange.Kernel.Service

namespace AiOsExchange
namespace Kernel

open CMemory Computations Watcher Fat32 Autarky Runs

/-- A call of the kernel, with the letter that the caller gets. -/
def kernelCall (fmtValue : Value → List Char) (fuel : ℕ) (k : KernelState) :
    KernelCall → Out (Option Letter) × KernelState
  | .send loc inMsg => (sysIpcSend fmtValue fuel loc inMsg >>= fun _ => pure none) k
  | .receive buffer =>
      (.ok (some (ipcReceive buffer k.ipc).1.letter), { k with ipc := (ipcReceive buffer k.ipc).2 })

/-- **The kernel is in the state of the service.** -/
structure KernelState.Serves (k : KernelState) (count : ℕ) (root : List ℕ) (sv : Service) : Prop where
  orderly : k.fs.Orderly count root
  store : k.fs.asStore = sv.store
  valid : k.ipc.Valid
  inbox : k.ipc.messages.map OsMessage.letter = sv.inbox
  recorded : Recorded k.watcher sv.trail sv.cursor
  net : k.net = sv.net
  timer : k.timer = sv.timer
  ticks : ∀ n, k.timer n ≠ 0

/-- The letter of a reply. -/
theorem letter_withText (inMsg : OsMessage) (type : IpcMsg) (loc : Locals) (src : Buf) :
    (withText (replyTo inMsg type loc) src).letter = answerTo inMsg type (text src 255) := by
  rw [OsMessage.letter, withText_text]
  rfl

/-! ### The parts -/

section
variable {k : KernelState} {count : ℕ} {root : List ℕ} {sv : Service} (h : k.Serves count root sv)
include h

/-- A letter is delivered. -/
theorem KernelState.Serves.deliver (msg : OsMessage) :
    ({ k with ipc := ipcKernelSend msg k.ipc }).Serves count root (sv.deliver msg.letter) where
  orderly := h.orderly
  store := h.store
  valid := valid_ipcKernelSend msg h.valid
  inbox := by
    rw [messages_ipcKernelSend msg h.valid, Service.deliver, ← h.inbox, List.length_map]
    split_ifs
    · rw [List.map_append, List.map_singleton]
    · rfl
  recorded := h.recorded
  net := h.net
  timer := h.timer
  ticks := h.ticks

/-- An event is logged. -/
theorem KernelState.Serves.logged (type : WatcherEventType) (pid : ℕ) (context : Buf) :
    (k.logged type pid context).Serves count root (sv.logged type pid (text context 63)) where
  orderly := h.orderly
  store := h.store
  valid := h.valid
  inbox := h.inbox
  recorded := h.recorded.log type _ (some context) (h.ticks 0)
  net := h.net
  timer := funext fun n => congrFun h.timer (n + 1)
  ticks n := h.ticks (n + 1)

/-- The volume changes. -/
theorem KernelState.Serves.withFs {fs : FatState} (horder : fs.Orderly count root) :
    ({ k with fs := fs }).Serves count root { sv with store := fs.asStore } where
  orderly := horder
  store := rfl
  valid := h.valid
  inbox := h.inbox
  recorded := h.recorded
  net := h.net
  timer := h.timer
  ticks := h.ticks

/-- The volume stays the same. -/
theorem KernelState.Serves.unchanged {fs : FatState} (hkept : Unchanged k.fs fs)
    (hlater : k.fs.Later fs) : ({ k with fs := fs }).Serves count root sv := by
  have hfs := h.withFs (h.orderly.congr hlater hkept.2)
  rwa [FatState.asStore_congr hkept.1 hkept.2, h.store] at hfs

/-- **What is received** is the oldest letter of the inbox. -/
theorem KernelState.Serves.receive (fmtValue : Value → List Char) (fuel : ℕ) (buffer : OsMessage) :
    (kernelCall fmtValue fuel k (.receive buffer)).1 = (sv.step fmtValue fuel (.receive buffer)).1 ∧
      (kernelCall fmtValue fuel k (.receive buffer)).2.Serves count root
        (sv.step fmtValue fuel (.receive buffer)).2 := by
  have hinbox := h.inbox
  cases hq : k.ipc.messages with
  | nil =>
      rw [hq, List.map_nil] at hinbox
      simp only [kernelCall, Service.step, ← hinbox, ipcReceive_nil buffer h.valid hq]
      exact ⟨rfl, h⟩
  | cons m ms =>
      rw [hq, List.map_cons] at hinbox
      obtain ⟨q, hrecv, hvalid, hmessages⟩ := ipcReceive_cons buffer h.valid hq
      simp only [kernelCall, Service.step, ← hinbox, hrecv]
      exact ⟨trivial, h.orderly, h.store, hvalid, congrArg (List.map OsMessage.letter) hmessages,
        h.recorded, h.net, h.timer, h.ticks⟩

/-! ### A sync -/

omit h in
/-- The appends of a sync. -/
theorem appendAll_receipts {fuel : ℕ} (hfuel : 0 < fuel) {receipts : List (List UInt8)}
    (hlen : ∀ r ∈ receipts, r.length < 2 ^ 32) {s : FatState} (hs : s.Orderly count root)
    (hown : ¬ s.asStore.Foreign Service.ledgerName) :
    ∃ s', appendAll fuel (receipts.flatMap receiptCalls) s = some s' ∧ s'.Orderly count root ∧
      s'.asStore = receipts.foldl Service.keepReceipt s.asStore := by
  have hname : ProperName ledgerLog := by decide
  induction receipts generalizing s with
  | nil => exact ⟨s, rfl, hs, rfl⟩
  | cons r receipts ih =>
      obtain ⟨s₁, h₁, hs₁, hstore₁⟩ :=
        hs.append (cString r) hfuel hname (hlen r List.mem_cons_self) hown
      have hown₁ : ¬ s₁.asStore.Foreign Service.ledgerName := by
        rw [hstore₁]
        exact Store.not_foreign_append hown
      obtain ⟨s₂, h₂, hs₂, hstore₂⟩ :=
        hs₁.append (cString (ascii "\n")) hfuel hname (by decide : (ascii "\n").length < 2 ^ 32) hown₁
      have hown₂ : ¬ s₂.asStore.Foreign Service.ledgerName := by
        rw [hstore₂]
        exact Store.not_foreign_append hown₁
      obtain ⟨s', hrest, hs', hstore⟩ := ih (fun r hr => hlen r (List.mem_cons_of_mem _ hr)) hs₂ hown₂
      refine ⟨s', ?_, hs', ?_⟩
      · rw [List.flatMap_cons, receiptCalls, List.cons_append, List.cons_append, List.nil_append,
          appendAll, h₁, Option.bind_some, appendAll, h₂, Option.bind_some, hrest]
      · rw [hstore, List.foldl_cons, hstore₂, hstore₁]
        rfl

/-- **A sync** stores the pending receipts. -/
theorem KernelState.Serves.sync {fuel : ℕ} (hfuel : 0 < fuel)
    (hown : ¬ sv.store.Foreign Service.ledgerName) :
    ∃ k', syncToDisk fuel k = (.ok (), k') ∧ k'.Serves count root sv.sync := by
  have hlen : ∀ r ∈ receiptsFrom sv.trail sv.cursor, r.length < 2 ^ 32 := by
    intro r hr
    obtain ⟨e, he, rfl⟩ := List.mem_map.1 hr
    have hmem := List.mem_of_mem_drop (List.mem_of_mem_filter he)
    have hcontext := h.recorded.context_length e hmem
    omega
  rw [← h.store] at hown
  obtain ⟨fs, happend, horder, hstore⟩ := appendAll_receipts hfuel hlen h.orderly hown
  refine ⟨{ k with watcher := (watcherSyncToDisk k.watcher).1, fs := fs }, ?_, horder, ?_, h.valid,
    h.inbox, h.recorded.sync, h.net, h.timer, h.ticks⟩
  · have hw : watcherSyncToDisk k.watcher = ((watcherSyncToDisk k.watcher).1,
        (receiptsFrom sv.trail sv.cursor).flatMap receiptCalls) :=
      Prod.ext rfl h.recorded.sync_calls
    simp only [syncToDisk]
    rw [hw]
    simp only [happend]
  · rw [hstore, h.store, Service.sync]

/-! ### An execution -/

omit h in
/-- A call of the contract engine that comes back. -/
theorem onHost_of_ok {α : Type} {x : Comp Host α} {a : α} {host : Host}
    (hx : x k.toHost = (.ok a, host)) : onHost x k = (.ok a, { k with toHost := host }) := by
  rw [onHost, hx]

/-- **An execution** of the text of a file. -/
theorem KernelState.Serves.execute (fmtValue : Value → List Char) {fuel : ℕ} {source : List Char}
    (hends : Service.Ends fuel source sv.net) {file : Buf} (hfile : sourceText (some file) 256 = source)
    (outBuf : Buf) :
    ∃ gas out k', onHost (autarkyExecute fmtValue fuel (some file) outBuf 256) k = (.ok (gas, out), k') ∧
      text out 255 = Service.outText outBuf (sv.execute fmtValue fuel source).1 ∧
      k'.Serves count root (sv.execute fmtValue fuel source).2 := by
  subst hfile
  by_cases hreject : ∀ ast, compile (sourceText (some file) 256) ≠ .ok ast
  · rw [Service.execute_of_rejected hreject]
    exact ⟨_, _, k, onHost_of_ok (autarkyExecute_of_rejected hreject), rfl, h⟩
  · obtain ⟨ast, hc⟩ := not_forall_not.1 hreject
    have hend := hends ast hc
    rw [Service.execute_of_compile hc]
    rcases hv : evaluate fuel seededEnv (eraseProofs ast) sv.net with ⟨o, net⟩
    rw [hv] at hend
    rw [← h.net] at hv
    rcases hend with ⟨val, rfl⟩ | ⟨msg, rfl⟩
    · have hrun := @autarkyExecute_of_ok fmtValue _ _ outBuf _ _ _ _ _ hc hv
      refine ⟨_, _, _, onHost_of_ok hrun, text_copyOut _ 256 outBuf, h.orderly, h.store, h.valid,
        h.inbox, ?_, rfl, funext fun n => congrFun h.timer (n + 2), fun n => h.ticks (n + 2)⟩
      have hlog := h.recorded.log .ledgerCommit 0 (some (cString (receiptContext
        (generateTxId (sourceText (some file) 256) val.volume (k.timer 0)) val.volume))) (h.ticks 1)
      rw [h.timer] at hlog ⊢
      exact hlog
    · have hrun := @autarkyExecute_of_err fmtValue _ _ outBuf _ _ _ _ _ hc hv
      exact ⟨_, _, _, onHost_of_ok hrun, text_copyOut _ 256 outBuf, h.orderly, h.store, h.valid,
        h.inbox, h.recorded, rfl, h.timer, h.ticks⟩

end

/-! ### The requests -/

/-- The kernel answers the request as the service does, and is then in its state. -/
def KernelState.Handles (k : KernelState) (fmtValue : Value → List Char) (fuel : ℕ) (loc : Locals)
    (inMsg : OsMessage) (count : ℕ) (root : List ℕ) (sv : Service) : Prop :=
  ∃ reply k', handleRequest fmtValue fuel loc inMsg k = (.ok reply, k') ∧
    reply.map OsMessage.letter = (sv.request fmtValue fuel loc inMsg).1 ∧
    k'.Serves count root (sv.request fmtValue fuel loc inMsg).2

section
variable {fmtValue : Value → List Char} {fuel : ℕ} {loc : Locals} {inMsg : OsMessage}
  {k : KernelState} {count : ℕ} {root : List ℕ} {sv : Service}

/-- A reply with the text of the answer. -/
theorem KernelState.Handles.of_reply (src : Buf) {type : IpcMsg} {answer : List UInt8}
    {k' : KernelState} {sv' : Service}
    (hreply : handleRequest fmtValue fuel loc inMsg k =
      (.ok (some (withText (replyTo inMsg type loc) src)), k'))
    (hanswer : sv.request fmtValue fuel loc inMsg = (some (answerTo inMsg type answer), sv'))
    (htext : text src 255 = answer) (h : k'.Serves count root sv') :
    k.Handles fmtValue fuel loc inMsg count root sv := by
  subst htext
  refine ⟨_, k', hreply, ?_, ?_⟩
  · rw [hanswer, Option.map_some, letter_withText]
  · rwa [hanswer]

variable (h : k.Serves count root sv)
include h

theorem KernelState.Serves.handles_list (ht : inMsg.type = .fsListReq) :
    k.Handles fmtValue fuel loc inMsg count root sv := by
  have hlist := h.orderly.list (by omega : 208 < 256) (by omega : 208 ≤ 255) loc.dirBuf
  rw [h.store] at hlist
  have hlog := h.logged .fsRead inMsg.senderId (cString (ascii "ROOT_DIR"))
  rw [text_cString (by decide)] at hlog
  exact .of_reply _ (handleRequest_list ht) (Service.request_list ht) hlist
    (hlog.unchanged (list_unchanged loc.dirBuf 256 k.fs) (fsStep_later k.fs (.list loc.dirBuf 256)))

theorem KernelState.Serves.handles_read (ht : inMsg.type = .fsReadReq)
    (hname : ProperName (stringAt inMsg.payload))
    (hown : ¬ sv.store.Foreign (formatFatName (stringAt inMsg.payload))) :
    k.Handles fmtValue fuel loc inMsg count root sv := by
  rw [← h.store] at hown
  have hread := h.orderly.read hname hown (by omega : 16 < 256) (by omega : 255 < 256)
    (by omega) loc.fileBuf
  rw [h.store] at hread
  have hlog := h.logged .fsRead inMsg.senderId inMsg.payload
  exact .of_reply _ (handleRequest_read ht) (Service.request_read ht) hread
    (hlog.unchanged (read_unchanged _ loc.fileBuf 256 k.fs) (read_later loc.fileBuf 256))

theorem KernelState.Serves.handles_write (ht : inMsg.type = .fsWriteReq)
    (hname : ProperName (stringAt inMsg.payload)) :
    k.Handles fmtValue fuel loc inMsg count root sv := by
  have hlen : writeLength inMsg < 2 ^ 32 := Nat.mod_lt _ (by omega)
  have hstore := @FatState.Orderly.asStore_write _ _ _ _ _ (writeData inMsg) h.orderly hname hlen
  rw [h.store] at hstore
  have hfs := (h.logged .fsWrite inMsg.senderId inMsg.payload).withFs
    (@FatState.Orderly.write _ _ _ _ _ (writeData inMsg) h.orderly hname hlen)
  rw [hstore] at hfs
  have htext : text (cString writeCommitted) 255 = writeCommitted := by
    rw [text_cString (by decide)]
    rfl
  exact .of_reply _ (handleRequest_write ht) (Service.request_write ht) htext hfs

theorem KernelState.Serves.handles_exec (ht : inMsg.type = .atkExecReq)
    (hname : ProperName (stringAt inMsg.payload))
    (hown : ¬ sv.store.Foreign (formatFatName (stringAt inMsg.payload)))
    (hends : Service.Ends fuel (sv.source inMsg) sv.net) :
    k.Handles fmtValue fuel loc inMsg count root sv := by
  rw [← h.store] at hown
  have hread := h.orderly.read hname hown (by omega : 16 < 1024) (by omega : 256 < 1024)
    (by omega) loc.fileBuf
  rw [h.store] at hread
  have hlog := (h.logged .fsRead inMsg.senderId inMsg.payload).unchanged
    (read_unchanged (stringAt inMsg.payload) loc.fileBuf 1024 k.fs) (read_later loc.fileBuf 1024)
  have hfile : sourceText (some (fsReadFileContent (stringAt inMsg.payload) loc.fileBuf 1024
      k.fs).1) 256 = sv.source inMsg := congrArg trimmed hread
  obtain ⟨gas, out, k', hrun, htext, hserves⟩ :=
    hlog.execute fmtValue hends hfile loc.outBuf
  refine .of_reply _ ((handleRequest_exec ht).trans ?_) (Service.request_exec ht) htext hserves
  rw [Comp.bind_of_ok hrun]
  rfl

theorem KernelState.Serves.handles_dump (ht : inMsg.type = .watcherDumpReq) :
    k.Handles fmtValue fuel loc inMsg count root sv := by
  have htext : text (cString watcherDumped) 255 = watcherDumped := by
    rw [text_cString (by decide)]
    rfl
  refine .of_reply (cString watcherDumped) ?_ (Service.request_dump ht) htext h
  rw [handleRequest, ht]
  rfl

theorem KernelState.Serves.handles_sync (hfuel : 0 < fuel) (ht : inMsg.type = .watcherSyncReq)
    (hown : ¬ sv.store.Foreign Service.ledgerName) :
    k.Handles fmtValue fuel loc inMsg count root sv := by
  have htext : text (cString ledgerPersisted) 255 = ledgerPersisted := by
    rw [text_cString (by decide)]
    rfl
  obtain ⟨k', hsync, hserves⟩ := h.sync hfuel hown
  refine .of_reply (cString ledgerPersisted) ?_ (Service.request_sync ht) htext hserves
  rw [handleRequest, ht]
  exact Comp.bind_of_ok hsync _

/-- **A request** that is admitted is answered as by the service. -/
theorem KernelState.Serves.handles (hfuel : 0 < fuel) (hok : sv.AdmitsRequest fuel inMsg) :
    k.Handles fmtValue fuel loc inMsg count root sv := by
  rw [Service.AdmitsRequest] at hok
  cases ht : inMsg.type with
  | fsListReq => exact h.handles_list ht
  | fsReadReq =>
      rw [ht] at hok
      exact h.handles_read ht hok.1 hok.2
  | fsWriteReq =>
      rw [ht] at hok
      exact h.handles_write ht hok
  | atkExecReq =>
      rw [ht] at hok
      exact h.handles_exec ht hok.1 hok.2.1 hok.2.2
  | watcherDumpReq => exact h.handles_dump ht
  | watcherSyncReq =>
      rw [ht] at hok
      exact h.handles_sync hfuel ht hok
  | _ =>
      refine ⟨none, k, by rw [handleRequest, ht]; rfl, by rw [Service.request, ht]; rfl, ?_⟩
      rw [Service.request, ht]
      exact h

omit h in
/-- A request whose handler comes back with a reply or none. -/
theorem kernelCall_request {reply : Option OsMessage} {k' : KernelState}
    (htarget : inMsg.targetId = sysModKernel)
    (hreply : handleRequest fmtValue fuel loc inMsg k = (.ok reply, k')) :
    kernelCall fmtValue fuel k (.send loc inMsg) =
      (.ok none, reply.elim k' fun msg => { k' with ipc := ipcKernelSend msg k'.ipc }) := by
  rw [kernelCall, sysIpcSend, if_pos htarget, Comp.bind_apply, Comp.bind_of_ok hreply]
  cases reply <;> rfl

/-- **A message** is delivered, or answered. -/
theorem KernelState.Serves.send (hfuel : 0 < fuel) (hok : sv.Admits fuel (.send loc inMsg)) :
    (kernelCall fmtValue fuel k (.send loc inMsg)).1 = (sv.step fmtValue fuel (.send loc inMsg)).1 ∧
      (kernelCall fmtValue fuel k (.send loc inMsg)).2.Serves count root
        (sv.step fmtValue fuel (.send loc inMsg)).2 := by
  by_cases htarget : inMsg.targetId = sysModKernel
  · have hhandles : k.Handles fmtValue fuel loc inMsg count root sv := h.handles hfuel (hok htarget)
    obtain ⟨reply, k', hreply, hletter, hserves⟩ := hhandles
    rw [kernelCall_request htarget hreply, Service.step, if_pos htarget]
    refine ⟨rfl, ?_⟩
    simp only [← hletter]
    cases reply with
    | none => exact hserves
    | some msg => exact hserves.deliver msg
  · rw [kernelCall, sysIpcSend, Service.step, if_neg htarget, if_neg htarget]
    exact ⟨rfl, h.deliver inMsg⟩

end

/-! ### Runs -/

/-- **The kernel simulates the service.** -/
theorem kernel_serves (fmtValue : Value → List Char) {fuel : ℕ} (hfuel : 0 < fuel) (count : ℕ)
    (root : List ℕ) :
    Simulation (kernelCall fmtValue fuel) (Service.step fmtValue fuel) (Service.Admits fuel)
      (fun k sv => k.Serves count root sv) where
  answer k sv call h hok := by
    cases call with
    | send loc inMsg => exact (h.send hfuel hok).1
    | receive buffer => exact (h.receive fmtValue fuel buffer).1
  next k sv call h hok := by
    cases call with
    | send loc inMsg => exact (h.send hfuel hok).2
    | receive buffer => exact (h.receive fmtValue fuel buffer).2

/-- **Runs of system calls.**  A kernel in the state of the service answers every run of calls that
is admitted as the service does, and is then in the state that this is in. -/
theorem kernel_answers (fmtValue : Value → List Char) {fuel : ℕ} (hfuel : 0 < fuel) {count : ℕ}
    {root : List ℕ} {k : KernelState} {sv : Service} (h : k.Serves count root sv)
    (calls : List KernelCall)
    (hok : StepsMeet (Runs.next (Service.step fmtValue fuel)) (Service.Admits fuel) sv calls) :
    answers (kernelCall fmtValue fuel) k calls = answers (Service.step fmtValue fuel) sv calls ∧
      (run (Runs.next (kernelCall fmtValue fuel)) k calls).Serves count root
        (run (Runs.next (Service.step fmtValue fuel)) sv calls) :=
  (kernel_serves fmtValue hfuel count root).run h hok

/-- **A kernel after its boot**: the watcher is initialised, the mailbox is empty. -/
theorem KernelState.serves_boot {k : KernelState} {count : ℕ} {root : List ℕ}
    (h : k.fs.Orderly count root) {w : WatcherState} (hw : k.watcher = watcherInit w)
    (hhead : k.ipc.head = 0) (htail : k.ipc.tail = 0) (hticks : ∀ n, k.timer n ≠ 0) :
    k.Serves count root (.boot k.fs.asStore k.net k.timer) where
  orderly := h
  store := rfl
  valid := ⟨by rw [hhead, ipcQueueSize]; omega, by rw [htail, ipcQueueSize]; omega⟩
  inbox := by
    rw [Mailbox.messages, hhead, htail, Rings.between_self]
    rfl
  recorded := by
    rw [hw]
    exact recorded_init w
  net := rfl
  timer := rfl
  ticks := hticks

/-- A message of no bytes. -/
def blankMessage (target : ℕ) (type : IpcMsg) : OsMessage :=
  ⟨sysModGuiShell, target, type, 0, fun _ => 0⟩

/-- A listing, a message to the shell, and what is received. -/
def listAndReceive : List KernelCall :=
  [.send ⟨fun _ => 0, fun _ => 0, fun _ => 0, fun _ => 0⟩ (blankMessage sysModKernel .fsListReq),
    .send ⟨fun _ => 0, fun _ => 0, fun _ => 0, fun _ => 0⟩ (blankMessage sysModGuiShell .keyPress),
    .receive (blankMessage 0 .none), .receive (blankMessage 0 .none),
    .receive (blankMessage 0 .none)]

theorem listAndReceive_admitted (fmtValue : Value → List Char) (fuel : ℕ) (sv : Service) :
    StepsMeet (Runs.next (Service.step fmtValue fuel)) (Service.Admits fuel) sv listAndReceive :=
  ⟨fun _ => trivial, fun hne => absurd hne (by decide), trivial, trivial, trivial, trivial⟩

/-- A kernel to run. -/
theorem serves_kernelOn {fs : FatState} {count : ℕ} {root : List ℕ} (h : fs.Orderly count root) :
    (kernelOn fs).Serves count root (.boot fs.asStore idleHost.net idleHost.timer) :=
  KernelState.serves_boot h rfl rfl rfl fun _ => (by decide : (1 : UInt64) ≠ 0)

/-- On the volume with one file. -/
theorem listed_and_received :
    answers (kernelCall (fun _ => []) 1) (kernelOn (oneFileVolume (ascii "A") (ascii "hi")))
        listAndReceive =
      [.ok none, .ok none,
        .ok (some ⟨sysModKernel, sysModGuiShell, .fsListResp, 3, ascii "A\n"⟩),
        .ok (some ⟨sysModGuiShell, sysModGuiShell, .keyPress, 0, []⟩),
        .ok (some ⟨sysModGuiShell, 0, .none, 0, []⟩)] := by
  have h : (oneFileVolume (ascii "A") (ascii "hi")).Consistent 126 [2] :=
    oneFileVolume_consistent (by decide)
  refine (kernel_answers (fun _ => []) Nat.one_pos (serves_kernelOn (h.orderly fun _ => rfl))
    listAndReceive (listAndReceive_admitted _ _ _)).1.trans ?_
  decide +kernel

end Kernel
end AiOsExchange
