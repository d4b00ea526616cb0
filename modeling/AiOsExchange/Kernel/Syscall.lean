/-
# Requests to the kernel

The branch `SYS_IPC_SEND` of `syscall_handler` (`kernel/syscall.c`).  A message to the kernel is
a request; the kernel logs it, calls the file system, the contract engine or the watcher, and
sends a reply.

| request | calls | reply |
| --- | --- | --- |
| `FS_LIST_REQ` | `fs_get_dir_list(dir_buf, 256)` | the list |
| `FS_READ_REQ` | `fs_read_file_content(name, file_buf, 256)` | the content |
| `FS_WRITE_REQ` | `fs_write_file_content(name, data, data_len)` | a fixed text |
| `ATK_EXEC_REQ` | `fs_read_file_content(name, file_buf, 1024)`, `autarky_execute(file_buf, out_buf, 256)` | the answer |
| `WATCHER_DUMP_REQ`, `WATCHER_SYNC_REQ` | the watcher | a fixed text |

The handler's local buffers hold whatever was on the stack before (`Locals`).  A file name is
the string at the start of the payload; the scan for its end stops at nothing but a NUL.
-/

import AiOsExchange.Autarky.Execute
import AiOsExchange.Fat32.Files
import AiOsExchange.Kernel.Ipc

namespace AiOsExchange
namespace Kernel

open CMemory Computations Watcher Fat32 Autarky

/-- The state of the kernel. -/
structure KernelState extends Host where
  fs : FatState
  ipc : Mailbox

/-- What is on the stack where the handler puts `dir_buf`, `file_buf`, `out_buf` and the payload
of `out_msg`. -/
structure Locals where
  dirBuf : Buf
  fileBuf : Buf
  outBuf : Buf
  outPayload : Buf

/-- The string at an address; the bound is the end of memory. -/
def stringAt (b : Buf) : List UInt8 := text b (2 ^ 32)

/-- `watcher_log_event(type, pid, context)`, which reads the timer. -/
def logEvent (type : WatcherEventType) (pid : ℕ) (context : Buf) : Comp KernelState Unit := fun k =>
  (.ok (), { k with
    timer := fun n => k.timer (n + 1)
    watcher := watcherLogEvent type (UInt32.ofNat pid) (some context) (k.timer 0) k.watcher })

/-- A call of the file system. -/
def onFs {α : Type} (f : FatState → α × FatState) : Comp KernelState α := fun k =>
  (.ok (f k.fs).1, { k with fs := (f k.fs).2 })

/-- A call of the contract engine. -/
def onHost {α : Type} (x : Comp Host α) : Comp KernelState α := fun k =>
  ((x k.toHost).1, { k with toHost := (x k.toHost).2 })

/-- The appends of a ledger sync, one after the other. -/
def appendAll (fuel : ℕ) : List AppendCall → FatState → Option FatState
  | [], s => some s
  | call :: calls, s =>
      (fsAppendFileContent fuel call.filename (cString call.data) call.data.length s).bind
        (appendAll fuel calls)

/-- `watcher_sync_to_disk` on the file system. -/
def syncToDisk (fuel : ℕ) : Comp KernelState Unit := fun k =>
  let (w, calls) := watcherSyncToDisk k.watcher
  match appendAll fuel calls k.fs with
  | some fs => (.ok (), { k with watcher := w, fs := fs })
  | none => (.more, k)

/-- The reply to a request, its payload still to be filled. -/
def replyTo (inMsg : OsMessage) (type : IpcMsg) (loc : Locals) : OsMessage where
  senderId := sysModKernel
  targetId := inMsg.senderId
  type := type
  length := 0
  payload := loc.outPayload

/-- `"Write committed to disk.\n"`. -/
def writeCommitted : List UInt8 := ascii "Write committed to disk.\n"

/-- `"Watcher memory dumped to host UART terminal.\n"`. -/
def watcherDumped : List UInt8 := ascii "Watcher memory dumped to host UART terminal.\n"

/-- `"Ledger persisted to LEDGER.LOG\n"`. -/
def ledgerPersisted : List UInt8 := ascii "Ledger persisted to LEDGER.LOG\n"

/-- The data of a write request: what follows the NUL of the name. -/
def writeData (inMsg : OsMessage) : Buf := fun i =>
  inMsg.payload ((stringAt inMsg.payload).length + 1 + i)

/-- Its length, `in_msg->length - (uint32_t)(data - payload)`. -/
def writeLength (inMsg : OsMessage) : ℕ :=
  (inMsg.length + 2 ^ 32 - ((stringAt inMsg.payload).length + 1) % 2 ^ 32) % 2 ^ 32

/-- The reply to a message sent to the kernel; no reply to what is no request. -/
def handleRequest (fmtValue : Value → List Char) (fuel : ℕ) (loc : Locals) (inMsg : OsMessage) :
    Comp KernelState (Option OsMessage) :=
  match inMsg.type with
  | .fsListReq => do
      logEvent .fsRead inMsg.senderId (cString (ascii "ROOT_DIR"))
      let dirBuf ← onFs (fsGetDirList loc.dirBuf 256)
      pure (some (withText (replyTo inMsg .fsListResp loc) dirBuf))
  | .fsReadReq => do
      logEvent .fsRead inMsg.senderId inMsg.payload
      let fileBuf ← onFs (fsReadFileContent (stringAt inMsg.payload) loc.fileBuf 256)
      pure (some (withText (replyTo inMsg .fsReadResp loc) fileBuf))
  | .fsWriteReq => do
      logEvent .fsWrite inMsg.senderId inMsg.payload
      onFs fun s =>
        ((), fsWriteFileContent (stringAt inMsg.payload) (writeData inMsg) (writeLength inMsg) s)
      pure (some (withText (replyTo inMsg .fsWriteResp loc) (cString writeCommitted)))
  | .atkExecReq => do
      logEvent .fsRead inMsg.senderId inMsg.payload
      let fileBuf ← onFs (fsReadFileContent (stringAt inMsg.payload) loc.fileBuf 1024)
      let (_, outBuf) ← onHost (autarkyExecute fmtValue fuel (some fileBuf) loc.outBuf 256)
      pure (some (withText (replyTo inMsg .atkExecResp loc) outBuf))
  | .watcherDumpReq =>
      pure (some (withText (replyTo inMsg .watcherDumpResp loc) (cString watcherDumped)))
  | .watcherSyncReq => do
      syncToDisk fuel
      pure (some (withText (replyTo inMsg .watcherSyncResp loc) (cString ledgerPersisted)))
  | _ => pure none

/-- `ipc_kernel_send` on the kernel's mailbox. -/
def sendMessage (msg : OsMessage) : Comp KernelState Unit := fun k =>
  (.ok (), { k with ipc := ipcKernelSend msg k.ipc })

/-- `SYS_IPC_SEND`: a request is answered, any other message goes to the mailbox. -/
def sysIpcSend (fmtValue : Value → List Char) (fuel : ℕ) (loc : Locals) (inMsg : OsMessage) :
    Comp KernelState Unit :=
  if inMsg.targetId = sysModKernel then do
    let reply ← handleRequest fmtValue fuel loc inMsg
    match reply with
    | some msg => sendMessage msg
    | none => pure ()
  else sendMessage inMsg

/-! ### The outcomes of the requests -/

section
variable {fmtValue : Value → List Char} {fuel : ℕ} {loc : Locals} {msg : OsMessage}
  {k : KernelState}

/-- The kernel once the request is in the watcher's history. -/
def KernelState.logged (k : KernelState) (type : WatcherEventType) (pid : ℕ) (context : Buf) :
    KernelState :=
  { k with
    timer := fun n => k.timer (n + 1)
    watcher := watcherLogEvent type (UInt32.ofNat pid) (some context) (k.timer 0) k.watcher }

theorem handleRequest_list (h : msg.type = .fsListReq) :
    handleRequest fmtValue fuel loc msg k =
      (.ok (some (withText (replyTo msg .fsListResp loc) (fsGetDirList loc.dirBuf 256 k.fs).1)),
        { k.logged .fsRead msg.senderId (cString (ascii "ROOT_DIR")) with
          fs := (fsGetDirList loc.dirBuf 256 k.fs).2 }) := by
  rw [handleRequest, h]
  rfl

theorem handleRequest_read (h : msg.type = .fsReadReq) :
    handleRequest fmtValue fuel loc msg k =
      (.ok (some (withText (replyTo msg .fsReadResp loc)
          (fsReadFileContent (stringAt msg.payload) loc.fileBuf 256 k.fs).1)),
        { k.logged .fsRead msg.senderId msg.payload with
          fs := (fsReadFileContent (stringAt msg.payload) loc.fileBuf 256 k.fs).2 }) := by
  rw [handleRequest, h]
  rfl

theorem handleRequest_write (h : msg.type = .fsWriteReq) :
    handleRequest fmtValue fuel loc msg k =
      (.ok (some (withText (replyTo msg .fsWriteResp loc) (cString writeCommitted))),
        { k.logged .fsWrite msg.senderId msg.payload with
          fs := fsWriteFileContent (stringAt msg.payload) (writeData msg) (writeLength msg) k.fs }) := by
  rw [handleRequest, h]
  rfl

theorem handleRequest_exec (h : msg.type = .atkExecReq) :
    handleRequest fmtValue fuel loc msg k =
      (onHost (autarkyExecute fmtValue fuel
          (some (fsReadFileContent (stringAt msg.payload) loc.fileBuf 1024 k.fs).1) loc.outBuf 256) >>=
        fun r => pure (some (withText (replyTo msg .atkExecResp loc) r.2)))
        { k.logged .fsRead msg.senderId msg.payload with
          fs := (fsReadFileContent (stringAt msg.payload) loc.fileBuf 1024 k.fs).2 } := by
  rw [handleRequest, h]
  rfl

end

/-! ### A kernel to run -/

/-- A volume with an empty root directory in cluster 2 and one sector a cluster: the FAT in
sector 1, cluster `c` in sector `c`. -/
def blankVolume : FatState where
  bytesPerCluster := 512
  fatStartSector := 1
  dataStartSector := 2
  rootDirCluster := 2
  maxValidClusters := 1000
  diskBuffer := fun _ => 0
  writeBuffer := fun _ => 0
  disk := fun n k => if n = 1 ∧ k.val < 12 then 0xFF else 0
  io := fun _ => true

/-- A kernel that has just mounted this volume. -/
def kernelOn (fs : FatState) : KernelState where
  toHost := idleHost
  fs := fs
  ipc := ⟨fun _ => ⟨0, 0, .none, 0, fun _ => 0⟩, 0, 0⟩

end Kernel
end AiOsExchange
