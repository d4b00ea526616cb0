/-
# The kernel as a service

What the system calls of `kernel/syscall.c` that pass messages are for, apart from the volume, the
rings and the buffers they work on.  The service has a store of files, the trail of all events with
the number of the first that no sync has looked at, and an inbox of at most 255 letters.

| a message to the kernel | event | store | answer |
| --- | --- | --- | --- |
| `FS_LIST_REQ` | `FS_READ` of `ROOT_DIR` | | the lines |
| `FS_READ_REQ` | `FS_READ` of the name | | the text of the file |
| `FS_WRITE_REQ` | `FS_WRITE` of the name | a new file | a fixed text |
| `ATK_EXEC_REQ` | `FS_READ` of the name, and a receipt | | the value or the fault |
| `WATCHER_DUMP_REQ` | | | a fixed text |
| `WATCHER_SYNC_REQ` | | the pending receipts | a fixed text |

An answer goes to the inbox, and so does a message to any other module.  What the service shows of
the kernel's stack is the answer to a request that executes no program.
-/

import AiOsExchange.Fat32.Store
import AiOsExchange.Kernel.Syscall
import AiOsExchange.Watcher.Trail

namespace AiOsExchange
namespace Kernel

open CMemory Computations Watcher Fat32 Autarky

/-! ### Letters and calls -/

/-- What the receiver of a message has of it. -/
structure Letter where
  senderId : ℕ
  targetId : ℕ
  type : IpcMsg
  length : ℕ
  text : List UInt8
  deriving DecidableEq

/-- The letter in a message. -/
def OsMessage.letter (m : OsMessage) : Letter := ⟨m.senderId, m.targetId, m.type, m.length, m.text⟩

/-- `SYS_IPC_SEND` of a message, with what is on the kernel's stack, or `SYS_IPC_RECV` into a
buffer. -/
inductive KernelCall
  | send (loc : Locals) (inMsg : OsMessage)
  | receive (buffer : OsMessage)

/-- The answer to a request. -/
def answerTo (inMsg : OsMessage) (type : IpcMsg) (text : List UInt8) : Letter where
  senderId := sysModKernel
  targetId := inMsg.senderId
  type := type
  length := text.length + 1
  text := text

/-! ### The service -/

/-- The state of the service, with the network and the clock it uses up. -/
structure Service where
  store : Store
  trail : List Entry
  cursor : ℕ
  inbox : List Letter
  net : Net
  timer : ℕ → UInt64

namespace Service

/-- The name of the ledger on the volume. -/
def ledgerName : List UInt8 := formatFatName ledgerLog

/-- A letter is put in the inbox if there is room. -/
def deliver (letter : Letter) (sv : Service) : Service :=
  { sv with inbox := if sv.inbox.length < 255 then sv.inbox ++ [letter] else sv.inbox }

/-- An event comes to the trail. -/
def note (e : Entry) (sv : Service) : Service :=
  { sv with trail := sv.trail ++ [e], cursor := nextCursor sv.trail.length sv.cursor }

/-- The clock has been read `n` times. -/
def tick (n : ℕ) (sv : Service) : Service := { sv with timer := fun i => sv.timer (i + n) }

/-- The event of a request. -/
def logged (type : WatcherEventType) (pid : ℕ) (context : List UInt8) (sv : Service) : Service :=
  (sv.note ⟨type, UInt32.ofNat pid, context⟩).tick 1

/-- A receipt is stored: its text and a newline. -/
def keepReceipt (store : Store) (receipt : List UInt8) : Store :=
  (store.append ledgerName (cString receipt) receipt.length).append ledgerName (cString (ascii "\n"))
    (ascii "\n").length

/-- The pending receipts are stored. -/
def sync (sv : Service) : Service :=
  { sv with
    store := (receiptsFrom sv.trail sv.cursor).foldl keepReceipt sv.store
    cursor := sv.trail.length }

/-- The text that a program is made of. -/
def source (inMsg : OsMessage) (sv : Service) : List Char :=
  trimmed (sv.store.read (formatFatName (stringAt inMsg.payload)) 256)

/-- The receipt of an execution that ended with `val`. -/
def receiptEntry (source : List Char) (val : Value) (nonce : UInt64) : Entry where
  type := .ledgerCommit
  processId := 0
  context := keptText
    (some (cString (receiptContext (generateTxId source val.volume nonce) val.volume)))

/-- What is left of the evaluation of a program: a receipt if it ends with a value. -/
def evaluated (fmtValue : Value → List Char) (source : List Char) (sv : Service) :
    Out Value × Net → Option (List UInt8) × Service
  | (.ok val, net) =>
      (some (matchedBytes fmtValue val),
        ({ sv with net := net }.note (receiptEntry source val (sv.timer 0))).tick 2)
  | (.err msg, net) => (some (faultBytes msg), { sv with net := net })
  | (_, _) => (none, sv)

/-- An execution; a text that is no program has no answer. -/
def execute (fmtValue : Value → List Char) (fuel : ℕ) (source : List Char) (sv : Service) :
    Option (List UInt8) × Service :=
  match compile source with
  | .ok ast => evaluated fmtValue source sv (evaluate fuel seededEnv (eraseProofs ast) sv.net)
  | _ => (none, sv)

section
variable {fmtValue : Value → List Char} {fuel : ℕ} {source : List Char} {sv : Service} {ast : Expr}
  {net : Net}

/-- A text that is no program is not executed. -/
theorem execute_of_rejected (h : ∀ ast, compile source ≠ .ok ast) :
    sv.execute fmtValue fuel source = (none, sv) := by
  rw [execute]
  split
  · exact absurd ‹_› (h _)
  · rfl

/-- A program is executed by its evaluation. -/
theorem execute_of_compile (h : compile source = .ok ast) :
    sv.execute fmtValue fuel source =
      evaluated fmtValue source sv (evaluate fuel seededEnv (eraseProofs ast) sv.net) := by
  rw [execute, h]

end

/-- The text of an answer in the handler's buffer, or what was there before. -/
def outText (outBuf : Buf) : Option (List UInt8) → List UInt8
  | some bytes => (bytes.take 255).takeWhile (· ≠ 0)
  | none => text outBuf 255

/-- A request. -/
def request (fmtValue : Value → List Char) (fuel : ℕ) (loc : Locals) (inMsg : OsMessage)
    (sv : Service) : Option Letter × Service :=
  match inMsg.type with
  | .fsListReq =>
      (some (answerTo inMsg .fsListResp sv.store.list),
        sv.logged .fsRead inMsg.senderId (ascii "ROOT_DIR"))
  | .fsReadReq =>
      (some (answerTo inMsg .fsReadResp
          (sv.store.read (formatFatName (stringAt inMsg.payload)) 255)),
        sv.logged .fsRead inMsg.senderId (text inMsg.payload 63))
  | .fsWriteReq =>
      (some (answerTo inMsg .fsWriteResp writeCommitted),
        { sv.logged .fsWrite inMsg.senderId (text inMsg.payload 63) with
          store := sv.store.write (formatFatName (stringAt inMsg.payload)) (writeData inMsg)
            (writeLength inMsg) })
  | .atkExecReq =>
      let r := execute fmtValue fuel (sv.source inMsg)
        (sv.logged .fsRead inMsg.senderId (text inMsg.payload 63))
      (some (answerTo inMsg .atkExecResp (outText loc.outBuf r.1)), r.2)
  | .watcherDumpReq => (some (answerTo inMsg .watcherDumpResp watcherDumped), sv)
  | .watcherSyncReq => (some (answerTo inMsg .watcherSyncResp ledgerPersisted), sv.sync)
  | _ => (none, sv)

section
variable {fmtValue : Value → List Char} {fuel : ℕ} {loc : Locals} {inMsg : OsMessage} {sv : Service}

theorem request_list (h : inMsg.type = .fsListReq) : sv.request fmtValue fuel loc inMsg =
    (some (answerTo inMsg .fsListResp sv.store.list),
      sv.logged .fsRead inMsg.senderId (ascii "ROOT_DIR")) := by
  rw [request, h]

theorem request_read (h : inMsg.type = .fsReadReq) : sv.request fmtValue fuel loc inMsg =
    (some (answerTo inMsg .fsReadResp
        (sv.store.read (formatFatName (stringAt inMsg.payload)) 255)),
      sv.logged .fsRead inMsg.senderId (text inMsg.payload 63)) := by
  rw [request, h]

theorem request_write (h : inMsg.type = .fsWriteReq) : sv.request fmtValue fuel loc inMsg =
    (some (answerTo inMsg .fsWriteResp writeCommitted),
      { sv.logged .fsWrite inMsg.senderId (text inMsg.payload 63) with
        store := sv.store.write (formatFatName (stringAt inMsg.payload)) (writeData inMsg)
          (writeLength inMsg) }) := by
  rw [request, h]

theorem request_exec (h : inMsg.type = .atkExecReq) : sv.request fmtValue fuel loc inMsg =
    (some (answerTo inMsg .atkExecResp (outText loc.outBuf (execute fmtValue fuel (sv.source inMsg)
        (sv.logged .fsRead inMsg.senderId (text inMsg.payload 63))).1)),
      (execute fmtValue fuel (sv.source inMsg)
        (sv.logged .fsRead inMsg.senderId (text inMsg.payload 63))).2) := by
  rw [request, h]

theorem request_dump (h : inMsg.type = .watcherDumpReq) : sv.request fmtValue fuel loc inMsg =
    (some (answerTo inMsg .watcherDumpResp watcherDumped), sv) := by
  rw [request, h]

theorem request_sync (h : inMsg.type = .watcherSyncReq) : sv.request fmtValue fuel loc inMsg =
    (some (answerTo inMsg .watcherSyncResp ledgerPersisted), sv.sync) := by
  rw [request, h]

end

/-- An execution does not look at the inbox, -/
theorem execute_inbox (fmtValue : Value → List Char) (fuel : ℕ) (source : List Char) (sv : Service)
    (inbox : List Letter) : ({ sv with inbox := inbox }).execute fmtValue fuel source =
      ((sv.execute fmtValue fuel source).1,
        { (sv.execute fmtValue fuel source).2 with inbox := inbox }) := by
  cases hc : compile source with
  | ok ast =>
      rw [execute_of_compile hc, execute_of_compile hc]
      rcases evaluate fuel seededEnv (eraseProofs ast) sv.net with ⟨_ | _ | _ | _, net⟩ <;> rfl
  | _ =>
      have hnot : ∀ ast, compile source ≠ .ok ast := by simp [hc]
      rw [execute_of_rejected hnot, execute_of_rejected hnot]

/-- and no request does. -/
theorem request_inbox (fmtValue : Value → List Char) (fuel : ℕ) (loc : Locals) (inMsg : OsMessage)
    (sv : Service) (inbox : List Letter) :
    ({ sv with inbox := inbox }).request fmtValue fuel loc inMsg =
      ((sv.request fmtValue fuel loc inMsg).1,
        { (sv.request fmtValue fuel loc inMsg).2 with inbox := inbox }) := by
  cases ht : inMsg.type with
  | fsListReq => rw [request_list ht, request_list ht]; rfl
  | fsReadReq => rw [request_read ht, request_read ht]; rfl
  | fsWriteReq => rw [request_write ht, request_write ht]; rfl
  | atkExecReq =>
      have hexec := execute_inbox fmtValue fuel (sv.source inMsg)
        (sv.logged .fsRead inMsg.senderId (text inMsg.payload 63)) inbox
      rw [request_exec ht, request_exec ht]
      exact congrArg (fun r : Option (List UInt8) × Service =>
        (some (answerTo inMsg .atkExecResp (outText loc.outBuf r.1)), r.2)) hexec
  | watcherDumpReq => rw [request_dump ht, request_dump ht]
  | watcherSyncReq => rw [request_sync ht, request_sync ht]; rfl
  | _ => simp only [request, ht]

/-- A call, with the letter that the caller gets. -/
def step (fmtValue : Value → List Char) (fuel : ℕ) (sv : Service) :
    KernelCall → Out (Option Letter) × Service
  | .send loc inMsg =>
      if inMsg.targetId = sysModKernel then
        let r := sv.request fmtValue fuel loc inMsg
        (.ok none, r.1.elim r.2 r.2.deliver)
      else (.ok none, sv.deliver inMsg.letter)
  | .receive buffer =>
      match sv.inbox with
      | [] => (.ok (some { buffer.letter with type := .none, length := 0 }), sv)
      | letter :: rest => (.ok (some letter), { sv with inbox := rest })

/-! ### What is admitted -/

/-- The evaluation of the program, if there is one, ends. -/
def Ends (fuel : ℕ) (source : List Char) (net : Net) : Prop :=
  ∀ ast, compile source = .ok ast → (evaluate fuel seededEnv (eraseProofs ast) net).1.Ended

/-- What a request has to observe.  A name must be one that a file can have, and what it leads to a
file of one cluster; the evaluation of a program ends. -/
def AdmitsRequest (fuel : ℕ) (sv : Service) (inMsg : OsMessage) : Prop :=
  let filename := stringAt inMsg.payload
  match inMsg.type with
  | .fsReadReq => ProperName filename ∧ ¬ sv.store.Foreign (formatFatName filename)
  | .fsWriteReq => ProperName filename
  | .atkExecReq =>
      ProperName filename ∧ ¬ sv.store.Foreign (formatFatName filename) ∧
        Ends fuel (sv.source inMsg) sv.net
  | .watcherSyncReq => ¬ sv.store.Foreign ledgerName
  | _ => True

/-- What a call has to observe: messages to other modules nothing. -/
def Admits (fuel : ℕ) (sv : Service) : KernelCall → Prop
  | .send _ inMsg => inMsg.targetId = sysModKernel → sv.AdmitsRequest fuel inMsg
  | .receive _ => True

/-- The service of a kernel that has just been booted. -/
def boot (store : Store) (net : Net) (timer : ℕ → UInt64) : Service := ⟨store, [], 0, [], net, timer⟩

end Service

end Kernel
end AiOsExchange
