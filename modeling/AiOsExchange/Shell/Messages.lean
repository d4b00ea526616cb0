/-
# The requests of the shell

`shell_main` of `modules/shell_gui/main.c` builds each request in a local message and sends it
to the kernel.

| typed or captured | request |
| --- | --- |
| `s.read <args>` | `readRequest` |
| `s.write <args>` | `writeRequest`, `args` split at the first blank by `splitArgs` |
| `atk.run <args>` | `execRequest` |
| a line of `trade.listen` | `tradeRequest` |

What was in the message before is the argument `pay`.  A command line has at most 255 bytes
(`CMD_MAX_LEN`), so `s.write` has 247 for its arguments; a captured line has at most 255 bytes,
of which 242 are sent.  A write request puts a name, a NUL and the data in the payload
(`fileRequest`), and the kernel takes them apart again.
-/

import AiOsExchange.Kernel.Syscall

namespace AiOsExchange
namespace Shell

open CMemory Kernel

/-! ### Building them -/

/-- A request with these bytes in its payload. -/
def requestOf (type : IpcMsg) (pay : Buf) (length : ℕ) (bytes : List UInt8) : OsMessage where
  senderId := sysModGuiShell
  targetId := sysModKernel
  type := type
  length := length
  payload := put pay 0 bytes

/-- A request that names a file: `args`, cut at 255 bytes. -/
def nameRequest (type : IpcMsg) (pay : Buf) (args : List UInt8) : OsMessage :=
  requestOf type pay ((args.take 255).length + 1) (args.take 255 ++ [0])

/-- The request of `s.read`. -/
def readRequest : Buf → List UInt8 → OsMessage := nameRequest .fsReadReq

/-- The request of `atk.run`. -/
def execRequest : Buf → List UInt8 → OsMessage := nameRequest .atkExecReq

/-- A write request with this name and data. -/
def fileRequest (pay : Buf) (filename data : List UInt8) : OsMessage :=
  requestOf .fsWriteReq pay (filename.length + 1 + data.length) (filename ++ [0] ++ data ++ [0])

/-- `shell_strchr(args, ' ')` and what is on its two sides; nothing without a blank. -/
def splitArgs (args : List UInt8) : Option (List UInt8 × List UInt8) :=
  if 32 ∈ args then some (args.takeWhile (· ≠ 32), (args.dropWhile (· ≠ 32)).drop 1) else none

/-- The request of `s.write`: the name cut at 255 bytes, the data where byte 254 is reached. -/
def writeRequest (pay : Buf) (filename data : List UInt8) : OsMessage :=
  let filename := filename.take 255
  fileRequest pay filename (data.take (254 - (filename.length + 1)))

/-- `file_trades`. -/
def fileTrades : List UInt8 := ascii "TRADES.LOG"

/-- The request of a captured line: the line where byte 253 is reached, and a newline. -/
def tradeRequest (pay : Buf) (line : List UInt8) : OsMessage :=
  fileRequest pay fileTrades (line.take (253 - (fileTrades.length + 1)) ++ [10])

/-! ### Taking them apart -/

section
variable {pay : Buf} {filename data args : List UInt8}

theorem stringAt_nameRequest (type : IpcMsg) (h0 : (0 : UInt8) ∉ args) (hl : args.length ≤ 255) :
    stringAt (nameRequest type pay args).payload = args := by
  rw [nameRequest, requestOf, List.take_of_length_le hl]
  exact text_put_append h0 (by omega) []

theorem stringAt_fileRequest (h0 : (0 : UInt8) ∉ filename) (hl : filename.length < 2 ^ 32) :
    stringAt (fileRequest pay filename data).payload = filename := by
  rw [fileRequest, requestOf, List.append_assoc, List.append_assoc]
  exact text_put_append h0 hl _

/-- **The kernel finds the data of a write request**, and its length. -/
theorem writeLength_fileRequest (h0 : (0 : UInt8) ∉ filename)
    (hl : filename.length + 1 + data.length < 2 ^ 32) :
    writeLength (fileRequest pay filename data) = data.length := by
  rw [writeLength, stringAt_fileRequest h0 (by omega), fileRequest, requestOf]
  simp only
  omega

theorem writeData_fileRequest (h0 : (0 : UInt8) ∉ filename) (hl : filename.length < 2 ^ 32) :
    bytesAt (writeData (fileRequest pay filename data)) 0 data.length = data := by
  have hmem : bytesAt (writeData (fileRequest pay filename data)) 0 data.length =
      bytesAt (put pay 0 (filename ++ [0] ++ data ++ [0])) (filename.length + 1) data.length := by
    rw [bytesAt, bytesAt]
    apply List.map_congr_left
    intro k _
    rw [writeData, stringAt_fileRequest h0 hl, Nat.zero_add]
    rfl
  have hpart := @bytesAt_put_part pay 0 (filename ++ [0] ++ data ++ [0]) (filename.length + 1)
    data.length (by simp; omega)
  rw [Nat.zero_add] at hpart
  rw [hmem, hpart, List.append_assoc, List.drop_left' (by simp), List.take_left' rfl]

theorem writeRequest_eq (hl : filename.length + 1 + data.length ≤ 254) :
    writeRequest pay filename data = fileRequest pay filename data := by
  simp only [writeRequest, List.take_of_length_le (show filename.length ≤ 255 by omega),
    List.take_of_length_le (show data.length ≤ 254 - (filename.length + 1) by omega)]

end

/-! ### The writes of the shell -/

/-- Arguments that can be typed behind `s.write `. -/
def Typed (args : List UInt8) : Prop := args.length ≤ 247 ∧ ∀ b ∈ args, b ∉ [0, 8, 10, 13]

/-- A line that `trade.listen` sends. -/
def Captured (line : List UInt8) : Prop :=
  line.length ≤ 255 ∧ line.head? = some 123 ∧ ∀ b ∈ line, b ∉ [0, 10, 13]

/-- What makes the shell send a write request. -/
inductive ShellWrite
  | command (args filename data : List UInt8) (typed : Typed args)
      (split : splitArgs args = some (filename, data))
  | trade (line : List UInt8) (captured : Captured line)

namespace ShellWrite

/-- The name it writes. -/
def filename : ShellWrite → List UInt8
  | .command _ filename _ _ _ => filename
  | .trade _ _ => fileTrades

/-- The data it writes. -/
def data : ShellWrite → List UInt8
  | .command _ _ data _ _ => data
  | .trade line _ => line.take 242 ++ [10]

/-- The request it sends. -/
def message (pay : Buf) : ShellWrite → OsMessage
  | .command _ filename data _ _ => writeRequest pay filename data
  | .trade line _ => tradeRequest pay line

theorem dropWhile_of_mem {args : List UInt8} {c : UInt8} (h : c ∈ args) :
    ∃ rest, args.dropWhile (· ≠ c) = c :: rest := by
  induction args with
  | nil => cases h
  | cons a args ih =>
      by_cases ha : a = c
      · exact ⟨args, by simp [ha]⟩
      · obtain ⟨rest, hr⟩ := ih ((List.mem_cons.1 h).resolve_left (Ne.symm ha))
        exact ⟨rest, by rw [List.dropWhile_cons_of_pos (by simpa using ha), hr]⟩

/-- The arguments have the name, the blank and the data. -/
theorem splitArgs_eq_some {args filename data : List UInt8}
    (h : splitArgs args = some (filename, data)) :
    (32 : UInt8) ∉ filename ∧ args = filename ++ 32 :: data := by
  rw [splitArgs] at h
  split_ifs at h with hb
  obtain ⟨rfl, rfl⟩ := Prod.mk.inj (Option.some.inj h)
  obtain ⟨rest, hr⟩ := dropWhile_of_mem hb
  constructor
  · intro hmem
    simpa using List.mem_takeWhile_imp hmem
  · conv_lhs => rw [← @List.takeWhile_append_dropWhile _ (· ≠ 32) args]
    rw [hr]
    rfl

variable (r : ShellWrite)

/-- The name and the data fit the payload. -/
theorem length_le : r.filename.length + 1 + r.data.length ≤ 254 := by
  cases r with
  | command args filename data typed split =>
      have hlen := typed.1
      rw [(splitArgs_eq_some split).2, List.length_append, List.length_cons] at hlen
      simp only [ShellWrite.filename, ShellWrite.data]
      omega
  | trade line captured =>
      have hname : fileTrades.length = 10 := by decide
      simp only [ShellWrite.filename, ShellWrite.data, hname, List.length_append, List.length_take,
        List.length_singleton]
      omega

/-- The shell's loops copy all of both. -/
theorem message_eq (pay : Buf) : r.message pay = fileRequest pay r.filename r.data := by
  cases r with
  | command args filename data typed split =>
      exact writeRequest_eq (ShellWrite.length_le (.command args filename data typed split))
  | trade line captured => rfl

/-- What can stand in a name. -/
theorem filename_typed : (32 : UInt8) ∉ r.filename ∧ ∀ b ∈ r.filename, b ∉ [0, 8, 10, 13] := by
  cases r with
  | command args filename data typed split =>
      obtain ⟨hb, rfl⟩ := splitArgs_eq_some split
      exact ⟨hb, fun b hmem => typed.2 b (List.mem_append_left _ hmem)⟩
  | trade line captured =>
      have hclean : ∀ b ∈ fileTrades, b ∉ [0, 8, 10, 13] := forall_mem_of_all (by decide)
      exact ⟨(by decide : (32 : UInt8) ∉ fileTrades), hclean⟩

theorem nul_not_mem_filename : (0 : UInt8) ∉ r.filename :=
  fun h => r.filename_typed.2 0 h (by decide)

theorem nul_not_mem_data : (0 : UInt8) ∉ r.data := by
  intro h
  cases r with
  | command args filename data typed split =>
      obtain ⟨-, rfl⟩ := splitArgs_eq_some split
      exact typed.2 0 (List.mem_append_right _ (List.mem_cons_of_mem _ h)) (by decide)
  | trade line captured =>
      rcases List.mem_append.1 h with hline | hnl
      · exact captured.2.2 0 (List.mem_of_mem_take hline) (by decide)
      · exact absurd hnl (by decide)

end ShellWrite

end Shell
end AiOsExchange
