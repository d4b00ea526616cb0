/-
# The bytes of a write request

`FS_WRITE_REQ` in `syscall_handler` (`kernel/syscall.c`).  The payload of a message is the name of
the file, a NUL and the data, and `length` is how many bytes of it are meant.

| | computed by |
| --- | --- |
| where the data begins | a scan for the first NUL, which stops at nothing else |
| how many there are | `in_msg->length` less that, in 32 bits |

Neither is checked against the 256 bytes of the payload, and no request is rejected
(`not_rejected`).
-/

import AiOsExchange.Kernel.Syscall
import Mathlib.Data.Nat.Find

namespace AiOsExchange
namespace Kernel

open CMemory Computations Fat32 Autarky

/-- Where the data of a write request begins in the payload. -/
def writeOffset (inMsg : OsMessage) : ℕ := (stringAt inMsg.payload).length + 1

/-- The range that is handed to `fs_write_file_content` is one of bytes that the message holds: the
scan ends in the payload, the difference does not wrap, and the range ends in the first
`min(length, 256)` bytes. -/
structure HoldsData (inMsg : OsMessage) : Prop where
  scan : (stringAt inMsg.payload).length < 256
  order : writeOffset inMsg ≤ inMsg.length
  range : writeOffset inMsg + writeLength inMsg ≤ min inMsg.length 256

/-- The request is rejected: the file system is not called. -/
def Rejected (fmtValue : Value → List Char) (fuel : ℕ) (inMsg : OsMessage) : Prop :=
  ∀ (loc : Locals) (k : KernelState), (handleRequest fmtValue fuel loc inMsg k).2.fs = k.fs

section
variable {fmtValue : Value → List Char} {fuel : ℕ} {msg : OsMessage}

/-- **What is handed to `fs_write_file_content`**: the memory from the offset on, and the length. -/
theorem fs_of_write (h : msg.type = .fsWriteReq) (loc : Locals) (k : KernelState) :
    (handleRequest fmtValue fuel loc msg k).2.fs =
      fsWriteFileContent (stringAt msg.payload) (fun i => msg.payload (writeOffset msg + i))
        (writeLength msg) k.fs := by
  rw [handleRequest_write h]
  rfl

/-- No request is rejected: on every volume a write tries to read the FAT sector. -/
theorem not_rejected (h : msg.type = .fsWriteReq) : ¬ Rejected fmtValue fuel msg := by
  intro hrej
  -- of the block requests only the first fails, and a write uses it up
  let fs : FatState := { blankVolume with io := fun n => decide (n ≠ 0) }
  have hfs := hrej ⟨fun _ => 0, fun _ => 0, fun _ => 0, fun _ => 0⟩ (kernelOn fs)
  rw [fs_of_write h, fsWriteFileContent, FatState.readDisk_false _ _ rfl] at hfs
  have hnext : true = false := congrFun (congrArg FatState.io hfs) 0
  exact Bool.noConfusion hnext

/-- The length of the data where the difference does not wrap. -/
theorem writeLength_eq (h : writeOffset msg ≤ msg.length) (hlen : msg.length < 2 ^ 32) :
    writeLength msg = msg.length - writeOffset msg := by
  rw [writeOffset] at h ⊢
  rw [writeLength]
  omega

/-- **A wrapped length** is that of a range beyond every message. -/
theorem writeLength_of_wrap (h : msg.length < writeOffset msg) (hoff : writeOffset msg ≤ 2 ^ 31) :
    2 ^ 31 ≤ writeLength msg := by
  rw [writeOffset] at h hoff
  rw [writeLength]
  omega

/-- The scan stops at the first NUL. -/
theorem stringAt_length_eq {p : ℕ} (hp : p < 2 ^ 32) (h0 : msg.payload p = 0)
    (hne : ∀ j < p, msg.payload j ≠ 0) : (stringAt msg.payload).length = p := by
  rw [stringAt, text, bytesAt_length, strnlen_eq_of_nul hp h0 hne]

end

/-- **When a write request is about bytes of its message.**  The range is one that the message
holds, or the request is rejected, if and only if the first NUL is one of the bytes of the payload
that are meant, of which there are at most 256. -/
theorem holdsData_iff (fmtValue : Value → List Char) (fuel : ℕ) (msg : OsMessage)
    (h : msg.type = .fsWriteReq) (hlen : msg.length < 2 ^ 32) :
    HoldsData msg ∨ Rejected fmtValue fuel msg ↔
      (∃ p < msg.length, msg.payload p = 0) ∧ msg.length ≤ 256 := by
  rw [or_iff_left (not_rejected h)]
  constructor
  · rintro ⟨hscan, horder, hrange⟩
    rw [writeLength_eq horder hlen] at hrange
    have hstop : strnlen msg.payload (2 ^ 32) = (stringAt msg.payload).length := by
      rw [stringAt, text, bytesAt_length]
    rw [writeOffset] at horder
    refine ⟨⟨(stringAt msg.payload).length, by omega, ?_⟩, by omega⟩
    rw [← hstop]
    exact eq_zero_of_strnlen_lt (by omega)
  · rintro ⟨hex, hmax⟩
    -- the scan stops at the first of the NULs
    obtain ⟨hfirst, hzero⟩ := Nat.find_spec hex
    have hne : ∀ j < Nat.find hex, msg.payload j ≠ 0 := fun j hj h0 =>
      Nat.find_min hex hj ⟨by omega, h0⟩
    have hscan := stringAt_length_eq (by omega) hzero hne
    have horder : writeOffset msg ≤ msg.length := by
      rw [writeOffset, hscan]
      omega
    refine ⟨by omega, horder, ?_⟩
    rw [writeLength_eq horder hlen]
    omega

/-- The message `A`, NUL, `x`. -/
def smallWrite (length : ℕ) : OsMessage :=
  ⟨sysModGuiShell, sysModKernel, .fsWriteReq, length, cString [65, 0, 120]⟩

theorem small_write_held :
    HoldsData (smallWrite 3) ∨ Rejected (fun _ => []) 0 (smallWrite 3) :=
  (holdsData_iff _ _ _ rfl (by decide)).2 ⟨⟨1, by decide, by decide⟩, by decide⟩

/-- With the length 1 the message does not reach its NUL, and the length of the data is `2^32 - 1`. -/
theorem short_length_wraps : ¬ ∀ (fmtValue : Value → List Char) (fuel : ℕ) (msg : OsMessage),
    msg.type = .fsWriteReq → msg.length < 2 ^ 32 →
      HoldsData msg ∨ Rejected fmtValue fuel msg := by
  intro h
  rcases h (fun _ => []) 0 (smallWrite 1) rfl (by decide) with hheld | hrej
  · have hscan : (stringAt (smallWrite 1).payload).length = 1 :=
      stringAt_length_eq (by decide) (by decide) (by decide)
    have horder := hheld.order
    rw [writeOffset, hscan] at horder
    exact absurd horder (by decide)
  · exact not_rejected rfl hrej

end Kernel
end AiOsExchange
