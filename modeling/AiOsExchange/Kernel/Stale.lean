/-
# What a reply takes from the stack

`kernel/syscall.c`.  `dir_buf`, `file_buf` and `out_buf` are not initialised, and the handler
copies them to user space whatever the callee did with them.

| exit of the callee | the buffer |
| --- | --- |
| `fs_get_dir_list`, all | written and terminated |
| `fs_read_file_content`, the data sector cannot be read | as it was |
| `fs_read_file_content`, all others | written and terminated |
| `autarky_execute`, the source is empty or no program | as it was |
| `autarky_execute`, all others | written and terminated |

So the replies to a listing hide the stack, and those to a read or an execution do exactly if
the exits that leave the buffer are not taken (`hidesStack_iff`).
-/

import AiOsExchange.Autarky.Grammar
import AiOsExchange.Fat32.Outcomes
import AiOsExchange.Kernel.Syscall

namespace AiOsExchange
namespace Kernel

open CMemory Computations Watcher Fat32 Autarky

/-- A run that replies, and another that sends the same text and the same length. -/
def SameReply (o o' : Out (Option OsMessage)) : Prop :=
  ∀ r, o = .ok (some r) → ∃ r', o' = .ok (some r') ∧ r'.text = r.text ∧ r'.length = r.length

/-- Whatever was in the handler's buffers, the reply is the same. -/
def HidesStack (fmtValue : Value → List Char) (k : KernelState) (msg : OsMessage) : Prop :=
  ∀ fuel loc loc', loc'.outPayload = loc.outPayload →
    SameReply (handleRequest fmtValue fuel loc msg k).1 (handleRequest fmtValue fuel loc' msg k).1

/-- The exits that leave a buffer unwritten are not taken. -/
def FillsBuffers (k : KernelState) (msg : OsMessage) : Prop :=
  match msg.type with
  | .fsReadReq =>
      k.fs.io 0 = true → (k.fs.lookup (stringAt msg.payload)).1 ≠ 0 → k.fs.io 1 = true
  | .atkExecReq =>
      k.fs.io 0 = true ∧ (k.fs.lookup (stringAt msg.payload)).1 ≠ 0 ∧ k.fs.io 1 = true ∧
        ∃ e, compile (trimmed (k.fs.shown (stringAt msg.payload) 256)) = .ok e
  | _ => True

/-! ### Two runs side by side -/

theorem SameReply.refl (o : Out (Option OsMessage)) : SameReply o o :=
  fun r h => ⟨r, h, rfl, rfl⟩

/-- **Replies that show the same string are the same.** -/
theorem sameReply_withText {m m' : OsMessage} {src src' : Buf} (h : text src' 255 = text src 255) :
    SameReply (.ok (some (withText m src))) (.ok (some (withText m' src'))) := by
  intro r hr
  cases hr
  refine ⟨_, rfl, ?_, ?_⟩
  · rw [withText_text, withText_text, h]
  · simp only [withText, h]

/-- Replies that show different strings are not. -/
theorem not_sameReply_withText {m m' : OsMessage} {src src' : Buf}
    (h : text src' 255 ≠ text src 255) :
    ¬ SameReply (.ok (some (withText m src))) (.ok (some (withText m' src'))) := by
  intro hs
  obtain ⟨r', hr', ht, -⟩ := hs _ rfl
  cases hr'
  rw [withText_text, withText_text] at ht
  exact h ht

section
variable {fmtValue : Value → List Char} {fuel : ℕ} {loc loc' : Locals} {msg : OsMessage}
  {k : KernelState}

/-- A listing fills its buffer on both exits. -/
theorem text_fsGetDirList (buffer buffer' : Buf) (s : FatState) :
    text (fsGetDirList buffer' 256 s).1 255 = text (fsGetDirList buffer 256 s).1 255 := by
  rw [fsGetDirList, fsGetDirList]
  rcases s.readDisk s.rootSector with ⟨_ | _, s'⟩
  · exact (text_put_takeWhile buffer' 255 []).trans (text_put_takeWhile buffer 255 []).symm
  · rw [text_put_takeWhile, text_put_takeWhile]

/-- A read fills its buffer unless the data sector cannot be read. -/
theorem text_fsReadFileContent {filename : List UInt8} {s : FatState} {m maxLen : ℕ}
    (h : s.io 0 = true → (s.lookup filename).1 ≠ 0 → s.io 1 = true) (hm : m ≤ 512)
    (hmax : m < maxLen) (h16 : 16 < maxLen) (buffer buffer' : Buf) :
    text (fsReadFileContent filename buffer' maxLen s).1 m =
      text (fsReadFileContent filename buffer maxLen s).1 m := by
  cases h0 : s.io 0 with
  | false =>
      rw [read_of_root_fail h0, read_of_root_fail h0]
      exact (text_put_takeWhile buffer' m []).trans (text_put_takeWhile buffer m []).symm
  | true => rw [text_read h0 (h h0) hm hmax h16, text_read h0 (h h0) hm hmax h16]

/-- **An execution of a program fills its buffer.** -/
theorem text_autarkyExecute {source source' : Option Buf} {outBuf out : Buf} {gas : ℕ}
    {host host' : Host} {e : Expr} (outBuf' : Buf) (he : compile (sourceText source 256) = .ok e)
    (hs : sourceText source' 256 = sourceText source 256)
    (h : autarkyExecute fmtValue fuel source outBuf 256 host = (.ok (gas, out), host')) :
    ∃ out', autarkyExecute fmtValue fuel source' outBuf' 256 host = (.ok (gas, out'), host') ∧
      text out' 255 = text out 255 := by
  have hcopy (bytes : List UInt8) :
      text (copyOut bytes 256 outBuf') 255 = text (copyOut bytes 256 outBuf) 255 :=
    (text_copyOut bytes 256 outBuf').trans (text_copyOut bytes 256 outBuf).symm
  rw [autarkyExecute_congr hs]
  rcases ended_of_autarkyExecute he h with ⟨val, hv⟩ | ⟨e', hv⟩
  · rw [autarkyExecute_of_ok he (Prod.ext hv rfl)] at h
    cases h
    exact ⟨_, autarkyExecute_of_ok he (Prod.ext hv rfl), hcopy _⟩
  · rw [autarkyExecute_of_err he (Prod.ext hv rfl)] at h
    cases h
    exact ⟨_, autarkyExecute_of_err he (Prod.ext hv rfl), hcopy _⟩

/-- Requests that use no buffer but the payload. -/
theorem handleRequest_congr (h : loc'.outPayload = loc.outPayload) (hl : msg.type ≠ .fsListReq)
    (hr : msg.type ≠ .fsReadReq) (he : msg.type ≠ .atkExecReq) :
    handleRequest fmtValue fuel loc' msg k = handleRequest fmtValue fuel loc msg k := by
  have hreply (type : IpcMsg) : replyTo msg type loc' = replyTo msg type loc := by
    simp only [replyTo, h]
  rw [handleRequest, handleRequest]
  cases ht : msg.type with
  | fsListReq => exact absurd ht hl
  | fsReadReq => exact absurd ht hr
  | atkExecReq => exact absurd ht he
  | _ => simp only [hreply]

/-- The source of an execution whose read fills the buffer. -/
theorem sourceText_read {filename : List UInt8} {s : FatState} {buffer : Buf} (h0 : s.io 0 = true)
    (h1 : (s.lookup filename).1 ≠ 0 → s.io 1 = true) :
    sourceText (some (fsReadFileContent filename buffer 1024 s).1) 256 =
      trimmed (s.shown filename 256) := by
  rw [sourceText, text_read h0 h1 (by decide) (by decide) (by decide)]

/-- `"File not found."` is no program. -/
theorem compile_fileNotFound (e : Expr) : compile (trimmed (fileNotFound.take 256)) ≠ .ok e := by
  have ht : trimmed (fileNotFound.take 256) = "File not found.".toList := by decide
  have hc : compile "File not found.".toList = .err "Trailing characters after expression." := by
    decide
  rw [ht, hc]
  nofun

/-- On a stack of zeros, a read that does not come to a program leaves none. -/
theorem compile_of_stuck {filename : List UInt8} {s : FatState}
    (h : ¬ (s.io 0 = true ∧ (s.lookup filename).1 ≠ 0 ∧ s.io 1 = true ∧
      ∃ e, compile (trimmed (s.shown filename 256)) = .ok e)) (e : Expr) :
    compile (sourceText (some (fsReadFileContent filename (fun _ => 0) 1024 s).1) 256) ≠ .ok e := by
  have hnil {b : Buf} (hb : b 0 = 0) : compile (sourceText (some b) 256) ≠ .ok e := by
    have ht : text b 256 = [] := by
      rw [text, strnlen_eq_of_nul (by omega) hb fun i hi => absurd hi i.not_lt_zero, bytesAt_zero]
    have heof : compile (trimmed []) = .err "EOF" := compile_nil
    rw [sourceText, ht, heof]
    simp
  cases h0 : s.io 0 with
  | false =>
      rw [read_of_root_fail h0]
      exact hnil rfl
  | true =>
      by_cases hl : (s.lookup filename).1 = 0
      · rw [sourceText_read h0 (absurd hl), FatState.shown, if_pos hl]
        exact compile_fileNotFound e
      · cases h1 : s.io 1 with
        | false =>
            rw [read_of_data_fail h0 hl h1]
            exact hnil rfl
        | true =>
            rw [sourceText_read h0 fun _ => h1]
            exact fun he => h ⟨h0, hl, h1, e, he⟩

/-- The reply to an execution, once it has come back. -/
theorem handleRequest_exec_of_ok {gas : ℕ} {out : Buf} {host' : Host} (ht : msg.type = .atkExecReq)
    (h : autarkyExecute fmtValue fuel
      (some (fsReadFileContent (stringAt msg.payload) loc.fileBuf 1024 k.fs).1) loc.outBuf 256
      (k.logged .fsRead msg.senderId msg.payload).toHost = (.ok (gas, out), host')) :
    (handleRequest fmtValue fuel loc msg k).1 =
      .ok (some (withText (replyTo msg .atkExecResp loc) out)) := by
  rw [handleRequest_exec ht, Comp.bind_apply]
  simp only [onHost]
  rw [h]
  rfl

/-- A reply to an execution comes from one that has come back. -/
theorem ok_of_handleRequest_exec {r : OsMessage} (ht : msg.type = .atkExecReq)
    (h : (handleRequest fmtValue fuel loc msg k).1 = .ok (some r)) :
    ∃ gas out host', autarkyExecute fmtValue fuel
      (some (fsReadFileContent (stringAt msg.payload) loc.fileBuf 1024 k.fs).1) loc.outBuf 256
      (k.logged .fsRead msg.senderId msg.payload).toHost = (.ok (gas, out), host') ∧
        r = withText (replyTo msg .atkExecResp loc) out := by
  rw [handleRequest_exec ht] at h
  obtain ⟨⟨gas, out⟩, k', hx, hr⟩ := Comp.bind_eq_ok_iff.1 (Prod.ext h rfl)
  refine ⟨gas, out, k'.toHost, ?_, ?_⟩
  · simp only [onHost, Prod.mk.injEq] at hx
    obtain ⟨hx1, hx2⟩ := hx
    rw [← hx2]
    exact Prod.ext hx1 rfl
  · cases hr
    rfl

/-- **The replies to an execution of a program are the same.** -/
theorem sameReply_exec (ht : msg.type = .atkExecReq) (h : FillsBuffers k msg) :
    SameReply (handleRequest fmtValue fuel loc msg k).1
      (handleRequest fmtValue fuel loc' msg k).1 := by
  simp only [FillsBuffers, ht] at h
  obtain ⟨h0, -, h1, e, he⟩ := h
  intro r hr
  obtain ⟨gas, out, host', hx, rfl⟩ := ok_of_handleRequest_exec ht hr
  have hs (loc : Locals) : sourceText
      (some (fsReadFileContent (stringAt msg.payload) loc.fileBuf 1024 k.fs).1) 256 =
        trimmed (k.fs.shown (stringAt msg.payload) 256) := sourceText_read h0 fun _ => h1
  have hc := (congrArg compile (hs loc)).trans he
  obtain ⟨out', hx', hout⟩ := text_autarkyExecute loc'.outBuf hc ((hs loc').trans (hs loc).symm) hx
  rw [handleRequest_exec_of_ok ht hx']
  exact sameReply_withText hout _ rfl

end

/-! ### Exactly when -/

/-- A stack that is zero but for `out_buf` and `file_buf`. -/
def localsWith (fileBuf outBuf : Buf) : Locals := ⟨fun _ => 0, fileBuf, outBuf, fun _ => 0⟩

theorem localsWith_outPayload (fileBuf outBuf : Buf) :
    (localsWith fileBuf outBuf).outPayload = fun _ => 0 := rfl

theorem text_A_ne_B : text (cString (ascii "B")) 255 ≠ text (cString (ascii "A")) 255 := by
  rw [cString, cString, text_put (by decide) (by decide), text_put (by decide) (by decide)]
  decide

section
variable {fmtValue : Value → List Char} {k : KernelState} {msg : OsMessage}

/-- A read whose data sector cannot be read sends what was in `file_buf`. -/
theorem not_hidesStack_read (ht : msg.type = .fsReadReq) (h0 : k.fs.io 0 = true)
    (hl : (k.fs.lookup (stringAt msg.payload)).1 ≠ 0) (h1 : k.fs.io 1 = false) :
    ¬ HidesStack fmtValue k msg := by
  intro h
  have hs := h 0 (localsWith (cString (ascii "A")) fun _ => 0)
    (localsWith (cString (ascii "B")) fun _ => 0) (by simp only [localsWith_outPayload])
  rw [handleRequest_read ht, handleRequest_read ht, read_of_data_fail h0 hl h1,
    read_of_data_fail h0 hl h1] at hs
  exact not_sameReply_withText text_A_ne_B hs

/-- **An execution that does not come to a program sends what was in `out_buf`.** -/
theorem not_hidesStack_exec (ht : msg.type = .atkExecReq) (h : ¬ FillsBuffers k msg) :
    ¬ HidesStack fmtValue k msg := by
  simp only [FillsBuffers, ht] at h
  have hx (outBuf : Buf) : (handleRequest fmtValue 0 (localsWith (fun _ => 0) outBuf) msg k).1 =
      .ok (some (withText (replyTo msg .atkExecResp (localsWith (fun _ => 0) outBuf)) outBuf)) :=
    handleRequest_exec_of_ok ht (autarkyExecute_of_rejected (compile_of_stuck h))
  intro hs
  have hAB := hs 0 (localsWith (fun _ => 0) (cString (ascii "A")))
    (localsWith (fun _ => 0) (cString (ascii "B"))) (by simp only [localsWith_outPayload])
  rw [hx, hx] at hAB
  exact not_sameReply_withText text_A_ne_B hAB

/-- Where the callees fill their buffers, the replies are the same. -/
theorem hidesStack_of_fills (h : FillsBuffers k msg) : HidesStack fmtValue k msg := by
  intro fuel loc loc' hpay
  by_cases hl : msg.type = .fsListReq
  · rw [handleRequest_list hl, handleRequest_list hl]
    exact sameReply_withText (text_fsGetDirList _ _ _)
  by_cases hr : msg.type = .fsReadReq
  · rw [handleRequest_read hr, handleRequest_read hr]
    simp only [FillsBuffers, hr] at h
    exact sameReply_withText (text_fsReadFileContent h (by decide) (by decide) (by decide) _ _)
  by_cases he : msg.type = .atkExecReq
  · exact sameReply_exec he h
  · rw [handleRequest_congr hpay hl hr he]
    exact .refl _

end

/-- **The reply hides the stack exactly if the callees fill their buffers.** -/
theorem hidesStack_iff (fmtValue : Value → List Char) (k : KernelState) (msg : OsMessage) :
    HidesStack fmtValue k msg ↔ FillsBuffers k msg := by
  refine ⟨fun h => ?_, hidesStack_of_fills⟩
  by_cases hr : msg.type = .fsReadReq
  · simp only [FillsBuffers, hr]
    intro h0 hl
    by_contra h1
    exact not_hidesStack_read hr h0 hl (Bool.eq_false_iff.2 h1) h
  by_cases he : msg.type = .atkExecReq
  · by_contra hno
    exact not_hidesStack_exec he hno h
  · unfold FillsBuffers
    split <;> trivial

/-- On an empty volume, executing a file sends what was on the stack. -/
theorem exec_missing_leaks : ¬ ∀ fmtValue k msg, HidesStack fmtValue k msg := by
  intro h
  have hno : ¬ FillsBuffers (kernelOn blankVolume)
      ⟨0, sysModKernel, .atkExecReq, 2, cString (ascii "X")⟩ := fun hf => absurd hf.2.1 (by decide)
  exact not_hidesStack_exec rfl hno (h (fun _ => []) _ _)

end Kernel
end AiOsExchange
