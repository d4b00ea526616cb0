/-
# Executing a contract

`autarky_vm/src/lib.rs`.  `autarky_execute` takes the bytes the kernel hands it, checks that
they are UTF-8, trims them, parses, erases, evaluates in the seeded environment, commits a
receipt and writes its answer to the kernel's buffer.

| source | here |
| --- | --- |
| `core::str::from_utf8`, `str::trim`, `String::as_bytes` | `fromUtf8`, `trim`, `utf8Bytes` |
| the block that makes `source` | `sourceText` |
| `Parser::parse` and `is_eof` | `compile` |
| `generate_tx_id` | `generateTxId` |
| `autarky_execute` | `autarkyExecute` |

The derived `Debug` text of a value (`{:?}`) is the argument `fmtValue`: nothing that is said
here depends on it.  What is printed on the UART is left out.
-/

import AiOsExchange.Autarky.Words
import AiOsExchange.Autarky.Vm
import AiOsExchange.Watcher.State

namespace AiOsExchange
namespace Autarky

open Computations CMemory Watcher

/-! ### Text and bytes -/

/-- `String::as_bytes`. -/
def utf8Bytes (cs : List Char) : List UInt8 := cs.flatMap String.utf8EncodeChar

/-- The number a lead byte and its continuation bytes stand for. -/
def codePoint : List UInt8 → ℕ
  | [] => 0
  | b :: bs =>
      let lead := if bs = [] then b.toNat else b.toNat % 2 ^ (6 - bs.length)
      bs.foldl (fun n c => 64 * n + c.toNat % 64) lead

/-- The first character: one whose encoding the text begins with. -/
def decodeChar (bytes : List UInt8) : Option (Char × List UInt8) :=
  [1, 2, 3, 4].findSome? fun k =>
    let c := Char.ofNat (codePoint (bytes.take k))
    if String.utf8EncodeChar c = bytes.take k then some (c, bytes.drop k) else none

/-- The characters of a text, at most `n` of them. -/
def fromUtf8Loop : ℕ → List UInt8 → Option (List Char)
  | _, [] => some []
  | 0, _ :: _ => none
  | n + 1, b :: bs => do
      let (c, rest) ← decodeChar (b :: bs)
      let cs ← fromUtf8Loop n rest
      pure (c :: cs)

/-- `core::str::from_utf8`. -/
def fromUtf8 (bytes : List UInt8) : Option (List Char) := fromUtf8Loop bytes.length bytes

/-- `str::trim`. -/
def trim (cs : List Char) : List Char :=
  ((cs.dropWhile isWhitespace).reverse.dropWhile isWhitespace).reverse

/-- The text in these bytes, trimmed; nothing if they are not UTF-8. -/
def trimmed (bytes : List UInt8) : List Char :=
  match fromUtf8 bytes with
  | some cs => trim cs
  | none => []

/-- The source `autarky_execute` works on: the string at `bytecode`, cut at `maxLen` bytes. -/
def sourceText (bytecode : Option Buf) (maxLen : ℕ) : List Char :=
  match bytecode with
  | none => []
  | some b => trimmed (text b maxLen)

/-- The source in a string that fits. -/
theorem sourceText_cString {l : List UInt8} {maxLen : ℕ} (h0 : (0 : UInt8) ∉ l)
    (hl : l.length ≤ maxLen) : sourceText (some (cString l)) maxLen = trimmed l := by
  rw [sourceText, cString, text_put h0 hl]

/-! ### The pipeline -/

/-- `parser.parse()` and `parser.is_eof()`. -/
def compile (source : List Char) : Out Expr :=
  let (ast, p) := parse (.new source)
  match ast with
  | .ok a =>
      match (Parser.isEof p).1 with
      | .ok true => .ok a
      | .ok false => .err "Trailing characters after expression."
      | .err msg => .err msg
      | .panic => .panic
      | .more => .more
  | o => o

/-- `generate_tx_id`, FNV-1a over the source, the volume and the nonce. -/
def generateTxId (source : List Char) (volume : Int32) (nonce : UInt64) : UInt64 :=
  let step (hash word : UInt64) : UInt64 := (hash ^^^ word) * 0x100000001b3
  let hash := (utf8Bytes source).foldl (fun hash byte => step hash byte.toUInt64) 0xcbf29ce484222325
  step (step hash volume.toInt64.toUInt64) nonce

/-- What an execution shares with the kernel. -/
structure Host where
  /-- The results of `virtio_net_poll_rx` still to come. -/
  net : Net
  /-- The readings of the system timer still to come. -/
  timer : ℕ → UInt64
  watcher : WatcherState

/-- The state of a kernel that has just been booted, on a silent network. -/
def idleHost : Host where
  net := fun _ => 0
  timer := fun _ => 1
  watcher := watcherInit ⟨fun _ => ⟨0, .none, 0, fun _ => 0⟩, 0, 0, 0, 0⟩

/-- A computation on the network alone. -/
def onNet {α : Type} (x : Comp Net α) : Comp Host α := fun s =>
  ((x s.net).1, { s with net := (x s.net).2 })

/-- `mrs cntpct_el0`. -/
def readTimer : Comp Host UInt64 := fun s =>
  (.ok (s.timer 0), { s with timer := fun n => s.timer (n + 1) })

/-- `val` as the volume of a receipt: `v as i32`, or 0 for a value that is no integer. -/
def Value.volume : Value → Int32
  | .int v => v.toInt32
  | _ => 0

/-- The receipt of an execution that ended with `val`. -/
def commitReceipt (source : List Char) (val : Value) : Comp Host Unit := do
  let cntpct ← readTimer
  let timer ← readTimer
  let s ← .get
  .set { s with
    watcher := watcherCommitLedger (generateTxId source val.volume cntpct) val.volume timer s.watcher }

/-- The copy of the answer to the kernel's buffer, cut to fit with its NUL. -/
def copyOut (bytes : List UInt8) (maxLen : ℕ) (outBuf : Buf) : Buf :=
  let copyLen := if bytes.length < maxLen then bytes.length else maxLen - 1
  put (put outBuf 0 (bytes.take copyLen)) copyLen [0]

/-- `format!("ATK MATCHED: {:?}\n\0", val)`. -/
def matchedBytes (fmtValue : Value → List Char) (val : Value) : List UInt8 :=
  utf8Bytes ("ATK MATCHED: ".toList ++ fmtValue val ++ ['\n', Char.ofNat 0])

/-- `format!("ATK FAULT: {}\n\0", e)`. -/
def faultBytes (e : String) : List UInt8 :=
  utf8Bytes ("ATK FAULT: ".toList ++ e.toList ++ ['\n', Char.ofNat 0])

/-- The gas every evaluated program is charged. -/
def gasMetered : ℕ := 1500

/-- `autarky_execute`, with the gas it returns and the buffer it leaves. -/
def autarkyExecute (fmtValue : Value → List Char) (fuel : ℕ) (bytecode : Option Buf) (outBuf : Buf)
    (maxLen : ℕ) : Comp Host (ℕ × Buf) :=
  let source := sourceText bytecode maxLen
  if source = [] then pure (0, outBuf)
  else
    match compile source with
    | .ok ast => do
        let result ← Comp.attempt (onNet (evaluate fuel seededEnv (eraseProofs ast)))
        match result with
        | .ok val => do
            commitReceipt source val
            pure (gasMetered, copyOut (matchedBytes fmtValue val) maxLen outBuf)
        | .error e => pure (gasMetered, copyOut (faultBytes e) maxLen outBuf)
    | .err _ => pure (0, outBuf)
    | .panic => .panic
    | .more => .more

/-! ### Compiling -/

/-- Compiling is accepting. -/
theorem compile_eq_ok_iff {source : List Char} {e : Expr} :
    compile source = .ok e ↔ accepts source e := by
  obtain ⟨cs, hat, -⟩ := (parse_sim source).2
  obtain ⟨p', heof, -⟩ := Parser.isEof_at hat
  rw [compile, accepts]
  rcases hp : parse (.new source) with ⟨o, p⟩
  rw [hp] at heof
  simp only [heof]
  constructor
  · intro h
    cases o with
    | ok a =>
        cases hb : (dropBlank cs).isEmpty with
        | true =>
            rw [hb] at h heof
            cases h
            exact ⟨p, p', rfl, heof⟩
        | false =>
            rw [hb] at h
            cases h
    | _ => cases h
  · rintro ⟨q, q', hq, hq'⟩
    cases hq
    rw [heof] at hq'
    obtain ⟨h1, -⟩ := Prod.ext_iff.1 hq'
    simp only [Out.ok.injEq] at h1
    rw [h1]

/-- **Compiling neither panics nor wants for fuel.** -/
theorem compile_ended (source : List Char) : (compile source).Ended := by
  obtain ⟨cs, hat, -⟩ := (parse_sim source).2
  obtain ⟨p', heof, -⟩ := Parser.isEof_at hat
  have ho := parse_ended source
  rw [compile]
  rcases hp : parse (.new source) with ⟨o, p⟩
  rw [hp] at heof ho
  simp only [heof]
  rcases ho with ⟨e, rfl⟩ | ⟨msg, rfl⟩
  · cases (dropBlank cs).isEmpty with
    | true => exact .inl ⟨e, rfl⟩
    | false => exact .inr ⟨_, rfl⟩
  · exact .inr ⟨msg, rfl⟩

theorem compile_nil : compile [] = .err "EOF" := rfl

/-! ### The outcomes of an execution -/

/-- **What the kernel sees of an answer** does not depend on what was in the buffer. -/
theorem text_copyOut (bytes : List UInt8) (maxLen : ℕ) (outBuf : Buf) :
    text (copyOut bytes maxLen outBuf) (maxLen - 1) =
      (bytes.take (maxLen - 1)).takeWhile (· ≠ 0) := by
  have h (n : ℕ) (hn : n ≤ bytes.length) :
      put (put outBuf 0 (bytes.take n)) n [0] = put outBuf 0 (bytes.take n ++ [0]) := by
    have := put_put_append outBuf 0 (bytes.take n) [0]
    rwa [List.length_take, Nat.min_eq_left hn, Nat.zero_add] at this
  rw [copyOut]
  split_ifs with hlt
  · rw [h _ (Nat.le_refl _), text_put_takeWhile, List.take_length]
  · rw [h _ (by omega), text_put_takeWhile, List.take_take, Nat.min_self]

/-- The execution depends on its bytes through the source alone. -/
theorem autarkyExecute_congr {fmtValue : Value → List Char} {fuel : ℕ} {b b' : Option Buf}
    {maxLen : ℕ} (h : sourceText b maxLen = sourceText b' maxLen) (outBuf : Buf) :
    autarkyExecute fmtValue fuel b outBuf maxLen = autarkyExecute fmtValue fuel b' outBuf maxLen := by
  rw [autarkyExecute, autarkyExecute, h]

section
variable {fmtValue : Value → List Char} {fuel : ℕ} {bytecode : Option Buf} {outBuf : Buf}
  {maxLen : ℕ} {host : Host}

/-- A source that is no program costs nothing and changes nothing. -/
theorem autarkyExecute_of_rejected (h : ∀ e, compile (sourceText bytecode maxLen) ≠ .ok e) :
    autarkyExecute fmtValue fuel bytecode outBuf maxLen host = (.ok (0, outBuf), host) := by
  rw [autarkyExecute]
  by_cases hs : sourceText bytecode maxLen = []
  · simp only [if_pos hs]
    rfl
  · simp only [if_neg hs]
    rcases compile_ended (sourceText bytecode maxLen) with ⟨e, he⟩ | ⟨msg, hmsg⟩
    · exact absurd he (h e)
    · rw [hmsg]
      rfl

/-- The execution of a program. -/
theorem autarkyExecute_of_compile {ast : Expr} (h : compile (sourceText bytecode maxLen) = .ok ast) :
    autarkyExecute fmtValue fuel bytecode outBuf maxLen host =
      (Comp.attempt (onNet (evaluate fuel seededEnv (eraseProofs ast))) >>= fun result =>
        match result with
        | .ok val => do
            commitReceipt (sourceText bytecode maxLen) val
            pure (gasMetered, copyOut (matchedBytes fmtValue val) maxLen outBuf)
        | .error e => pure (gasMetered, copyOut (faultBytes e) maxLen outBuf)) host := by
  have hs : sourceText bytecode maxLen ≠ [] := by
    intro hs
    rw [hs, compile_nil] at h
    cases h
  rw [autarkyExecute]
  simp only [if_neg hs, h]

variable {ast : Expr} {net : Net}

/-- A program that ends with a value commits its receipt. -/
theorem autarkyExecute_of_ok {val : Value} (h : compile (sourceText bytecode maxLen) = .ok ast)
    (hv : evaluate fuel seededEnv (eraseProofs ast) host.net = (.ok val, net)) :
    autarkyExecute fmtValue fuel bytecode outBuf maxLen host =
      (.ok (gasMetered, copyOut (matchedBytes fmtValue val) maxLen outBuf),
        { net := net
          timer := fun n => host.timer (n + 2)
          watcher := watcherCommitLedger
            (generateTxId (sourceText bytecode maxLen) val.volume (host.timer 0)) val.volume
            (host.timer 1) host.watcher }) := by
  have hr : Comp.attempt (onNet (evaluate fuel seededEnv (eraseProofs ast))) host =
      (.ok (.ok val), { host with net := net }) := by
    simp only [Comp.attempt, onNet, hv]
  rw [autarkyExecute_of_compile h, Comp.bind_of_ok hr]
  rfl

/-- A program that ends with a fault commits nothing. -/
theorem autarkyExecute_of_err {msg : String} (h : compile (sourceText bytecode maxLen) = .ok ast)
    (hv : evaluate fuel seededEnv (eraseProofs ast) host.net = (.err msg, net)) :
    autarkyExecute fmtValue fuel bytecode outBuf maxLen host =
      (.ok (gasMetered, copyOut (faultBytes msg) maxLen outBuf), { host with net := net }) := by
  have hr : Comp.attempt (onNet (evaluate fuel seededEnv (eraseProofs ast))) host =
      (.ok (.error msg), { host with net := net }) := by
    simp only [Comp.attempt, onNet, hv]
  rw [autarkyExecute_of_compile h, Comp.bind_of_ok hr]
  rfl

/-- An execution that comes back has evaluated its program to the end. -/
theorem ended_of_autarkyExecute {r : ℕ × Buf} {host' : Host}
    (h : compile (sourceText bytecode maxLen) = .ok ast)
    (hr : autarkyExecute fmtValue fuel bytecode outBuf maxLen host = (.ok r, host')) :
    (evaluate fuel seededEnv (eraseProofs ast) host.net).1.Ended := by
  rw [autarkyExecute_of_compile h, Comp.bind_eq_ok_iff] at hr
  obtain ⟨result, s, hx, -⟩ := hr
  simp only [Comp.attempt, onNet] at hx
  rcases hv : evaluate fuel seededEnv (eraseProofs ast) host.net with ⟨o, net⟩
  rw [hv] at hx
  cases o with
  | ok val => exact .inl ⟨val, rfl⟩
  | err msg => exact .inr ⟨msg, rfl⟩
  | panic => cases hx
  | more => cases hx

/-- A program whose evaluation ends comes back, charged the one price. -/
theorem autarkyExecute_of_ended (h : compile (sourceText bytecode maxLen) = .ok ast)
    (hv : (evaluate fuel seededEnv (eraseProofs ast) host.net).1.Ended) :
    ∃ out host', autarkyExecute fmtValue fuel bytecode outBuf maxLen host =
      (.ok (gasMetered, out), host') := by
  rcases hv with ⟨val, hv⟩ | ⟨msg, hv⟩
  · exact ⟨_, _, autarkyExecute_of_ok h (Prod.ext hv rfl)⟩
  · exact ⟨_, _, autarkyExecute_of_err h (Prod.ext hv rfl)⟩

end

end Autarky
end AiOsExchange
