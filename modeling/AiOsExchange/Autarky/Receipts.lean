/-
# What a receipt says

`autarky_vm/src/lib.rs` and `kernel/watcher.c`.  The value of a program is a 64-bit integer;
its receipt carries it as an `i32` and in decimal.  One `LEDGER_COMMIT` is logged for a program
that ends with a value and none otherwise, but the volume it names is that value exactly inside
the 32-bit range, the least 32-bit integer left out (`carriesResult_iff`).  The transaction id beside
it is a hash of the source, the volume and a reading of the timer, in which neither of the last
two is lost (`generateTxId_inj`).
-/

import AiOsExchange.Autarky.Execute
import AiOsExchange.Autarky.Grammar
import AiOsExchange.Lib.Fnv
import AiOsExchange.Watcher.Receipt

namespace AiOsExchange
namespace Autarky

open Computations CMemory Watcher

/-- The answer in the buffer is a fault. -/
def ReportsFault (out : Buf) : Prop := bytesAt out 0 9 = ascii "ATK FAULT"

/-- One `LEDGER_COMMIT` is logged, and the volume in its context is the numeral of `v`. -/
def LogsVolume (v : Int64) (w w' : WatcherState) : Prop :=
  ∃ context timer, w' = watcherLogEvent .ledgerCommit 0 (some context) timer w ∧
    volumeText ((w'.events w.head).text) = ascii (toString v.toInt)

/-- What the ledger owes an execution that comes back: an integer result is logged once, as
itself, or reported as a fault; what is no program or ends with an error is not logged. -/
def CarriesResult (fmtValue : Value → List Char) (fuel : ℕ) (bytecode : Option Buf) (outBuf : Buf)
    (maxLen : ℕ) (host : Host) : Prop :=
  ∀ gas out host',
    autarkyExecute fmtValue fuel bytecode outBuf maxLen host = (.ok (gas, out), host') →
      (∀ e v, compile (sourceText bytecode maxLen) = .ok e →
        (evaluate fuel seededEnv (eraseProofs e) host.net).1 = .ok (.int v) →
          LogsVolume v host.watcher host'.watcher ∨
            ReportsFault out ∧ host'.watcher = host.watcher) ∧
      ((∀ e, compile (sourceText bytecode maxLen) ≠ .ok e) → host'.watcher = host.watcher) ∧
      ∀ e msg, compile (sourceText bytecode maxLen) = .ok e →
        (evaluate fuel seededEnv (eraseProofs e) host.net).1 = .err msg →
          host'.watcher = host.watcher

section
variable {fmtValue : Value → List Char} {fuel : ℕ} {bytecode : Option Buf} {outBuf out : Buf}
  {maxLen gas : ℕ} {host host' : Host} {ast : Expr}

theorem watcher_of_rejected (h : ∀ e, compile (sourceText bytecode maxLen) ≠ .ok e)
    (hr : autarkyExecute fmtValue fuel bytecode outBuf maxLen host = (.ok (gas, out), host')) :
    host'.watcher = host.watcher := by
  rw [autarkyExecute_of_rejected h] at hr
  cases hr
  rfl

theorem watcher_of_err {msg : String} (h : compile (sourceText bytecode maxLen) = .ok ast)
    (hv : (evaluate fuel seededEnv (eraseProofs ast) host.net).1 = .err msg)
    (hr : autarkyExecute fmtValue fuel bytecode outBuf maxLen host = (.ok (gas, out), host')) :
    host'.watcher = host.watcher := by
  rw [autarkyExecute_of_err h (Prod.ext hv rfl)] at hr
  cases hr
  rfl

/-- **An integer result is logged as the numeral of its low 32 bits.** -/
theorem watcher_of_int {v : Int64} (h : compile (sourceText bytecode maxLen) = .ok ast)
    (hv : (evaluate fuel seededEnv (eraseProofs ast) host.net).1 = .ok (.int v))
    (hr : autarkyExecute fmtValue fuel bytecode outBuf maxLen host = (.ok (gas, out), host')) :
    ∃ txHash timer, host'.watcher = watcherCommitLedger txHash v.toInt32 timer host.watcher ∧
      volumeText ((host'.watcher.events host.watcher.head).text) = i32ToDecStr v.toInt32 := by
  rw [autarkyExecute_of_ok h (Prod.ext hv rfl)] at hr
  cases hr
  exact ⟨_, _, rfl, by rw [commit_text, volumeText_receiptContext]; rfl⟩

/-- A logged event moves the head. -/
theorem watcherCommitLedger_ne (txHash : UInt64) (volume : Int32) (timer : UInt64)
    (w : WatcherState) : watcherCommitLedger txHash volume timer w ≠ w := by
  intro h
  have hhead : (watcherCommitLedger txHash volume timer w).head = (w.head + 1) % 64 :=
    watcherLogEvent_head ..
  rw [h] at hhead
  omega

end

/-- **A receipt carries its result exactly inside the 32-bit range.**  Everything else the
ledger owes an execution it always gets. -/
theorem carriesResult_iff (fmtValue : Value → List Char) (fuel : ℕ) (bytecode : Option Buf)
    (outBuf : Buf) (maxLen : ℕ) (host : Host) :
    CarriesResult fmtValue fuel bytecode outBuf maxLen host ↔
      ∀ e v, compile (sourceText bytecode maxLen) = .ok e →
        (evaluate fuel seededEnv (eraseProofs e) host.net).1 = .ok (.int v) →
          -2 ^ 31 < v.toInt ∧ v.toInt < 2 ^ 31 := by
  constructor
  · intro h e v he hv
    obtain ⟨out, host', hr⟩ :=
      @autarkyExecute_of_ended fmtValue fuel bytecode outBuf maxLen host e he (.inl ⟨_, hv⟩)
    obtain ⟨txHash, timer, hw, hvol⟩ := watcher_of_int he hv hr
    rw [← decStr_toInt32_iff, ← hvol]
    rcases (h _ out host' hr).1 e v he hv with ⟨context, timer', -, hnum⟩ | ⟨-, hsame⟩
    · exact hnum
    · exact absurd (hw.symm.trans hsame) (watcherCommitLedger_ne _ _ _ _)
  · intro h gas out host' hr
    refine ⟨fun e v he hv => ?_, fun hno => watcher_of_rejected hno hr,
      fun e msg he hv => watcher_of_err he hv hr⟩
    obtain ⟨txHash, timer, hw, hvol⟩ := watcher_of_int he hv hr
    exact .inl ⟨_, timer, hw, hvol.trans ((decStr_toInt32_iff v).2 (h e v he hv))⟩

/-- The receipt of `5000000000` says 705032704. -/
theorem wide_result_truncated :
    ¬ ∀ fmtValue fuel bytecode outBuf maxLen host,
      CarriesResult fmtValue fuel bytecode outBuf maxLen host := by
  intro h
  have hs : sourceText (some (cString (ascii "5000000000"))) 256 = "5000000000".toList := by
    rw [sourceText_cString (by decide) (by decide)]
    decide
  have hc : compile (sourceText (some (cString (ascii "5000000000"))) 256) =
      .ok (.intLiteral 5000000000) := by
    have hw : words "5000000000".toList = ["5000000000".toList] := by decide
    rw [hs, compile_eq_ok_iff, accepts_iff, parseWords_eq_ok_iff, hw]
    exact .word (by decide) (by decide)
  have hv : (evaluate 1 seededEnv (eraseProofs (.intLiteral 5000000000)) idleHost.net).1 =
      .ok (.int 5000000000) := rfl
  obtain ⟨out, host', hr⟩ := @autarkyExecute_of_ended (fun _ => []) 1 _ (fun _ => 0) 256 idleHost
    _ hc (.inl ⟨_, hv⟩)
  obtain ⟨txHash, timer, hw, hvol⟩ := watcher_of_int hc hv hr
  rcases (h _ 1 _ _ 256 idleHost _ out host' hr).1 _ _ hc hv with ⟨_, _, -, hnum⟩ | ⟨-, hsame⟩
  · have hbad : i32ToDecStr (Int64.toInt32 5000000000) = ascii (toString (5000000000 : ℤ)) :=
      hvol.symm.trans hnum
    exact absurd hbad (by decide)
  · exact absurd (hw.symm.trans hsame) (watcherCommitLedger_ne _ _ _ _)

/-! ### Transaction ids -/

/-- What `generate_tx_id` hashes: the bytes of the source, the volume, sign-extended, and the
nonce. -/
def txWords (source : List Char) (volume : Int32) (nonce : UInt64) : List UInt64 :=
  (utf8Bytes source).map UInt8.toUInt64 ++ [volume.toInt64.toUInt64, nonce]

theorem generateTxId_eq (source : List Char) (volume : Int32) (nonce : UInt64) :
    generateTxId source volume nonce =
      Fnv.hash 0x100000001b3 0xcbf29ce484222325 (txWords source volume nonce) := by
  rw [Fnv.hash, txWords, List.foldl_append, List.foldl_map]
  rfl

/-- The FNV prime is odd, so it has an inverse modulo `2^64`. -/
theorem fnvPrime_mul_inverse : (0x100000001b3 : UInt64) * 0xce965057aff6957b = 1 := by decide

theorem signExtend_inj {v v' : Int32} : v.toInt64.toUInt64 = v'.toInt64.toUInt64 ↔ v = v' := by
  constructor
  · intro h
    have h64 : v.toInt64 = v'.toInt64 := congrArg Int64.ofUInt64 h
    rw [← Int32.toInt_inj, ← Int32.toInt_toInt64 v, ← Int32.toInt_toInt64 v', h64]
  · rintro rfl
    rfl

/-- The nonce is the last of the words. -/
theorem generateTxId_inj_nonce {source : List Char} {volume : Int32} {nonce nonce' : UInt64} :
    generateTxId source volume nonce = generateTxId source volume nonce' ↔ nonce = nonce' := by
  have hwords (n : UInt64) : txWords source volume n =
      ((utf8Bytes source).map UInt8.toUInt64 ++ [volume.toInt64.toUInt64]) ++ [n] := by
    rw [txWords, List.append_assoc, List.singleton_append]
  rw [generateTxId_eq, generateTxId_eq, hwords, hwords]
  exact Fnv.hash_inj_at fnvPrime_mul_inverse _ []

/-- The volume is the word before it. -/
theorem generateTxId_inj_volume {source : List Char} {volume volume' : Int32} {nonce : UInt64} :
    generateTxId source volume nonce = generateTxId source volume' nonce ↔ volume = volume' := by
  rw [generateTxId_eq, generateTxId_eq]
  exact (Fnv.hash_inj_at fnvPrime_mul_inverse _ [nonce]).trans signExtend_inj

/-- **Executions of one source that differ in the volume or in the nonce have different ids.** -/
theorem generateTxId_inj (source : List Char) (volume volume' : Int32) (nonce nonce' : UInt64) :
    (generateTxId source volume nonce = generateTxId source volume nonce' ↔ nonce = nonce') ∧
      (generateTxId source volume nonce = generateTxId source volume' nonce ↔
        volume = volume') := by
  constructor
  · exact generateTxId_inj_nonce
  · exact generateTxId_inj_volume

end Autarky
end AiOsExchange
