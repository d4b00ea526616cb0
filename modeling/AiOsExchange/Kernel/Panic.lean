/-
# The report of an exception

`uart_print_hex` (`kernel/uart.c`) and `fatal_exception_handler` (`kernel/main.c`).  The loop takes
nibbles from the end, as `u64_to_hex_str` takes them from the front (`uartPrintHex_eq`).  So a report
is all there is to know about an exception that is not handled: two reports are alike only if
their syndromes and addresses are, and their vectors but for 1 and 8 (`report_eq_iff`), since
`el0_sync` calls itself 1.
-/

import AiOsExchange.Kernel.Vectors
import AiOsExchange.Watcher.Decoded

namespace AiOsExchange
namespace Kernel

open CMemory Watcher

/-- The loop of `uart_print_hex`, which writes the last digit first. -/
def hexDigits : ℕ → UInt64 → List UInt8
  | 0, _ => []
  | n + 1, val => hexChars.getD (val &&& 0xF).toNat 0 :: hexDigits n (val >>> 4)

/-- `uart_print_hex`. -/
def uartPrintHex (val : UInt64) : List UInt8 := ascii "0x" ++ (hexDigits 16 val).reverse

/-- What `fatal_exception_handler` prints before it waits for ever. -/
def fatalExceptionHandler (id esr elr far : UInt64) : List UInt8 :=
  ascii "\n========================================\n" ++
  ascii "[ KERNEL PANIC ] HARDWARE EXCEPTION\n" ++
  ascii "========================================\n" ++
  ascii "Vector ID : " ++ uartPrintHex id ++ ascii "\n" ++
  ascii "ESR_EL1   : " ++ uartPrintHex esr ++ ascii " (Syndrome / Cause)\n" ++
  ascii "FAR_EL1   : " ++ uartPrintHex far ++ ascii " (Fault Address)\n" ++
  ascii "ELR_EL1   : " ++ uartPrintHex elr ++ ascii " (Instruction PC)\n" ++
  ascii "========================================\n" ++
  ascii "System Halted.\n"

/-- What is printed about an exception. -/
def Outcome.report : Outcome → List UInt8
  | .resumed _ => []
  | .halted id esr elr far => fatalExceptionHandler id esr elr far

/-! ### Numbers -/

theorem hexDigits_eq (n : ℕ) (val : UInt64) :
    hexDigits n val = (List.range n).map fun i => hexChars.getD (val.toNat / 16 ^ i % 16) 0 := by
  induction n generalizing val with
  | zero => rfl
  | succ n ih =>
      have hlow : (val &&& 0xF).toNat = val.toNat / 16 ^ 0 % 16 := by
        rw [UInt64.toNat_and, pow_zero, Nat.div_one]
        exact Nat.and_two_pow_sub_one_eq_mod val.toNat 4
      have hnext (i : ℕ) : (val >>> 4).toNat / 16 ^ i = val.toNat / 16 ^ (i + 1) := by
        rw [UInt64.toNat_shiftRight, Nat.shiftRight_eq_div_pow, Nat.div_div_eq_div_mul, pow_succ']
        rfl
      rw [hexDigits, ih, List.range_succ_eq_map, List.map_cons, List.map_map, hlow]
      refine congrArg _ (List.map_congr_left fun i _ => ?_)
      rw [hnext]
      rfl

/-- Both loops write the same text. -/
theorem uartPrintHex_eq (val : UInt64) : uartPrintHex val = ascii "0x" ++ u64ToHexStr val := by
  rw [uartPrintHex, hexDigits_eq]
  rfl

theorem uartPrintHex_inj {val val' : UInt64} : uartPrintHex val = uartPrintHex val' ↔ val = val' := by
  refine ⟨fun h => ?_, congrArg _⟩
  rw [uartPrintHex_eq, uartPrintHex_eq, List.append_cancel_left_eq] at h
  have hread := (readDigits_u64ToHexStr val).symm.trans
    ((congrArg (readDigits hexChars) h).trans (readDigits_u64ToHexStr val'))
  exact UInt64.toNat_inj.1 (Option.some.inj hread)

theorem uartPrintHex_length (val : UInt64) : (uartPrintHex val).length = 18 := by
  rw [uartPrintHex_eq, List.length_append, u64ToHexStr_length]
  rfl

/-! ### Reports -/

section
variable {id id' esr esr' elr elr' far far' : UInt64}

/-- Texts with a number in the same place are alike if the number and the rest are. -/
theorem number_append_inj {val val' : UInt64} {rest rest' : List UInt8} :
    uartPrintHex val ++ rest = uartPrintHex val' ++ rest' ↔ val = val' ∧ rest = rest' := by
  rw [← uartPrintHex_inj]
  refine ⟨fun h => List.append_inj h ?_, fun h => by rw [h.1, h.2]⟩
  rw [uartPrintHex_length, uartPrintHex_length]

/-- **A report tells its numbers.** -/
theorem fatalExceptionHandler_inj :
    fatalExceptionHandler id esr elr far = fatalExceptionHandler id' esr' elr' far' ↔
      id = id' ∧ esr = esr' ∧ far = far' ∧ elr = elr' := by
  simp only [fatalExceptionHandler, List.append_assoc, List.append_cancel_left_eq, number_append_inj,
    and_true]

end

/-- **What a report leaves open.**  Of two exceptions that are not handled the reports are alike if
and only if their syndromes, addresses and vectors are, except that an exception from user space
calls itself as vector 1 does. -/
theorem report_eq_iff {syscallHandler irqHandler : Cpu → Cpu} {s s' : Cpu} {v w : Fin 16}
    {ret ret' esr esr' far far' : UInt64} (hv : ¬ IsHandled v esr) (hw : ¬ IsHandled w esr') :
    (vectors syscallHandler irqHandler v (takeException ret esr far s)).report =
        (vectors syscallHandler irqHandler w (takeException ret' esr' far' s')).report ↔
      (v = w ∨ v = 1 ∧ w = 8 ∨ v = 8 ∧ w = 1) ∧ esr = esr' ∧ far = far' ∧ ret = ret' := by
  rw [vectors_halted hv, vectors_halted hw, ← panicId_eq_iff]
  exact fatalExceptionHandler_inj

/-- A crash in user space reads as one of vector 1, but not as one at another address. -/
theorem crash_report :
    (vectors recvA id 8 (takeException 0x1000 0x92000047 0 caller)).report =
        (vectors recvA id 1 (takeException 0x1000 0x92000047 0 caller)).report ∧
      (vectors recvA id 8 (takeException 0x1000 0x92000047 0 caller)).report ≠
        (vectors recvA id 8 (takeException 0x1004 0x92000047 0 caller)).report := by
  constructor
  · exact (report_eq_iff (by decide) (by decide)).2 ⟨.inr (.inr ⟨rfl, rfl⟩), rfl, rfl, rfl⟩
  · intro h
    have hret := ((report_eq_iff (by decide) (by decide)).1 h).2.2.2
    exact absurd hret (by decide)

end Kernel
end AiOsExchange
