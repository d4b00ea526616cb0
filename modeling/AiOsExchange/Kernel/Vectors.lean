/-
# Exceptions

`kernel/vectors.S`.  The macros `kernel_entry` and `kernel_exit` store the registers of the code that
was interrupted in a frame of 288 bytes on the kernel's stack, and take them back.

| offset | in the frame |
| --- | --- |
| `8 * n` | `xn`, for `n` up to 30 |
| `16 * 16`, `16 * 16 + 8` | `elr_el1`, `spsr_el1` |
| `16 * 17` | `sp_el0` |

Between them a C function runs that gets the address of the frame.  Of a call of `syscall_handler`
or `irq_handler` it matters what it does to the frame: one that comes back has the stack pointer as
it was, as all functions do, and no more of the frame is written than `sp[REG_X0]` (`KeepsFrame`).
Nothing else is assumed: what it leaves in `sp[REG_X0]` and in memory may depend on anything, the
stack below the frame, devices and timers included.

Such a system call gives the caller back all its registers but for the result in `x0`, an interrupt
all of them, and any other exception is reported (`exception_outcome`).
-/

import AiOsExchange.Lib.Frame
import Mathlib.Data.List.FinRange

namespace AiOsExchange
namespace Kernel

open Runs Frames

/-! ### The machine -/

/-- The registers that the code uses: the general ones, and system registers. -/
inductive Reg
  | x (n : Fin 31)
  | spEl0 | elrEl1 | spsrEl1 | esrEl1 | farEl1
  deriving DecidableEq

/-- Registers and memory, the stack pointer of the kernel, and where the code is. -/
structure Cpu extends Machine Reg UInt64 where
  sp : ℕ
  pc : UInt64
  pstate : UInt64

/-- `stp`. -/
def stp (a b : Reg) (off : ℕ) : List (Instr Reg) := stores [(a, off), (b, off + 8)]

/-- `ldp`. -/
def ldp (a b : Reg) (off : ℕ) : List (Instr Reg) := loads [(a, off), (b, off + 8)]

/-- `S_FRAME`: the size of the frame. -/
def frameSize : ℕ := 288

/-- The stores of `kernel_entry`. -/
def entryCode : List (Instr Reg) :=
  stp (.x 0) (.x 1) (16 * 0) ++ stp (.x 2) (.x 3) (16 * 1) ++ stp (.x 4) (.x 5) (16 * 2) ++
  stp (.x 6) (.x 7) (16 * 3) ++ stp (.x 8) (.x 9) (16 * 4) ++ stp (.x 10) (.x 11) (16 * 5) ++
  stp (.x 12) (.x 13) (16 * 6) ++ stp (.x 14) (.x 15) (16 * 7) ++ stp (.x 16) (.x 17) (16 * 8) ++
  stp (.x 18) (.x 19) (16 * 9) ++ stp (.x 20) (.x 21) (16 * 10) ++ stp (.x 22) (.x 23) (16 * 11) ++
  stp (.x 24) (.x 25) (16 * 12) ++ stp (.x 26) (.x 27) (16 * 13) ++ stp (.x 28) (.x 29) (16 * 14) ++
  [.str (.x 30) (16 * 15)] ++
  [.mov (.x 21) .elrEl1, .mov (.x 22) .spsrEl1] ++ stp (.x 21) (.x 22) (16 * 16) ++
  [.mov (.x 21) .spEl0, .str (.x 21) (16 * 17)]

/-- The loads of `kernel_exit`. -/
def exitCode : List (Instr Reg) :=
  [.ldr (.x 21) (16 * 17), .mov .spEl0 (.x 21)] ++
  ldp (.x 21) (.x 22) (16 * 16) ++ [.mov .elrEl1 (.x 21), .mov .spsrEl1 (.x 22)] ++
  ldp (.x 28) (.x 29) (16 * 14) ++ [.ldr (.x 30) (16 * 15)] ++ ldp (.x 26) (.x 27) (16 * 13) ++
  ldp (.x 24) (.x 25) (16 * 12) ++ ldp (.x 22) (.x 23) (16 * 11) ++ ldp (.x 20) (.x 21) (16 * 10) ++
  ldp (.x 18) (.x 19) (16 * 9) ++ ldp (.x 16) (.x 17) (16 * 8) ++ ldp (.x 14) (.x 15) (16 * 7) ++
  ldp (.x 12) (.x 13) (16 * 6) ++ ldp (.x 10) (.x 11) (16 * 5) ++ ldp (.x 8) (.x 9) (16 * 4) ++
  ldp (.x 6) (.x 7) (16 * 3) ++ ldp (.x 4) (.x 5) (16 * 2) ++ ldp (.x 2) (.x 3) (16 * 1) ++
  ldp (.x 0) (.x 1) (16 * 0)

/-- `kernel_entry`. -/
def kernelEntry (c : Cpu) : Cpu :=
  { c with
    toMachine := run (exec (c.sp - frameSize)) c.toMachine entryCode
    sp := c.sp - frameSize }

/-- `kernel_exit`, up to its `eret`. -/
def kernelExit (c : Cpu) : Cpu :=
  let m := run (exec c.sp) c.toMachine exitCode
  { toMachine := m, sp := c.sp + frameSize, pc := m.regs .elrEl1, pstate := m.regs .spsrEl1 }

/-- `mov x0, sp`. -/
def withFrame (c : Cpu) : Cpu := { c with regs := Function.update c.regs (.x 0) (.ofNat c.sp) }

/-- `mov x0, sp` and `bl`. -/
def callWithFrame (f : Cpu → Cpu) (c : Cpu) : Cpu := f (withFrame c)

/-- What becomes of an exception: the code goes on, or `fatal_exception_handler` gets its
arguments. -/
inductive Outcome
  | resumed (c : Cpu)
  | halted (id esr elr far : UInt64)

/-- `mrs x1, esr_el1` and `lsr x2, x1, #26`. -/
def readClass (c : Cpu) : Cpu :=
  let esr := c.regs .esrEl1
  { c with regs := Function.update (Function.update c.regs (.x 1) esr) (.x 2) (esr >>> 26) }

/-- `kernel_sync` and `el0_sync`. -/
def syncHandler (id : UInt64) (syscallHandler : Cpu → Cpu) (c : Cpu) : Outcome :=
  let c := readClass (kernelEntry c)
  if c.regs (.x 2) = 0x15 then .resumed (kernelExit (callWithFrame syscallHandler c))
  else .halted id (c.regs (.x 1)) (c.regs .elrEl1) (c.regs .farEl1)

/-- The machine as `syscall_handler` finds it, -/
def atSyscall (c : Cpu) : Cpu := withFrame (readClass (kernelEntry c))

/-- and as `irq_handler` does. -/
def atIrq (c : Cpu) : Cpu := withFrame (kernelEntry c)

/-- `kernel_irq` and `el0_irq`. -/
def irqEntry (irqHandler : Cpu → Cpu) (c : Cpu) : Cpu :=
  kernelExit (callWithFrame irqHandler (kernelEntry c))

/-- The table at `vectors`; an entry without a handler of its own gives its number. -/
def vectors (syscallHandler irqHandler : Cpu → Cpu) (vector : Fin 16) (c : Cpu) : Outcome :=
  match vector with
  | 4 => syncHandler 0x11 syscallHandler c
  | 8 => syncHandler 0x01 syscallHandler c
  | 5 | 9 => .resumed (irqEntry irqHandler c)
  | _ => .halted (.ofNat vector) (c.regs .esrEl1) (c.regs .elrEl1) (c.regs .farEl1)

/-- The vectors of exceptions in user space. -/
abbrev el0SyncVector : Fin 16 := 8

abbrev el0IrqVector : Fin 16 := 9

/-- The registers of a system call. -/
abbrev x0 : Fin 31 := 0

abbrev x8 : Fin 31 := 8

/-- What the processor does when it takes an exception: where the code is to go on and the syndrome
come to system registers. -/
def takeException (ret esr far : UInt64) (c : Cpu) : Cpu :=
  let regs := Function.update (Function.update c.regs .elrEl1 ret) .spsrEl1 c.pstate
  { c with regs := Function.update (Function.update regs .esrEl1 esr) .farEl1 far }

section
variable {ret esr far : UInt64} {c : Cpu}

@[simp] theorem takeException_elr : (takeException ret esr far c).regs .elrEl1 = ret := by
  simp [takeException]

@[simp] theorem takeException_esr : (takeException ret esr far c).regs .esrEl1 = esr := by
  simp [takeException]

@[simp] theorem takeException_far : (takeException ret esr far c).regs .farEl1 = far := by
  simp [takeException]

@[simp] theorem takeException_x (n : Fin 31) :
    (takeException ret esr far c).regs (.x n) = c.regs (.x n) := by
  simp [takeException]

end

/-! ### The frame -/

/-- Where `kernel_entry` has the general registers, -/
def frameSlots : List (Reg × ℕ) := (List.finRange 31).map fun n => (.x n, 8 * n)

/-- and the order in which `kernel_exit` takes them back. -/
def takenBack : List (Reg × ℕ) :=
  [28, 29, 30, 26, 27, 24, 25, 22, 23, 20, 21, 18, 19, 16, 17, 14, 15, 12, 13, 10, 11, 8, 9, 6, 7, 4,
    5, 2, 3, 0, 1].map fun n => (.x n, 8 * n)

theorem entryCode_eq : entryCode = stores frameSlots ++
    [.mov (.x 21) .elrEl1, .mov (.x 22) .spsrEl1, .str (.x 21) 256, .str (.x 22) 264,
      .mov (.x 21) .spEl0, .str (.x 21) 272] := rfl

theorem exitCode_eq : exitCode =
    [.ldr (.x 21) 272, .mov .spEl0 (.x 21), .ldr (.x 21) 256, .ldr (.x 22) 264,
      .mov .elrEl1 (.x 21), .mov .spsrEl1 (.x 22)] ++ loads takenBack := rfl

section
variable {base : ℕ} {m : Machine Reg UInt64}

/-- **What `kernel_entry` leaves in the frame.** -/
theorem mem_entryCode (n : Fin 31) :
    (run (exec base) m entryCode).mem (base + 8 * n) = m.regs (.x n) := by
  have hn := n.isLt
  have hslots : (frameSlots.map Prod.snd).Nodup := by decide
  have hmem : ((.x n, 8 * n) : Reg × ℕ) ∈ frameSlots :=
    List.mem_map_of_mem (List.mem_finRange n)
  rw [entryCode_eq, run_append]
  refine (mem_run_of_ne fun off hoff => ?_).trans (mem_stores hslots hmem)
  have hoff : off = 256 ∨ off = 264 ∨ off = 272 := by simpa [storeOffsets] using hoff
  omega

theorem mem_entryCode_sys :
    (run (exec base) m entryCode).mem (base + 256) = m.regs .elrEl1 ∧
      (run (exec base) m entryCode).mem (base + 264) = m.regs .spsrEl1 ∧
      (run (exec base) m entryCode).mem (base + 272) = m.regs .spEl0 := by
  rw [entryCode_eq, run_append]
  simp [exec]

/-- **What `kernel_exit` takes from it.** -/
theorem regs_exitCode (n : Fin 31) :
    (run (exec base) m exitCode).regs (.x n) = m.mem (base + 8 * n) := by
  have hregs : (takenBack.map Prod.fst).Nodup := by decide
  have hall : ∀ n : Fin 31, ((.x n, 8 * n) : Reg × ℕ) ∈ takenBack := by decide
  rw [exitCode_eq, run_append, regs_loads hregs (hall n)]
  rfl

theorem regs_exitCode_sys :
    (run (exec base) m exitCode).regs .elrEl1 = m.mem (base + 256) ∧
      (run (exec base) m exitCode).regs .spsrEl1 = m.mem (base + 264) ∧
      (run (exec base) m exitCode).regs .spEl0 = m.mem (base + 272) := by
  have hne (r : Reg) (hr : ∀ n, r ≠ .x n) : ∀ p ∈ takenBack, r ≠ p.1 := by
    intro p hp
    obtain ⟨n, -, rfl⟩ := List.mem_map.1 hp
    exact hr n
  rw [exitCode_eq, run_append, regs_loads_of_ne (hne _ (by simp)), regs_loads_of_ne (hne _ (by simp)),
    regs_loads_of_ne (hne _ (by simp))]
  simp [exec]

end

/-! ### There and back -/

/-- The words of the kernel's stack: `boot.S` reserves it from `stack_bottom` to `stack_top`. -/
def OnStack (bottom top a : ℕ) : Prop := bottom ≤ a ∧ a < top

/-- All other words. -/
abbrev Words (bottom top : ℕ) := {a // ¬ OnStack bottom top a} → UInt64

/-- What is in them. -/
def Cpu.words (bottom top : ℕ) (c : Cpu) : Words bottom top := fun a => c.mem a

/-- A function that is called with a frame leaves the stack pointer and writes no more of the frame
than `sp[REG_X0]`. -/
structure KeepsFrame (f : Cpu → Cpu) (c : Cpu) : Prop where
  sp : (f c).sp = c.sp
  rest : ∀ a, 0 < a → a < frameSize → (f c).mem (c.sp + a) = c.mem (c.sp + a)

/-- What it leaves in `sp[REG_X0]` and in the words that are not on the stack. -/
def leaves (bottom top : ℕ) (f : Cpu → Cpu) (c : Cpu) : UInt64 × Words bottom top :=
  ((f c).mem c.sp, (f c).words bottom top)

/-- It leaves these as they were, too. -/
structure KeepsAll (bottom top : ℕ) (f : Cpu → Cpu) (c : Cpu) : Prop extends KeepsFrame f c where
  leaves_eq : leaves bottom top f c = (c.mem c.sp, c.words bottom top)

/-- The frame of `c` is that of an exception taken in `s`, with `r` for `x0` and for the words that
are not on the stack. -/
structure Framed (bottom top : ℕ) (c s : Cpu) (r : UInt64 × Words bottom top) : Prop where
  sp : c.sp + frameSize = s.sp
  first : c.mem c.sp = r.1
  general : ∀ n : Fin 31, n ≠ 0 → c.mem (c.sp + 8 * n) = s.regs (.x n)
  elr : c.mem (c.sp + 256) = s.regs .elrEl1
  spsr : c.mem (c.sp + 264) = s.regs .spsrEl1
  spEl0 : c.mem (c.sp + 272) = s.regs .spEl0
  words : c.words bottom top = r.2

/-- How a function is called in an exception taken in `s`: with the address of a frame that has the
registers of `s`. -/
structure CalledWith (bottom top : ℕ) (c s : Cpu) : Prop where
  address : c.regs (.x 0) = .ofNat c.sp
  framed : Framed bottom top c s (s.regs (.x 0), s.words bottom top)

/-- The code goes on at `ret` as it was in `s`, with `r` for `x0` and for the words that are not on
the stack. -/
structure Resumes (bottom top : ℕ) (c s : Cpu) (ret : UInt64) (r : UInt64 × Words bottom top) :
    Prop where
  first : c.regs (.x 0) = r.1
  general : ∀ n : Fin 31, n ≠ 0 → c.regs (.x n) = s.regs (.x n)
  spEl0 : c.regs .spEl0 = s.regs .spEl0
  words : c.words bottom top = r.2
  sp : c.sp = s.sp
  pc : c.pc = ret
  pstate : c.pstate = s.pstate

/-- There is room for a frame. -/
structure Room (bottom top : ℕ) (s : Cpu) : Prop where
  bottom : bottom + frameSize ≤ s.sp
  top : s.sp ≤ top

section
variable {bottom top : ℕ} {c s : Cpu} {f : Cpu → Cpu} {r : UInt64 × Words bottom top}
  {ret esr far : UInt64}

theorem Room.takeException (h : Room bottom top s) : Room bottom top (takeException ret esr far s) :=
  ⟨h.bottom, h.top⟩

/-- `kernel_entry` writes to the stack. -/
theorem words_kernelEntry (h : Room bottom top s) :
    (kernelEntry s).words bottom top = s.words bottom top := by
  obtain ⟨hbottom, htop⟩ := h
  funext a
  refine mem_run_of_ne fun off hoff heq => a.2 ?_
  have hoffs : ∀ off ∈ storeOffsets entryCode, off < frameSize := by decide
  have hlt := hoffs off hoff
  rw [OnStack, heq]
  omega

theorem framed_kernelEntry (h : Room bottom top s) :
    Framed bottom top (kernelEntry s) s (s.regs (.x 0), s.words bottom top) := by
  have hfirst := @mem_entryCode (s.sp - frameSize) s.toMachine 0
  obtain ⟨helr, hspsr, hspEl0⟩ := @mem_entryCode_sys (s.sp - frameSize) s.toMachine
  have hle : frameSize ≤ s.sp := (Nat.le_add_left _ _).trans h.bottom
  rw [Fin.val_zero, Nat.mul_zero, Nat.add_zero] at hfirst
  exact ⟨Nat.sub_add_cancel hle, hfirst, fun n _ => mem_entryCode n, helr, hspsr, hspEl0,
    words_kernelEntry h⟩

theorem Framed.readClass (h : Framed bottom top c s r) : Framed bottom top (readClass c) s r :=
  ⟨h.sp, h.first, h.general, h.elr, h.spsr, h.spEl0, h.words⟩

theorem calledWith_withFrame (h : Framed bottom top c s (s.regs (.x 0), s.words bottom top)) :
    CalledWith bottom top (withFrame c) s where
  address := by simp [withFrame]
  framed := ⟨h.sp, h.first, h.general, h.elr, h.spsr, h.spEl0, h.words⟩

/-- **The frame that the handlers get** has the registers of the interrupted code. -/
theorem calledWith_atIrq (h : Room bottom top s) : CalledWith bottom top (atIrq s) s :=
  calledWith_withFrame (framed_kernelEntry h)

theorem calledWith_atSyscall (h : Room bottom top s) : CalledWith bottom top (atSyscall s) s :=
  calledWith_withFrame (framed_kernelEntry h).readClass

/-- **The function keeps the frame**, but for what it leaves. -/
theorem Framed.call (h : Framed bottom top c s r) (hf : KeepsFrame f c) :
    Framed bottom top (f c) s (leaves bottom top f c) := by
  have hrest {a : ℕ} (h0 : 0 < a) (ha : a < frameSize) :
      (f c).mem ((f c).sp + a) = c.mem (c.sp + a) := by
    rw [hf.sp]
    exact hf.rest a h0 ha
  refine ⟨by rw [hf.sp, h.sp], by rw [hf.sp]; rfl, fun n hn => ?_, ?_, ?_, ?_, rfl⟩
  · have hpos : n.val ≠ 0 := fun h0 => hn (Fin.ext h0)
    have hlt := n.isLt
    rw [hrest (by omega) (by rw [frameSize]; omega), h.general n hn]
  · rw [hrest (by omega) (by rw [frameSize]; omega), h.elr]
  · rw [hrest (by omega) (by rw [frameSize]; omega), h.spsr]
  · rw [hrest (by omega) (by rw [frameSize]; omega), h.spEl0]

/-- **What was saved is taken back.** -/
theorem Framed.exit (h : Framed bottom top c (takeException ret esr far s) r) :
    Resumes bottom top (kernelExit c) s ret r := by
  have hfirst := @regs_exitCode c.sp c.toMachine 0
  obtain ⟨helr, hspsr, hspEl0⟩ := @regs_exitCode_sys c.sp c.toMachine
  have hmem : (run (exec c.sp) c.toMachine exitCode).mem = c.mem := by
    rw [exitCode_eq, run_append, mem_loads]
    rfl
  have hwords : (kernelExit c).words bottom top = c.words bottom top := funext fun a => congrFun hmem a
  rw [Fin.val_zero, Nat.mul_zero, Nat.add_zero, h.first] at hfirst
  rw [h.elr] at helr
  rw [h.spsr] at hspsr
  rw [h.spEl0] at hspEl0
  exact ⟨hfirst, fun n hn => (regs_exitCode n).trans (h.general n hn), hspEl0, hwords.trans h.words,
    h.sp, helr, hspsr⟩

/-- `kernel_entry` uses two registers. -/
theorem regs_kernelEntry {r : Reg} (h21 : r ≠ .x 21) (h22 : r ≠ .x 22) :
    (kernelEntry s).regs r = s.regs r := by
  rw [kernelEntry, entryCode_eq, run_append]
  simp [exec, h21, h22]

/-- **An interrupt** gives back what its handler does not change. -/
theorem irqEntry_resumes (h : Room bottom top s)
    (hf : KeepsAll bottom top f (atIrq (takeException ret esr far s))) :
    Resumes bottom top (irqEntry f (takeException ret esr far s)) s ret
      (s.regs (.x 0), s.words bottom top) := by
  have hframed := (calledWith_atIrq (@Room.takeException _ _ _ ret esr far h)).framed
  have hcall := hframed.call hf.toKeepsFrame
  rw [hf.leaves_eq, hframed.first, hframed.words, takeException_x] at hcall
  exact hcall.exit

/-- What the handlers of synchronous exceptions look at. -/
theorem syncHandler_eq (id : UInt64) : syncHandler id f s =
    if s.regs .esrEl1 >>> 26 = 0x15 then
      .resumed (kernelExit (callWithFrame f (readClass (kernelEntry s))))
    else .halted id (s.regs .esrEl1) (s.regs .elrEl1) (s.regs .farEl1) := by
  have hesr : (kernelEntry s).regs .esrEl1 = s.regs .esrEl1 := regs_kernelEntry (by simp) (by simp)
  have helr : (kernelEntry s).regs .elrEl1 = s.regs .elrEl1 := regs_kernelEntry (by simp) (by simp)
  have hfar : (kernelEntry s).regs .farEl1 = s.regs .farEl1 := regs_kernelEntry (by simp) (by simp)
  have h1 : (readClass (kernelEntry s)).regs (.x 1) = s.regs .esrEl1 := by simp [readClass, hesr]
  have h2 : (readClass (kernelEntry s)).regs (.x 2) = s.regs .esrEl1 >>> 26 := by
    simp [readClass, hesr]
  have h3 : (readClass (kernelEntry s)).regs .elrEl1 = s.regs .elrEl1 := by simp [readClass, helr]
  have h4 : (readClass (kernelEntry s)).regs .farEl1 = s.regs .farEl1 := by simp [readClass, hfar]
  rw [syncHandler]
  simp only [h1, h2, h3, h4]

/-- **A system call** gives back all registers but `x0`. -/
theorem syncHandler_resumes (h : Room bottom top s)
    (hf : KeepsFrame f (atSyscall (takeException ret esr far s))) (id : UInt64)
    (hclass : esr >>> 26 = 0x15) :
    ∃ c, syncHandler id f (takeException ret esr far s) = .resumed c ∧
      Resumes bottom top c s ret
        (leaves bottom top f (atSyscall (takeException ret esr far s))) := by
  have hcalled := calledWith_atSyscall (@Room.takeException _ _ _ ret esr far h)
  refine ⟨_, ?_, (hcalled.framed.call hf).exit⟩
  rw [syncHandler_eq, takeException_esr, if_pos hclass]
  rfl

/-- **Another exception of these vectors** is reported. -/
theorem syncHandler_halted (id : UInt64) (hclass : esr >>> 26 ≠ 0x15) :
    syncHandler id f (takeException ret esr far s) = .halted id esr ret far := by
  rw [syncHandler_eq, takeException_esr, if_neg hclass, takeException_elr, takeException_far]

end

/-! ### The vectors -/

/-- The vectors of synchronous exceptions, from the kernel and from user space, -/
def IsSync (vector : Fin 16) : Prop := vector = 4 ∨ vector = 8

/-- and of interrupts. -/
def IsIrq (vector : Fin 16) : Prop := vector = 5 ∨ vector = 9

/-- What `fatal_exception_handler` gets as `id`. -/
def panicId (vector : Fin 16) : UInt64 :=
  if vector = 4 then 0x11 else if vector = 8 then 0x01 else .ofNat vector

/-- Two exceptions have one `id`. -/
theorem panicId_eq_iff {v w : Fin 16} :
    panicId v = panicId w ↔ v = w ∨ v = 1 ∧ w = 8 ∨ v = 8 ∧ w = 1 := by
  revert v w
  decide

/-- The exceptions that are not crashes. -/
def IsHandled (vector : Fin 16) (esr : UInt64) : Prop :=
  IsSync vector ∧ esr >>> 26 = 0x15 ∨ IsIrq vector

instance {vector : Fin 16} {esr : UInt64} : Decidable (IsHandled vector esr) :=
  inferInstanceAs (Decidable ((vector = 4 ∨ vector = 8) ∧ _ ∨ (vector = 5 ∨ vector = 9)))

/-- **All other exceptions are reported.** -/
theorem vectors_halted {syscallHandler irqHandler : Cpu → Cpu} {s : Cpu} {vector : Fin 16}
    {ret esr far : UInt64} (h : ¬ IsHandled vector esr) :
    vectors syscallHandler irqHandler vector (takeException ret esr far s) =
      .halted (panicId vector) esr ret far := by
  by_cases h4 : vector = 4
  · subst h4
    exact syncHandler_halted 0x11 fun hclass => h (.inl ⟨.inl rfl, hclass⟩)
  · by_cases h8 : vector = 8
    · subst h8
      exact syncHandler_halted 0x01 fun hclass => h (.inl ⟨.inr rfl, hclass⟩)
    · rw [panicId, if_neg h4, if_neg h8, vectors.eq_def]
      split
      · exact absurd rfl h4
      · exact absurd rfl h8
      · exact absurd (.inr (.inl rfl)) h
      · exact absurd (.inr (.inr rfl)) h
      · rw [takeException_esr, takeException_elr, takeException_far]

/-- **What becomes of an exception.**  A system call is made with the frame of the caller; one that
comes back and keeps the frame gives the caller back its registers but for the result in `x0`.  An
interrupt whose handler changes nothing gives back all of them, and anything else is reported with
its syndrome and its addresses. -/
theorem exception_outcome {bottom top : ℕ} (syscallHandler irqHandler : Cpu → Cpu) {s : Cpu}
    (h : Room bottom top s) (vector : Fin 16) (ret esr far : UInt64) :
    let s' := takeException ret esr far s
    (IsSync vector → esr >>> 26 = 0x15 → CalledWith bottom top (atSyscall s') s' ∧
      (KeepsFrame syscallHandler (atSyscall s') →
        ∃ c, vectors syscallHandler irqHandler vector s' = .resumed c ∧
          Resumes bottom top c s ret (leaves bottom top syscallHandler (atSyscall s')))) ∧
    (IsIrq vector → CalledWith bottom top (atIrq s') s' ∧
      (KeepsAll bottom top irqHandler (atIrq s') →
        ∃ c, vectors syscallHandler irqHandler vector s' = .resumed c ∧
          Resumes bottom top c s ret (s.regs (.x 0), s.words bottom top))) ∧
    (¬ IsHandled vector esr →
      vectors syscallHandler irqHandler vector s' = .halted (panicId vector) esr ret far) := by
  intro s'
  have hroom : Room bottom top s' := h.takeException
  refine ⟨fun hsync hclass => ⟨calledWith_atSyscall hroom, fun hf => ?_⟩,
    fun hirq => ⟨calledWith_atIrq hroom, fun hf => ?_⟩, vectors_halted⟩
  · rcases hsync with rfl | rfl
    · exact syncHandler_resumes h hf 0x11 hclass
    · exact syncHandler_resumes h hf 0x01 hclass
  · rcases hirq with rfl | rfl
    · exact ⟨_, rfl, irqEntry_resumes h hf⟩
    · exact ⟨_, rfl, irqEntry_resumes h hf⟩

/-- What `SYS_UART_RECV` does when an `A` has come. -/
def recvA (c : Cpu) : Cpu :=
  if c.mem (c.sp + 8 * 8) = 5 then { c with mem := Function.update c.mem c.sp 65 } else c

theorem keepsFrame_recvA (c : Cpu) : KeepsFrame recvA c where
  sp := by
    rw [recvA]
    split <;> rfl
  rest a h0 _ := by
    rw [recvA]
    split
    · exact Function.update_of_ne (by omega) _ _
    · rfl

theorem leaves_recvA {bottom top : ℕ} {c : Cpu} (h : c.mem (c.sp + 8 * 8) = 5) :
    (leaves bottom top recvA c).1 = 65 := by
  rw [leaves, recvA, if_pos h]
  exact Function.update_self _ _ _

/-- A function that does nothing, as `irq_handler`. -/
theorem keepsAll_id (bottom top : ℕ) (c : Cpu) : KeepsAll bottom top id c :=
  ⟨⟨rfl, fun _ _ _ => rfl⟩, rfl⟩

/-- Code at `0x1000` with 5 in `x8`. -/
def caller : Cpu where
  regs := Function.update (fun _ => 0) (.x 8) 5
  mem _ := 0
  sp := 16384
  pc := 0x1000
  pstate := 0

theorem room_caller : Room 0 16384 caller := ⟨by decide, by decide⟩

/-- It gets its letter. -/
theorem letter_received : ∃ c, vectors recvA id 8 (takeException 0x1004 0x56000000 0 caller) =
    .resumed c ∧ c.regs (.x 0) = 65 ∧ c.regs (.x 8) = 5 ∧ c.pc = 0x1004 := by
  obtain ⟨hcalled, hresumes⟩ := (exception_outcome recvA id room_caller 8 0x1004 0x56000000 0).1
    (.inr rfl) (by decide)
  obtain ⟨c, hc, hres⟩ := hresumes (keepsFrame_recvA _)
  have hnum := hcalled.framed.general 8 (by decide)
  rw [takeException_x] at hnum
  exact ⟨c, hc, hres.first.trans (leaves_recvA (hnum.trans (by simp [caller]))),
    (hres.general 8 (by decide)).trans (by simp [caller]), hres.pc⟩

end Kernel
end AiOsExchange
