/-
# Code in user space

What code in user space makes of the exceptions of `kernel/vectors.S`.  It sees its registers and all
memory but the kernel's stack (`View`), and takes steps; a step may be an `svc`, or crash, and
interrupts come at any point (`Event`).

| | the machine | the process |
| --- | --- | --- |
| a step of its own | changes what it sees | the same |
| `svc` | vector 8, `syscall_handler` | a call: `x0` and memory are as it was answered |
| another synchronous exception | vector 8 | the end, and a report |
| an interrupt | vector 9, `irq_handler` | nothing |

What a call is answered is what `syscall_handler` left in the frame and in memory, and it may depend
on anything: on the stack below the frame too, where an interrupt has been before.  So it is read off
the run of the machine (`ProcessEvent.of`), and the machine is a process that gets these answers and
has no interrupts (`process_reading`, `interrupts_unseen`).  What devices have to say during a call is
in the event.
-/

import AiOsExchange.Kernel.Panic
import AiOsExchange.Lib.Refine

namespace AiOsExchange
namespace Kernel

open Runs Frames CMemory

/-! ### What the process sees -/

/-- Registers, and memory but for the kernel's stack. -/
structure View (bottom top : ℕ) where
  x : Fin 31 → UInt64
  spEl0 : UInt64
  pc : UInt64
  pstate : UInt64
  words : Words bottom top

instance {bottom top a : ℕ} : Decidable (OnStack bottom top a) :=
  inferInstanceAs (Decidable (_ ∧ _))

/-- What the process sees of the machine, -/
def Cpu.view (bottom top : ℕ) (c : Cpu) : View bottom top where
  x n := c.regs (.x n)
  spEl0 := c.regs .spEl0
  pc := c.pc
  pstate := c.pstate
  words := c.words bottom top

/-- and the machine when it sees `v` instead. -/
def Cpu.seen {bottom top : ℕ} (c : Cpu) (v : View bottom top) : Cpu where
  regs r :=
    match r with
    | .x n => v.x n
    | .spEl0 => v.spEl0
    | r => c.regs r
  mem a := if h : OnStack bottom top a then c.mem a else v.words ⟨a, h⟩
  sp := c.sp
  pc := v.pc
  pstate := v.pstate

/-- What happens: a step of the process, a synchronous exception, or an interrupt.  `W` is what the
devices say in the meantime. -/
inductive Event (W : Type*) (bottom top : ℕ)
  | step (f : View bottom top → View bottom top)
  | sync (w : W) (esr far : UInt64)
  | irq (w : W) (esr far : UInt64)

/-- Where a synchronous exception returns: behind an `svc`, and to the instruction that failed. -/
def returnAddress (esr pc : UInt64) : UInt64 := if esr >>> 26 = 0x15 then pc + 4 else pc

section
variable {W : Type*} {bottom top : ℕ}

/-! ### The machine -/

/-- An exception taken in `c`, with what is printed. -/
def taken (syscallHandler irqHandler : Cpu → Cpu) (vector : Fin 16) (ret esr far : UInt64) (c : Cpu) :
    List UInt8 × Outcome :=
  let o := vectors syscallHandler irqHandler vector (takeException ret esr far c)
  (o.report, o)

/-- An event on the machine, with what is printed. -/
def onMachine (syscallHandler irqHandler : W → Cpu → Cpu) :
    Outcome → Event W bottom top → List UInt8 × Outcome
  | .halted id esr elr far, _ => ([], .halted id esr elr far)
  | .resumed c, .step f => ([], .resumed (c.seen (f (c.view bottom top))))
  | .resumed c, .sync w esr far =>
      taken (syscallHandler w) (irqHandler w) el0SyncVector (returnAddress esr c.pc) esr far c
  | .resumed c, .irq w esr far => taken (syscallHandler w) (irqHandler w) el0IrqVector c.pc esr far c

/-! ### The process -/

/-- A process runs, or has crashed. -/
inductive Process (bottom top : ℕ)
  | runs (v : View bottom top)
  | stopped

/-- Behind an `svc` that gave `r`. -/
def View.answered (v : View bottom top) (r : UInt64 × Words bottom top) : View bottom top :=
  { v with x := Function.update v.x x0 r.1, words := r.2, pc := v.pc + 4 }

theorem View.answered_first (v : View bottom top) (r : UInt64 × Words bottom top) :
    (v.answered r).x 0 = r.1 := by
  simp [View.answered]

/-- What happens to a process: a step of its own, a call with its answer, or a crash. -/
inductive ProcessEvent (bottom top : ℕ)
  | step (f : View bottom top → View bottom top)
  | call (r : UInt64 × Words bottom top)
  | crash (esr far : UInt64)

/-- An event for the process, with what is printed. -/
def Process.step : Process bottom top → ProcessEvent bottom top → List UInt8 × Process bottom top
  | .stopped, _ => ([], .stopped)
  | .runs v, .step f => ([], .runs (f v))
  | .runs v, .call r => ([], .runs (v.answered r))
  | .runs v, .crash esr far => (fatalExceptionHandler 0x01 esr v.pc far, .stopped)

/-- The machine as the handler of a synchronous exception finds it that is taken in `c`, -/
def syncState (esr far : UInt64) (c : Cpu) : Cpu :=
  atSyscall (takeException (returnAddress esr c.pc) esr far c)

/-- and as that of an interrupt does. -/
def irqState (esr far : UInt64) (c : Cpu) : Cpu := atIrq (takeException c.pc esr far c)

/-- The event of the process in one of the machine: an interrupt is none. -/
def ProcessEvent.of (syscallHandler : W → Cpu → Cpu) :
    Outcome → Event W bottom top → Option (ProcessEvent bottom top)
  | .halted .., _ => none
  | .resumed _, .step f => some (.step f)
  | .resumed c, .sync w esr far =>
      if esr >>> 26 = 0x15 then
        some (.call (leaves bottom top (syscallHandler w) (syncState esr far c)))
      else some (.crash esr far)
  | .resumed _, .irq .. => none

/-- A system call comes back and keeps the frame, and the handler of an interrupt changes nothing. -/
def ComesBack (syscallHandler irqHandler : W → Cpu → Cpu) : Outcome → Event W bottom top → Prop
  | .resumed c, .sync w esr far =>
      esr >>> 26 = 0x15 → KeepsFrame (syscallHandler w) (syncState esr far c)
  | .resumed c, .irq w esr far => KeepsAll bottom top (irqHandler w) (irqState esr far c)
  | _, _ => True

/-! ### The one implements the other -/

/-- The process of the machine. -/
def Outcome.process (bottom top : ℕ) : Outcome → Process bottom top
  | .resumed c => .runs (c.view bottom top)
  | .halted .. => .stopped

/-- There is room for a frame while it runs. -/
def Outcome.HasRoom (bottom top : ℕ) : Outcome → Prop
  | .resumed c => Room bottom top c
  | .halted .. => True

variable {c s : Cpu} {v : View bottom top} {r : UInt64 × Words bottom top}

theorem view_seen : (c.seen v).view bottom top = v := by
  have hwords : (c.seen v).words bottom top = v.words := by
    funext a
    exact dif_neg a.2
  rw [Cpu.view, hwords]
  rfl

/-- What is seen after an exception. -/
theorem Resumes.view {ret : UInt64} (h : Resumes bottom top c s ret r) : c.view bottom top =
    { x := Function.update (fun n => s.regs (.x n)) 0 r.1, spEl0 := s.regs .spEl0, pc := ret,
      pstate := s.pstate, words := r.2 } := by
  have hx : (fun n => c.regs (.x n)) = Function.update (fun n => s.regs (.x n)) 0 r.1 := by
    funext n
    by_cases hn : n = 0
    · rw [hn, Function.update_self, h.first]
    · rw [Function.update_of_ne hn, h.general n hn]
  rw [Cpu.view, hx, h.spEl0, h.pc, h.pstate, h.words]

theorem Resumes.room {ret : UInt64} (h : Resumes bottom top c s ret r) (hs : Room bottom top s) :
    Room bottom top c :=
  ⟨hs.bottom.trans_eq h.sp.symm, h.sp.trans_le hs.top⟩

variable {syscallHandler irqHandler : W → Cpu → Cpu}

/-- **A system call** is a call with what its handler left, -/
theorem onMachine_call (w : W) {esr far : UInt64} (h : Room bottom top c)
    (hclass : esr >>> 26 = 0x15) (hkeeps : KeepsFrame (syscallHandler w) (syncState esr far c)) :
    ∃ c', onMachine syscallHandler irqHandler (.resumed c) (.sync w esr far : Event W bottom top) =
        ([], .resumed c') ∧ Room bottom top c' ∧ c'.view bottom top =
          (c.view bottom top).answered (leaves bottom top (syscallHandler w) (syncState esr far c)) := by
  obtain ⟨c', hc', hres⟩ := syncHandler_resumes h hkeeps 0x01 hclass
  have hvector : vectors (syscallHandler w) (irqHandler w) el0SyncVector
      (takeException (returnAddress esr c.pc) esr far c) = .resumed c' := hc'
  refine ⟨c', ?_, hres.room h, ?_⟩
  · rw [onMachine, taken, hvector]
    rfl
  · have hpc : returnAddress esr c.pc = c.pc + 4 := if_pos hclass
    rw [hres.view, View.answered]
    exact congrArg (fun pc => (⟨_, _, pc, _, _⟩ : View bottom top)) hpc

/-- **another synchronous exception** is a crash, -/
theorem onMachine_crash (w : W) {esr far : UInt64} (hclass : esr >>> 26 ≠ 0x15) :
    onMachine syscallHandler irqHandler (.resumed c) (.sync w esr far : Event W bottom top) =
      (fatalExceptionHandler 0x01 esr c.pc far, .halted 0x01 esr c.pc far) := by
  have hnot : ¬ IsHandled 8 esr := by simp [IsHandled, IsIrq, hclass]
  rw [onMachine, taken, vectors_halted hnot, returnAddress, if_neg hclass]
  rfl

/-- and **an interrupt** is nothing. -/
theorem onMachine_irq (w : W) {esr far : UInt64} (h : Room bottom top c)
    (hkeeps : KeepsAll bottom top (irqHandler w) (irqState esr far c)) :
    ∃ c', onMachine syscallHandler irqHandler (.resumed c) (.irq w esr far : Event W bottom top) =
        ([], .resumed c') ∧ Room bottom top c' ∧ c'.view bottom top = c.view bottom top := by
  have hres := @irqEntry_resumes bottom top c (irqHandler w) c.pc esr far h hkeeps
  refine ⟨_, rfl, hres.room h, ?_⟩
  · rw [hres.view, Function.update_eq_self]
    rfl

/-- **One event.**  The machine prints what the process does, and is then the machine of that
process. -/
theorem process_reading : Reading (onMachine syscallHandler irqHandler) Process.step
    (ComesBack syscallHandler irqHandler) (ProcessEvent.of syscallHandler)
    (Outcome.HasRoom bottom top) (Outcome.process bottom top) where
  keeps o e h hok := by
    cases o with
    | halted id esr elr far => trivial
    | resumed c =>
        cases e with
        | step f => exact ⟨h.bottom, h.top⟩
        | sync w esr far =>
            by_cases hclass : esr >>> 26 = 0x15
            · obtain ⟨c', hc', hroom, -⟩ := @onMachine_call W bottom top c syscallHandler irqHandler
                w esr far h hclass (hok hclass)
              rw [next, hc']
              exact hroom
            · rw [next, onMachine_crash w hclass]
              trivial
        | irq w esr far =>
            obtain ⟨c', hc', hroom, -⟩ := @onMachine_irq W bottom top c syscallHandler irqHandler
              w esr far h hok
            rw [next, hc']
            exact hroom
  some o e k h hok hread := by
    cases o with
    | halted id esr elr far => cases hread
    | resumed c =>
        cases e with
        | step f =>
            obtain rfl := Option.some.inj hread
            exact ⟨rfl, congrArg Process.runs view_seen⟩
        | sync w esr far =>
            rw [ProcessEvent.of] at hread
            split_ifs at hread with hclass
            · obtain rfl := Option.some.inj hread
              obtain ⟨c', hc', -, hview⟩ := @onMachine_call W bottom top c syscallHandler irqHandler
                w esr far h hclass (hok hclass)
              rw [next, hc']
              exact ⟨rfl, congrArg Process.runs hview⟩
            · obtain rfl := Option.some.inj hread
              rw [next, onMachine_crash w hclass]
              exact ⟨rfl, rfl⟩
        | irq w esr far => cases hread
  none o e h hok hread := by
    cases o with
    | halted id esr elr far => exact ⟨rfl, rfl⟩
    | resumed c =>
        cases e with
        | step f => cases hread
        | sync w esr far =>
            rw [ProcessEvent.of] at hread
            split_ifs at hread
        | irq w esr far =>
            obtain ⟨c', hc', -, hview⟩ := @onMachine_irq W bottom top c syscallHandler irqHandler
              w esr far h hok
            rw [next, hc']
            exact ⟨rfl, congrArg Process.runs hview⟩

/-! ### Interrupts -/

/-- Interrupts. -/
def Event.isIrq : Event W bottom top → Bool
  | .irq .. => true
  | _ => false

/-- The event of the machine is this one of the process: a step is the same, a system call has some
answer, and another synchronous exception is a crash. -/
def Event.Becomes : Event W bottom top → ProcessEvent bottom top → Prop
  | .step f, .step g => f = g
  | .sync _ esr _, .call _ => esr >>> 26 = 0x15
  | .sync _ esr far, .crash esr' far' => esr >>> 26 ≠ 0x15 ∧ esr' = esr ∧ far' = far
  | _, _ => False

theorem processEvent_irq (o : Outcome) (w : W) (esr far : UInt64) :
    ProcessEvent.of syscallHandler o (.irq w esr far : Event W bottom top) = none := by
  cases o <;> rfl

theorem readOff_halted {id esr elr far : UInt64} (events : List (Event W bottom top)) :
    readOff (onMachine syscallHandler irqHandler) (ProcessEvent.of syscallHandler)
      (.halted id esr elr far) events = [] := by
  induction events with
  | nil => rfl
  | cons e events ih =>
      rw [readOff]
      exact ih

/-- **The events of the process** are those of the machine but for the interrupts, up to a crash. -/
theorem readOff_becomes (o : Outcome) (events : List (Event W bottom top)) :
    ∃ pre, pre <+: events.filter (fun e => !e.isIrq) ∧ List.Forall₂ Event.Becomes pre
      (readOff (onMachine syscallHandler irqHandler) (ProcessEvent.of syscallHandler) o events) := by
  induction events generalizing o with
  | nil => exact ⟨[], List.prefix_rfl, .nil⟩
  | cons e events ih =>
      cases o with
      | halted id esr elr far =>
          rw [readOff_halted]
          exact ⟨[], List.nil_prefix, .nil⟩
      | resumed c =>
          obtain ⟨pre, hpre, hall⟩ := ih (next (onMachine syscallHandler irqHandler) (.resumed c) e)
          rw [readOff]
          cases e with
          | step f =>
              rw [List.filter_cons_of_pos (by simp [Event.isIrq])]
              exact ⟨_ :: pre, List.cons_prefix_cons.2 ⟨rfl, hpre⟩, .cons rfl hall⟩
          | sync w esr far =>
              rw [List.filter_cons_of_pos (by simp [Event.isIrq]), ProcessEvent.of]
              refine ⟨_ :: pre, List.cons_prefix_cons.2 ⟨rfl, hpre⟩, ?_⟩
              split_ifs with hclass
              · exact .cons hclass hall
              · exact .cons ⟨hclass, rfl, rfl⟩ hall
          | irq w esr far =>
              rw [List.filter_cons_of_neg (by simp [Event.isIrq])]
              exact ⟨pre, hpre, hall⟩

/-- **Interrupts are not noticed.**  Every run of steps, system calls, crashes and interrupts, in which
the system calls come back and keep their frames and the handler of interrupts changes nothing, is a
run of the process without interrupts: the process sees, and the console shows, what its own steps,
its calls with the answers that `syscall_handler` gave and its crash make of them. -/
theorem interrupts_unseen (syscallHandler irqHandler : W → Cpu → Cpu) (c : Cpu)
    (hroom : Room bottom top c) (events : List (Event W bottom top))
    (hok : StepsMeet (next (onMachine syscallHandler irqHandler))
      (ComesBack syscallHandler irqHandler) (.resumed c) events) :
    let seen := readOff (onMachine syscallHandler irqHandler) (ProcessEvent.of syscallHandler)
      (.resumed c) events
    (∃ pre, pre <+: events.filter (fun e => !e.isIrq) ∧ List.Forall₂ Event.Becomes pre seen) ∧
      (answers (onMachine syscallHandler irqHandler) (.resumed c) events).flatten =
        (answers Process.step (.runs (c.view bottom top)) seen).flatten ∧
      (run (next (onMachine syscallHandler irqHandler)) (.resumed c) events).process bottom top =
        run (next Process.step) (.runs (c.view bottom top)) seen :=
  ⟨readOff_becomes _ _, process_reading.run (s := .resumed c) hroom hok⟩

end

/-- A letter is asked for between interrupts. -/
def letterBetween : List (Event Unit 0 16384) :=
  [.irq () 0 0, .sync () 0x56000000 0, .irq () 0 0]

theorem comesBack_recvA (o : Outcome) (e : Event Unit 0 16384) :
    ComesBack (fun _ => recvA) (fun _ => id) o e := by
  cases o with
  | halted id esr elr far => trivial
  | resumed c =>
      cases e with
      | step f => trivial
      | sync w esr far => exact fun _ => keepsFrame_recvA _
      | irq w esr far => exact keepsAll_id _ _ _

/-- It is received: the process has the letter in `x0`, and goes on behind its call. -/
theorem letter_received_between : ∃ c,
    run (next (onMachine (fun _ => recvA) fun _ => id)) (.resumed caller) letterBetween =
      .resumed c ∧ c.regs (.x 0) = 65 ∧ c.pc = 0x1004 := by
  obtain ⟨-, -, h⟩ := interrupts_unseen (fun _ => recvA) (fun _ => id) caller room_caller letterBetween
    ⟨comesBack_recvA _ _, comesBack_recvA _ _, comesBack_recvA _ _, trivial⟩
  obtain ⟨c₁, hc₁, hroom, hview⟩ := @onMachine_irq Unit 0 16384 caller (fun _ => recvA) (fun _ => id)
    () 0 0 room_caller (keepsAll_id _ _ _)
  have hseen : readOff (onMachine (fun _ => recvA) fun _ => id) (ProcessEvent.of fun _ => recvA)
      (.resumed caller) letterBetween =
      [.call (leaves 0 16384 recvA (syncState 0x56000000 0 c₁))] := by
    rw [letterBetween, readOff, next, hc₁, readOff, readOff, processEvent_irq, ProcessEvent.of,
      if_pos (by decide), processEvent_irq]
    rfl
  have hcaller : c₁.regs (.x 8) = 5 :=
    (congrFun (congrArg View.x hview) 8).trans (by simp [Cpu.view, caller])
  have hnum : (syncState 0x56000000 0 c₁).mem ((syncState 0x56000000 0 c₁).sp + 8 * 8) = 5 := by
    refine ((calledWith_atSyscall hroom.takeException).framed.general 8 (by decide)).trans ?_
    exact (takeException_x 8).trans hcaller
  rw [hseen] at h
  generalize run _ _ _ = o at h ⊢
  cases o with
  | halted id esr elr far => cases h
  | resumed c =>
      have hanswered : c.view 0 16384 = (caller.view 0 16384).answered _ := Process.runs.inj h
      have hx := congrFun (congrArg View.x hanswered) 0
      rw [View.answered_first, leaves_recvA hnum] at hx
      exact ⟨c, rfl, hx, congrArg View.pc hanswered⟩

end Kernel
end AiOsExchange
