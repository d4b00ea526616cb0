/-
# Registers that are saved and restored

A machine has registers, named by any type, and memory in words.  Straight code stores registers at
offsets from a base, loads them, and moves one to another (`Instr`).  Stores at different offsets
leave each register in its word (`mem_stores`), and loads of different registers take them back
(`regs_loads`), whatever has happened to the other words and registers in between.
-/

import AiOsExchange.Lib.Run
import Mathlib.Logic.Function.Basic

namespace Frames

open Runs

variable {R V : Type*}

/-- Registers and memory. -/
structure Machine (R V : Type*) where
  regs : R → V
  mem : ℕ → V

/-- An instruction: a store or a load at an offset, or a move of the second register to the
first. -/
inductive Instr (R : Type*)
  | str (r : R) (off : ℕ)
  | ldr (r : R) (off : ℕ)
  | mov (d s : R)

/-- The store of a list of registers, each at its offset. -/
def stores (l : List (R × ℕ)) : List (Instr R) := l.map fun p => .str p.1 p.2

/-- The load of a list of registers. -/
def loads (l : List (R × ℕ)) : List (Instr R) := l.map fun p => .ldr p.1 p.2

variable [DecidableEq R]

/-- An instruction, with offsets from `base`. -/
def exec (base : ℕ) (m : Machine R V) : Instr R → Machine R V
  | .str r off => { m with mem := Function.update m.mem (base + off) (m.regs r) }
  | .ldr r off => { m with regs := Function.update m.regs r (m.mem (base + off)) }
  | .mov d s => { m with regs := Function.update m.regs d (m.regs s) }

section
variable {base : ℕ} {l : List (R × ℕ)} {m : Machine R V}

/-! ### Stores -/

@[simp] theorem regs_stores : (run (exec base) m (stores l)).regs = m.regs := by
  induction l generalizing m with
  | nil => rfl
  | cons p l ih =>
      rw [stores, List.map_cons, run_cons]
      exact ih

/-- Words at other offsets stay. -/
theorem mem_stores_of_ne {a : ℕ} (h : ∀ p ∈ l, a ≠ base + p.2) :
    (run (exec base) m (stores l)).mem a = m.mem a := by
  induction l generalizing m with
  | nil => rfl
  | cons p l ih =>
      rw [stores, List.map_cons, run_cons]
      refine (ih fun q hq => h q (List.mem_cons_of_mem _ hq)).trans ?_
      exact Function.update_of_ne (h p List.mem_cons_self) _ _

/-- **A store leaves each register in its word.** -/
theorem mem_stores (hl : (l.map Prod.snd).Nodup) {p : R × ℕ} (hp : p ∈ l) :
    (run (exec base) m (stores l)).mem (base + p.2) = m.regs p.1 := by
  induction l generalizing m with
  | nil => cases hp
  | cons q l ih =>
      rw [List.map_cons, List.nodup_cons] at hl
      rw [stores, List.map_cons, run_cons]
      rcases List.mem_cons.1 hp with rfl | hp
      · refine (mem_stores_of_ne fun q hq heq => hl.1 ?_).trans (Function.update_self _ _ _)
        rw [Nat.add_left_cancel heq]
        exact List.mem_map_of_mem hq
      · exact ih hl.2 hp

/-! ### Loads -/

@[simp] theorem mem_loads : (run (exec base) m (loads l)).mem = m.mem := by
  induction l generalizing m with
  | nil => rfl
  | cons p l ih =>
      rw [loads, List.map_cons, run_cons]
      exact ih

/-- Other registers stay. -/
theorem regs_loads_of_ne {r : R} (h : ∀ p ∈ l, r ≠ p.1) :
    (run (exec base) m (loads l)).regs r = m.regs r := by
  induction l generalizing m with
  | nil => rfl
  | cons p l ih =>
      rw [loads, List.map_cons, run_cons]
      refine (ih fun q hq => h q (List.mem_cons_of_mem _ hq)).trans ?_
      exact Function.update_of_ne (h p List.mem_cons_self) _ _

/-- **A load takes each register from its word.** -/
theorem regs_loads (hl : (l.map Prod.fst).Nodup) {p : R × ℕ} (hp : p ∈ l) :
    (run (exec base) m (loads l)).regs p.1 = m.mem (base + p.2) := by
  induction l generalizing m with
  | nil => cases hp
  | cons q l ih =>
      rw [List.map_cons, List.nodup_cons] at hl
      rw [loads, List.map_cons, run_cons]
      rcases List.mem_cons.1 hp with rfl | hp
      · refine (regs_loads_of_ne fun q hq heq => hl.1 ?_).trans (Function.update_self _ _ _)
        rw [heq]
        exact List.mem_map_of_mem hq
      · exact ih hl.2 hp

/-! ### Code -/

/-- The offsets that code stores at. -/
def storeOffsets (code : List (Instr R)) : List ℕ :=
  code.filterMap fun i => match i with
    | .str _ off => some off
    | _ => none

/-- Code changes no word but those that it stores at. -/
theorem mem_run_of_ne {code : List (Instr R)} {a : ℕ} (h : ∀ off ∈ storeOffsets code, a ≠ base + off) :
    (run (exec base) m code).mem a = m.mem a := by
  induction code generalizing m with
  | nil => rfl
  | cons i code ih =>
      rw [run_cons]
      cases i with
      | str r off =>
          refine (ih fun o ho => h o (List.mem_cons_of_mem _ ho)).trans ?_
          exact Function.update_of_ne (h off List.mem_cons_self) _ _
      | ldr r off => exact ih h
      | mov d s => exact ih h

end

end Frames
