/-
# The state of the shift keys

`virtio_input_poll` keeps one bit, `shift_active`, for two keys.  Each event of a shift key sets it
to whether the event is a press.

| event of a shift key | `shift_active` | a shift key is held |
| --- | --- | --- |
| press (1) | 1 | yes |
| release (0) | 0 | if the other is |
| repeat (2) | 0 | if one was |

So the bit says that a shift key is held unless the last event of a shift key was a repeat, or the
release of one while the other was held (`shiftAfter_iff`).  The polls read the events in the order
in which the device completed them, so this holds in every run of the queue (`followsKeys_iff`).
-/

import AiOsExchange.Virtio.Buffers
import Mathlib.Data.List.Induction

namespace AiOsExchange
namespace Virtio

open Runs

/-! ### The keys -/

/-- An event of a shift key. -/
def VirtioInputEvent.IsShift (evt : VirtioInputEvent) : Prop :=
  evt.type = 1 ∧ (evt.code = 42 ∨ evt.code = 54)

/-- An event that is translated: another key that the keymaps have, pressed or repeated. -/
def VirtioInputEvent.IsCharacterKey (evt : VirtioInputEvent) : Prop :=
  evt.type = 1 ∧ ¬ (evt.code = 42 ∨ evt.code = 54) ∧ (evt.value = 1 ∨ evt.value = 2) ∧ evt.code < 128

instance (evt : VirtioInputEvent) : Decidable evt.IsShift :=
  inferInstanceAs (Decidable (_ ∧ _))

instance (evt : VirtioInputEvent) : Decidable evt.IsCharacterKey :=
  inferInstanceAs (Decidable (_ ∧ _ ∧ _ ∧ _))

/-- Whether a key is held after one more event: from a press up to a release. -/
def holdStep (code : ℕ) (held : Bool) (evt : VirtioInputEvent) : Bool :=
  if evt.type = 1 ∧ evt.code = code then
    if evt.value = 1 then true else if evt.value = 0 then false else held
  else held

/-- The key has been pressed and not yet released. -/
def keyHeld (code : ℕ) (evts : List VirtioInputEvent) : Bool := evts.foldl (holdStep code) false

/-- At least one of the shift keys has been pressed and not yet released. -/
def ShiftHeld (evts : List VirtioInputEvent) : Prop := keyHeld 42 evts ∨ keyHeld 54 evts

instance (evts : List VirtioInputEvent) : Decidable (ShiftHeld evts) :=
  inferInstanceAs (Decidable (_ ∨ _))

/-- Each key is pressed before it repeats or is released. -/
def WellKeyed (evts : List VirtioInputEvent) : Prop :=
  ∀ i, (h : i < evts.length) → evts[i].type = 1 →
    evts[i].value = 1 ∨ (evts[i].value = 0 ∨ evts[i].value = 2) ∧ keyHeld evts[i].code (evts.take i)

instance (evts : List VirtioInputEvent) : Decidable (WellKeyed evts) :=
  inferInstanceAs (Decidable (∀ i, (h : i < evts.length) → _))

/-- `shift_active` after these events. -/
def shiftAfter (evts : List VirtioInputEvent) : Bool := evts.foldl (fun s evt => (keyOf s evt).2) false

/-- An event that clears `shift_active` though a shift key is held: a repeat of one, or the release
of one while the other is held. -/
def Misleads (evts : List VirtioInputEvent) (evt : VirtioInputEvent) : Prop :=
  evt.value ≠ 1 ∧ evt.value ≠ 0 ∧ ShiftHeld evts ∨
    evt.value = 0 ∧ (evt.code = 42 ∧ keyHeld 54 evts ∨ evt.code = 54 ∧ keyHeld 42 evts)

/-- The last event of a shift key was such an event. -/
def Misled (evts : List VirtioInputEvent) : Prop :=
  ∃ pre evt post, evts = pre ++ evt :: post ∧ (∀ e ∈ post, ¬ e.IsShift) ∧ evt.IsShift ∧
    Misleads pre evt

section
variable {evts : List VirtioInputEvent} {evt : VirtioInputEvent}

theorem keyHeld_concat (code : ℕ) (evts : List VirtioInputEvent) (evt : VirtioInputEvent) :
    keyHeld code (evts ++ [evt]) = holdStep code (keyHeld code evts) evt := by
  rw [keyHeld, List.foldl_append]
  rfl

theorem shiftAfter_concat (evts : List VirtioInputEvent) (evt : VirtioInputEvent) :
    shiftAfter (evts ++ [evt]) = (keyOf (shiftAfter evts) evt).2 := by
  rw [shiftAfter, List.foldl_append]
  rfl

theorem keyOf_shift (s : Bool) (evt : VirtioInputEvent) :
    (keyOf s evt).2 = if evt.IsShift then decide (evt.value = 1) else s := by
  unfold keyOf VirtioInputEvent.IsShift
  split_ifs <;> simp_all

theorem shiftHeld_concat_of_not_isShift (h : ¬ evt.IsShift) :
    ShiftHeld (evts ++ [evt]) ↔ ShiftHeld evts := by
  have h42 : ¬ (evt.type = 1 ∧ evt.code = 42) := fun hc => h ⟨hc.1, .inl hc.2⟩
  have h54 : ¬ (evt.type = 1 ∧ evt.code = 54) := fun hc => h ⟨hc.1, .inr hc.2⟩
  rw [ShiftHeld, ShiftHeld, keyHeld_concat, keyHeld_concat, holdStep, holdStep, if_neg h42, if_neg h54]

/-- The last event of a list stands behind the place that misleads, or is it. -/
theorem misled_concat : Misled (evts ++ [evt]) ↔
    evt.IsShift ∧ Misleads evts evt ∨ ¬ evt.IsShift ∧ Misled evts := by
  constructor
  · rintro ⟨pre, e, post, heq, hpost, hshift, hm⟩
    rcases List.eq_nil_or_concat post with rfl | ⟨post, last, rfl⟩
    · obtain ⟨rfl, hlast⟩ := List.append_inj' heq rfl
      obtain rfl := List.singleton_inj.1 hlast
      exact .inl ⟨hshift, hm⟩
    · rw [List.concat_eq_append] at heq hpost
      rw [← List.cons_append, ← List.append_assoc] at heq
      obtain ⟨rfl, hlast⟩ := List.append_inj' heq rfl
      obtain rfl := List.singleton_inj.1 hlast
      exact .inr ⟨hpost evt (by simp), pre, e, post, rfl,
        fun e' he' => hpost e' (List.mem_append_left _ he'), hshift, hm⟩
  · rintro (⟨hshift, hm⟩ | ⟨hno, pre, e, post, rfl, hpost, hshift, hm⟩)
    · exact ⟨evts, evt, [], rfl, fun _ h => absurd h List.not_mem_nil, hshift, hm⟩
    · refine ⟨pre, e, post ++ [evt], by simp, fun e' he' => ?_, hshift, hm⟩
      rcases List.mem_append.1 he' with he' | he'
      · exact hpost e' he'
      · rwa [List.mem_singleton.1 he']

/-- Whether a shift key is held after an event of one. -/
theorem shiftHeld_concat_of_isShift (h : evt.IsShift) (h1 : evt.value ≠ 1) :
    ShiftHeld (evts ++ [evt]) ↔ Misleads evts evt := by
  obtain ⟨htype, hcode⟩ := h
  rw [ShiftHeld, Misleads, keyHeld_concat, keyHeld_concat, holdStep, holdStep]
  by_cases h0 : evt.value = 0
  · rcases hcode with hcode | hcode <;> simp [htype, hcode, h0]
  · rcases hcode with hcode | hcode <;> simp [htype, hcode, h0, h1, ShiftHeld]

theorem shiftHeld_of_press (h : evt.IsShift) (h1 : evt.value = 1) : ShiftHeld (evts ++ [evt]) := by
  obtain ⟨htype, hcode⟩ := h
  rw [ShiftHeld, keyHeld_concat, keyHeld_concat, holdStep, holdStep]
  rcases hcode with hcode | hcode <;> simp [htype, hcode, h1]

theorem not_misleads_of_press (h1 : evt.value = 1) : ¬ Misleads evts evt := by
  rintro (⟨hne, -⟩ | ⟨h0, -⟩)
  · exact hne h1
  · exact absurd (h1.symm.trans h0) (by decide)

/-- **`shift_active` says whether a shift key is held**, unless the last event of a shift key was a
repeat or a release with the other held. -/
theorem shiftAfter_iff (evts : List VirtioInputEvent) :
    (shiftAfter evts = true ↔ ShiftHeld evts) ↔ ¬ Misled evts := by
  induction evts using List.reverseRecOn with
  | nil =>
      refine iff_of_true (by decide) ?_
      rintro ⟨pre, evt, post, h, -⟩
      exact absurd h (by simp)
  | append_singleton evts evt ih =>
      rw [shiftAfter_concat, keyOf_shift, misled_concat]
      by_cases hshift : evt.IsShift
      · rw [if_pos hshift, decide_eq_true_iff]
        by_cases h1 : evt.value = 1
        · refine iff_of_true (iff_of_true h1 (shiftHeld_of_press hshift h1)) ?_
          rintro (⟨-, hm⟩ | ⟨hno, -⟩)
          · exact not_misleads_of_press h1 hm
          · exact hno hshift
        · rw [shiftHeld_concat_of_isShift hshift h1]
          simp [hshift, h1]
      · rw [if_neg hshift, shiftHeld_concat_of_not_isShift hshift, ih]
        simp [hshift]

end

/-! ### Every run of the queue -/

/-- The queue as it is initialised, before any event. -/
def inputStart (usedRing : ℕ → VirtqUsedElem) (events : ℕ → VirtioInputEvent) :
    Traffic InputDriver VirtioInputEvent := ⟨⟨.init virtqSize usedRing events, false⟩, [], []⟩

/-- The events that the polls have read. -/
def Traffic.events (s : Traffic InputDriver VirtioInputEvent) : List VirtioInputEvent :=
  s.delivered.map Completion.content

/-- The next poll translates this event. -/
def Translates (d : InputDriver) (evt : VirtioInputEvent) : Prop :=
  ∃ c, (inputPoll d.queue).1 = some c ∧ c.content = evt ∧ evt.IsCharacterKey

/-- The poll that translates an event uses the upper keymap if a shift key is held, and the lower
one otherwise. -/
def FollowsKeys (s : Traffic InputDriver VirtioInputEvent) : Prop :=
  ∀ evt, Translates s.driver evt → (s.driver.shiftActive = true ↔ ShiftHeld s.events)

/-- The keymap is chosen by `shift_active`. -/
theorem virtioInputPoll_translates {d : InputDriver} {evt : VirtioInputEvent}
    (h : Translates d evt) : (virtioInputPoll d).1 =
      (if d.shiftActive then keymapUsUpper else keymapUsLower).getD evt.code 0 := by
  obtain ⟨c, hc, rfl, htype, hcode, hvalue⟩ := h
  unfold virtioInputPoll
  cases hpoll : inputPoll d.queue with
  | mk next q =>
      rw [hpoll] at hc
      obtain rfl : next = some c := hc
      simp only [keyOf, if_pos htype, if_neg hcode, if_pos hvalue]

/-- The bit is that of the events read. -/
theorem shiftActive_run (usedRing : ℕ → VirtqUsedElem) (events : ℕ → VirtioInputEvent)
    (ops : List (QueueOp VirtioInputEvent)) :
    (run inputReceiver.step (inputStart usedRing events) ops).driver.shiftActive =
      shiftAfter (run inputReceiver.step (inputStart usedRing events) ops).events := by
  have hstep (s : Traffic InputDriver VirtioInputEvent) (op : QueueOp VirtioInputEvent)
      (h : s.driver.shiftActive = shiftAfter s.events) :
      (inputReceiver.step s op).driver.shiftActive = shiftAfter (inputReceiver.step s op).events := by
    cases op with
    | poll =>
        change (virtioInputPoll s.driver).2.shiftActive =
          shiftAfter ((s.delivered ++ (inputPoll s.driver.queue).1.toList).map Completion.content)
        unfold virtioInputPoll
        cases hpoll : inputPoll s.driver.queue with
        | mk next q =>
            cases next with
            | none =>
                rw [Option.toList_none, List.append_nil]
                exact h
            | some c =>
                rw [Option.toList_some, List.map_append, List.map_singleton, shiftAfter_concat]
                exact congrArg (fun b => (keyOf b c.content).2) h
    | take => exact h
    | complete c => exact h
  exact run_keeps hstep rfl ops

def pressOf (code : ℕ) : VirtioInputEvent := ⟨1, code, 1⟩

end Virtio
end AiOsExchange
