/-
# No buffer is lost

The counters of a receive queue are numbers of entries modulo `2 ^ 16`.  `Phase` says so with
the numbers themselves: `made` lists every id ever made available, `completed` every buffer the
device ever returned, `t` of the former it has taken and `p` of the latter have been polled.
Each poll adds one entry to `made`, so always `made.length = size + p`, and the three places
where a buffer can be share the ids between them.  From this everything else is read off: no two
counters are ever more than `size` apart, so equal indices mean equal numbers after any number of
wraps, and the slot a poll writes was taken by the device long before.

A `Receiver` is a driver of such a queue with what its poll returns.  The keyboard's and the
network's are two of them.
-/

import AiOsExchange.Lib.Run
import AiOsExchange.Virtio.Queue
import Mathlib.Data.List.Perm.Subperm

namespace AiOsExchange
namespace Virtio

open Runs CMemory

variable {δ β ρ : Type}

/-- What a queue and its device do. -/
inductive QueueOp (β : Type)
  | poll
  | take
  | complete (c : Completion β)

/-- A driver beside what the device has completed and what its polls have read. -/
structure Traffic (δ β : Type) where
  driver : δ
  completed : List (Completion β)
  delivered : List (Completion β)

/-- A driver that polls a receive queue: a poll returns `value d c` for the completion `c` that it
reads, and `nothing` where there is none. -/
structure Receiver (δ β ρ : Type) where
  size : ℕ
  descId : ℕ → ℕ
  queue : δ → VirtQueue β
  setQueue : VirtQueue β → δ → δ
  poll : δ → ρ × δ
  value : δ → Completion β → ρ
  nothing : ρ
  size_lt : size < idxRange
  size_dvd : size ∣ idxRange
  descId_of_lt : ∀ i, i < size → descId i = i
  queue_setQueue : ∀ q d, queue (setQueue q d) = q
  queue_poll : ∀ d, queue (poll d).2 = ((queue d).poll size descId).2
  poll_some : ∀ d c q, (queue d).poll size descId = (some c, q) → (poll d).1 = value d c
  poll_none : ∀ d, (queue d).poll size descId = (none, queue d) → poll d = (nothing, d)

/-- One step of the driver or of the device, noted. -/
def Receiver.step (R : Receiver δ β ρ) (s : Traffic δ β) : QueueOp β → Traffic δ β
  | .poll =>
      { s with
        driver := (R.poll s.driver).2
        delivered := s.delivered ++ ((R.queue s.driver).poll R.size R.descId).1.toList }
  | .take => { s with driver := R.setQueue ((R.queue s.driver).take R.size) s.driver }
  | .complete c =>
      { s with
        driver := R.setQueue ((R.queue s.driver).complete R.size c) s.driver
        completed := if c.id ∈ (R.queue s.driver).held then s.completed ++ [c] else s.completed }

/-- **No buffer is lost or duplicated.**

* Every descriptor is available to the device, held by it, or used and not yet polled, and is so
  once.
* What the polls have read, followed by what they have still to read, is what the device
  completed, in this order.
* The slot that a poll is about to write is none that the device has still to read.
* The next poll returns what is in the next completion and makes its buffer available again; it
  returns `nothing`, and changes nothing, only where there is none. -/
structure Intact (R : Receiver δ β ρ) (s : Traffic δ β) : Prop where
  split : ((R.queue s.driver).available R.size ++ (R.queue s.driver).held ++
    ((R.queue s.driver).unpolled R.size).map VirtqUsedElem.id).Perm (List.range R.size)
  inOrder : s.delivered ++ (R.queue s.driver).pending R.size = s.completed
  free : (R.queue s.driver).usedIdx ≠ (R.queue s.driver).lastUsedIdx →
    (R.queue s.driver).availIdx % R.size ∉ (R.queue s.driver).availableSlots R.size
  next : ∀ c rest, (R.queue s.driver).pending R.size = c :: rest →
    (R.poll s.driver).1 = R.value s.driver c ∧
      (R.step s .poll).delivered = s.delivered ++ [c] ∧
      (R.queue (R.step s .poll).driver).pending R.size = rest ∧
      (R.queue (R.step s .poll).driver).available R.size =
        (R.queue s.driver).available R.size ++ [c.id]
  idle : (R.queue s.driver).pending R.size = [] →
    R.poll s.driver = (R.nothing, s.driver) ∧ R.step s .poll = s

/-- **The counters are numbers of entries.** -/
structure Phase (size : ℕ) (q : VirtQueue β) (made : List ℕ) (t : ℕ)
    (completed : List (Completion β)) (p : ℕ) : Prop where
  avail : Rings.Holds size q.availRing made
  used : Rings.Holds size q.usedRing (completed.map fun c => ⟨c.id, c.len⟩)
  availIdx : q.availIdx = made.length % idxRange
  lastAvailIdx : q.lastAvailIdx = t % idxRange
  usedIdx : q.usedIdx = completed.length % idxRange
  lastUsedIdx : q.lastUsedIdx = p % idxRange
  made_eq : made.length = size + p
  taken : t ≤ made.length
  polled : p ≤ completed.length
  split : (made.drop t ++ q.held ++ (completed.drop p).map Completion.id).Perm (List.range size)
  content : ∀ c ∈ completed.drop p, q.buffers c.id = c.content

theorem phase_init (size : ℕ) (hsize : size < idxRange) (usedRing : ℕ → VirtqUsedElem)
    (buffers : ℕ → β) : Phase size (.init size usedRing buffers) (List.range size) 0 [] 0 where
  avail i a h hlen := by
    obtain ⟨hi, rfl⟩ := List.getElem?_eq_some_iff.1 h
    rw [List.length_range] at hi
    simp [VirtQueue.init, Nat.mod_eq_of_lt hi]
  used := Rings.Holds.nil _
  availIdx := by simp [VirtQueue.init, Nat.mod_eq_of_lt hsize]
  lastAvailIdx := rfl
  usedIdx := rfl
  lastUsedIdx := rfl
  made_eq := by simp
  taken := Nat.zero_le _
  polled := le_rfl
  split := by simp [VirtQueue.init]
  content := by simp

section
variable {size : ℕ} {q : VirtQueue β} {made : List ℕ} {t p : ℕ} {completed : List (Completion β)}

namespace Phase

/-- What the device has taken it holds or has completed. -/
theorem taken_eq (h : Phase size q made t completed p) : t = q.held.length + completed.length := by
  have hlen := h.split.length_eq
  have hmade := h.made_eq
  have htaken := h.taken
  have hpolled := h.polled
  simp only [List.length_append, List.length_drop, List.length_map, List.length_range] at hlen
  omega

theorem available_eq (h : Phase size q made t completed p) (hsize : size < idxRange)
    (hdvd : size ∣ idxRange) : q.available size = made.drop t := by
  have ht := h.taken_eq
  have hmade := h.made_eq
  have hpolled := h.polled
  rw [VirtQueue.available, h.lastAvailIdx, h.availIdx]
  exact h.avail.between_eq hdvd h.taken (by omega) (by omega)

theorem unpolled_eq (h : Phase size q made t completed p) (hsize : size < idxRange)
    (hdvd : size ∣ idxRange) :
    q.unpolled size = (completed.drop p).map fun c => ⟨c.id, c.len⟩ := by
  have ht := h.taken_eq
  have htaken := h.taken
  have hmade := h.made_eq
  have hpolled := h.polled
  have hlen : (completed.map fun c => VirtqUsedElem.mk c.id c.len).length = completed.length :=
    List.length_map _
  rw [VirtQueue.unpolled, h.lastUsedIdx, h.usedIdx, ← hlen, List.map_drop]
  exact h.used.between_eq hdvd (by omega) (by omega) (by omega)

theorem pending_eq (h : Phase size q made t completed p) (hsize : size < idxRange)
    (hdvd : size ∣ idxRange) : q.pending size = completed.drop p := by
  rw [VirtQueue.pending, h.unpolled_eq hsize hdvd, List.map_map]
  refine (List.map_congr_left fun c hc => ?_).trans (List.map_id _)
  simp [h.content c hc]

/-- Equal indices are equal numbers. -/
theorem idx_eq_iff {m n : ℕ} (hle : m ≤ n) (hlt : n < m + idxRange) :
    n % idxRange = m % idxRange ↔ n = m := by
  refine ⟨fun heq => ?_, fun heq => by rw [heq]⟩
  have hahead := Rings.ahead_mod hle hlt
  rw [heq, Rings.ahead, Nat.add_sub_cancel_left, Nat.mod_self] at hahead
  omega

/-- **The slot of the next entry is free.** -/
theorem free (h : Phase size q made t completed p) (hsize : size < idxRange)
    (hdvd : size ∣ idxRange) (hne : q.usedIdx ≠ q.lastUsedIdx) :
    q.availIdx % size ∉ q.availableSlots size := by
  have ht := h.taken_eq
  have htaken := h.taken
  have hmade := h.made_eq
  have hpolled := h.polled
  have hp : completed.length ≠ p := by
    rintro rfl
    exact hne (h.usedIdx.trans h.lastUsedIdx.symm)
  intro hmem
  rw [VirtQueue.availableSlots, Rings.between, h.lastAvailIdx, h.availIdx,
    Rings.ahead_mod h.taken (by omega)] at hmem
  obtain ⟨j, hj, heq⟩ := List.mem_map.1 hmem
  rw [List.mem_range] at hj
  rw [id, Rings.mod_slot hdvd, Nat.mod_mod_of_dvd _ hdvd] at heq
  exact Rings.mod_ne_mod (show t + j < made.length by omega) (by omega) heq

/-- The device takes the entry that comes next. -/
theorem take (h : Phase size q made t completed p) (hsize : size < idxRange)
    (hdvd : size ∣ idxRange) : ∃ t, Phase size (q.take size) made t completed p := by
  have ht := h.taken_eq
  have htaken := h.taken
  have hmade := h.made_eq
  have hpolled := h.polled
  unfold VirtQueue.take
  split_ifs with hne
  · rw [h.lastAvailIdx, h.availIdx, ne_comm, Ne, idx_eq_iff h.taken (by omega)] at hne
    have hlt : t < made.length := by omega
    have hslot : q.availRing (q.lastAvailIdx % size) = made[t] := by
      rw [h.lastAvailIdx, Nat.mod_mod_of_dvd _ hdvd]
      exact h.avail t _ (List.getElem?_eq_getElem hlt) (by omega)
    refine ⟨t + 1, { h with
      lastAvailIdx := ?_, taken := by omega, split := ?_ }⟩
    · show nextIdx q.lastAvailIdx = _
      rw [nextIdx, h.lastAvailIdx, Rings.succ_mod]
    · have hsplit := h.split
      rw [List.drop_eq_getElem_cons hlt] at hsplit
      rw [hslot]
      refine List.Perm.trans ?_ hsplit
      refine List.Perm.append_right _ ?_
      rw [List.cons_append, ← List.append_assoc]
      exact List.perm_append_singleton _ _
  · exact ⟨t, h⟩

/-- The device returns a buffer that it holds; the others keep their content. -/
theorem complete (h : Phase size q made t completed p) (hdvd : size ∣ idxRange)
    (c : Completion β) (hc : c.id ∈ q.held) :
    Phase size (q.complete size c) made t (completed ++ [c]) p := by
  have hpolled := h.polled
  have hdrop : (completed ++ [c]).drop p = completed.drop p ++ [c] :=
    List.drop_append_of_le_length hpolled
  have hnodup := (h.split.nodup_iff).2 List.nodup_range
  have hother : ∀ d ∈ completed.drop p, d.id ≠ c.id := by
    intro d hd heq
    have hmem : d.id ∈ (completed.drop p).map Completion.id := List.mem_map_of_mem hd
    exact (List.nodup_append.1 hnodup).2.2 c.id (List.mem_append_right _ hc) d.id hmem heq.symm
  rw [VirtQueue.complete, if_pos hc]
  refine { h with
    used := ?_, usedIdx := ?_, polled := ?_, split := ?_, content := ?_ }
  · show Rings.Holds size (Function.update q.usedRing (q.usedIdx % size) ⟨c.id, c.len⟩) _
    have hpush := h.used.push ⟨c.id, c.len⟩
    rw [List.length_map] at hpush
    rwa [List.map_append, List.map_singleton, h.usedIdx, Nat.mod_mod_of_dvd _ hdvd]
  · show nextIdx q.usedIdx = _
    rw [nextIdx, h.usedIdx, Rings.succ_mod, List.length_append, List.length_singleton]
  · rw [List.length_append]
    omega
  · rw [hdrop, List.map_append, List.map_singleton]
    refine List.Perm.trans ?_ h.split
    have hmove : (q.held.erase c.id ++ ((completed.drop p).map Completion.id ++ [c.id])).Perm
        (q.held ++ (completed.drop p).map Completion.id) := by
      rw [← List.append_assoc]
      refine (List.perm_append_singleton _ _).trans ?_
      exact ((List.perm_cons_erase hc).symm).append_right _
    rw [List.append_assoc, List.append_assoc]
    exact hmove.append_left _
  · intro d hd
    show Function.update q.buffers c.id c.content d.id = d.content
    rw [hdrop] at hd
    rcases List.mem_append.1 hd with hd | hd
    · rw [Function.update_of_ne (hother d hd), h.content d hd]
    · rw [List.mem_singleton.1 hd, Function.update_self]

/-- A poll finds nothing where everything completed has been polled. -/
theorem poll_nil (h : Phase size q made t completed p) {descId : ℕ → ℕ}
    (hdrop : completed.drop p = []) : q.poll size descId = (none, q) := by
  have hp : completed.length = p := le_antisymm (List.drop_eq_nil_iff.1 hdrop) h.polled
  rw [VirtQueue.poll, if_neg]
  rw [h.usedIdx, h.lastUsedIdx, hp]
  exact fun hne => hne rfl

/-- The entry that a poll looks at is the next completion. -/
theorem usedEntry_eq (h : Phase size q made t completed p) {descId : ℕ → ℕ} (hdvd : size ∣ idxRange)
    (hdesc : ∀ i, i < size → descId i = i) {c : Completion β} {rest : List (Completion β)}
    (hdrop : completed.drop p = c :: rest) (hlen : completed.length ≤ p + size) :
    q.usedEntry size descId = c ∧ c.id < size := by
  have hmem : c ∈ completed.drop p := hdrop ▸ List.mem_cons_self
  have hget : completed[p]? = some c := by
    rw [← List.head?_drop, hdrop, List.head?_cons]
  have hslot : q.usedRing (q.lastUsedIdx % size) = ⟨c.id, c.len⟩ := by
    rw [h.lastUsedIdx, Nat.mod_mod_of_dvd _ hdvd]
    refine h.used p _ ?_ (by rw [List.length_map]; exact hlen)
    rw [List.getElem?_map, hget]
    rfl
  have hid : c.id < size := by
    refine List.mem_range.1 (h.split.mem_iff.1 (List.mem_append_right _ ?_))
    exact List.mem_map_of_mem hmem
  refine ⟨?_, hid⟩
  rw [VirtQueue.usedEntry, hslot]
  simp only [hdesc c.id hid, h.content c hmem]

/-- **A poll reads the next completion** and makes its buffer available again. -/
theorem poll_cons (h : Phase size q made t completed p) {descId : ℕ → ℕ} (hsize : size < idxRange)
    (hdvd : size ∣ idxRange) (hdesc : ∀ i, i < size → descId i = i) {c : Completion β}
    {rest : List (Completion β)} (hdrop : completed.drop p = c :: rest) :
    q.poll size descId = (some c, q.recycle size c.id) ∧
      Phase size (q.recycle size c.id) (made ++ [c.id]) t completed (p + 1) := by
  have ht := h.taken_eq
  have htaken := h.taken
  have hmade := h.made_eq
  have hpolled := h.polled
  have hlt : p < completed.length := by
    by_contra hle
    rw [List.drop_eq_nil_of_le (not_lt.1 hle)] at hdrop
    exact List.cons_ne_nil _ _ hdrop.symm
  obtain ⟨hentry, hid⟩ := h.usedEntry_eq hdvd hdesc hdrop (by omega)
  have hrest : completed.drop (p + 1) = rest := by
    rw [← List.tail_drop, hdrop, List.tail_cons]
  constructor
  · have hne : q.usedIdx ≠ q.lastUsedIdx := by
      rw [h.usedIdx, h.lastUsedIdx, Ne, idx_eq_iff hpolled (by omega)]
      exact hlt.ne'
    rw [VirtQueue.poll, if_pos hne, hentry]
  · refine { h with
      avail := ?_, availIdx := ?_, lastUsedIdx := ?_, made_eq := ?_, taken := ?_, polled := hlt,
      split := ?_, content := ?_ }
    · show Rings.Holds size (Function.update q.availRing (q.availIdx % size) (c.id % idxRange)) _
      rw [h.availIdx, Nat.mod_mod_of_dvd _ hdvd, Nat.mod_eq_of_lt (hid.trans hsize)]
      exact h.avail.push c.id
    · show nextIdx q.availIdx = _
      rw [nextIdx, h.availIdx, Rings.succ_mod, List.length_append, List.length_singleton]
    · show nextIdx q.lastUsedIdx = _
      rw [nextIdx, h.lastUsedIdx, Rings.succ_mod]
    · rw [List.length_append, List.length_singleton]
      omega
    · rw [List.length_append]
      omega
    · have hsplit := h.split
      rw [hdrop, List.map_cons] at hsplit
      rw [List.drop_append_of_le_length htaken, hrest]
      refine List.Perm.trans ?_ hsplit
      show (made.drop t ++ [c.id] ++ q.held ++ rest.map Completion.id).Perm _
      have hmove : ([c.id] ++ q.held ++ rest.map Completion.id).Perm
          (q.held ++ (c.id :: rest.map Completion.id)) := List.perm_middle.symm
      simp only [List.append_assoc] at hmove ⊢
      exact hmove.append_left _
    · intro d hd
      exact h.content d (by rw [hdrop]; exact List.mem_cons_of_mem _ (hrest ▸ hd))

end Phase
end

/-! ### Receivers -/

/-- What a receiver's run keeps: the counters are in phase, and the polls have read the first
`p` completions. -/
def Receiver.InPhase (R : Receiver δ β ρ) (s : Traffic δ β) : Prop :=
  ∃ made t p, Phase R.size (R.queue s.driver) made t s.completed p ∧
    s.delivered = s.completed.take p

variable (R : Receiver δ β ρ)

/-- A poll where nothing is pending. -/
theorem Receiver.step_poll_nil {s : Traffic δ β} {made : List ℕ} {t p : ℕ}
    (h : Phase R.size (R.queue s.driver) made t s.completed p) (hdrop : s.completed.drop p = []) :
    R.poll s.driver = (R.nothing, s.driver) ∧ R.step s .poll = s := by
  have hpoll : (R.queue s.driver).poll R.size R.descId = (none, R.queue s.driver) := h.poll_nil hdrop
  have hidle := R.poll_none s.driver hpoll
  refine ⟨hidle, ?_⟩
  rw [Receiver.step, hidle, hpoll, Option.toList_none, List.append_nil]

/-- A poll where a completion is pending. -/
theorem Receiver.step_poll_cons {s : Traffic δ β} {made : List ℕ} {t p : ℕ} {c : Completion β}
    {rest : List (Completion β)} (h : Phase R.size (R.queue s.driver) made t s.completed p)
    (hdrop : s.completed.drop p = c :: rest) :
    (R.poll s.driver).1 = R.value s.driver c ∧
      (R.step s .poll).delivered = s.delivered ++ [c] ∧
      Phase R.size (R.queue (R.step s .poll).driver) (made ++ [c.id]) t s.completed (p + 1) := by
  obtain ⟨hpoll, hphase⟩ := h.poll_cons R.size_lt R.size_dvd R.descId_of_lt hdrop
  refine ⟨R.poll_some _ _ _ hpoll, ?_, ?_⟩
  · rw [Receiver.step, hpoll, Option.toList_some]
  · show Phase R.size (R.queue (R.poll s.driver).2) _ _ _ _
    rwa [R.queue_poll, hpoll]

theorem inPhase_step (s : Traffic δ β) (op : QueueOp β) (h : R.InPhase s) :
    R.InPhase (R.step s op) := by
  obtain ⟨made, t, p, h, hdelivered⟩ := h
  cases op with
  | poll =>
      cases hdrop : s.completed.drop p with
      | nil =>
          rw [(R.step_poll_nil h hdrop).2]
          exact ⟨made, t, p, h, hdelivered⟩
      | cons c rest =>
          obtain ⟨-, hnext, h'⟩ := R.step_poll_cons h hdrop
          refine ⟨made ++ [c.id], t, p + 1, h', ?_⟩
          rw [hnext, hdelivered]
          show _ = s.completed.take (p + 1)
          rw [List.take_add_one, ← List.head?_drop, hdrop, List.head?_cons, Option.toList_some]
  | take =>
      obtain ⟨t, h'⟩ := h.take R.size_lt R.size_dvd
      refine ⟨made, t, p, ?_, hdelivered⟩
      rwa [← R.queue_setQueue ((R.queue s.driver).take R.size) s.driver] at h'
  | complete c =>
      by_cases hc : c.id ∈ (R.queue s.driver).held
      · have h' := h.complete R.size_dvd c hc
        refine ⟨made, t, p, ?_, ?_⟩
        · simp only [Receiver.step, if_pos hc, R.queue_setQueue]
          exact h'
        · simp only [Receiver.step, if_pos hc]
          rw [List.take_append_of_le_length h.polled, hdelivered]
      · refine ⟨made, t, p, ?_, ?_⟩
        · simp only [Receiver.step, if_neg hc, R.queue_setQueue, VirtQueue.complete]
          exact h
        · simp only [Receiver.step, if_neg hc]
          exact hdelivered

theorem intact_of_inPhase (s : Traffic δ β) (h : R.InPhase s) : Intact R s := by
  obtain ⟨made, t, p, h, hdelivered⟩ := h
  have hpending := h.pending_eq R.size_lt R.size_dvd
  refine ⟨?_, ?_, h.free R.size_lt R.size_dvd, fun c rest hcons => ?_, fun hnil => ?_⟩
  · rw [h.available_eq R.size_lt R.size_dvd, h.unpolled_eq R.size_lt R.size_dvd, List.map_map]
    exact h.split
  · rw [hdelivered, hpending, List.take_append_drop]
  · have hdrop := hpending.symm.trans hcons
    obtain ⟨hvalue, hnext, h'⟩ := R.step_poll_cons h hdrop
    refine ⟨hvalue, hnext, ?_, ?_⟩
    · rw [h'.pending_eq R.size_lt R.size_dvd, ← List.tail_drop, hdrop, List.tail_cons]
    · rw [h'.available_eq R.size_lt R.size_dvd, h.available_eq R.size_lt R.size_dvd,
        List.drop_append_of_le_length h.taken]
  · exact R.step_poll_nil h (hpending.symm.trans hnil)

/-- Every run of a receiver whose queue was just initialised leaves it intact. -/
theorem intact_run (d : δ) {usedRing : ℕ → VirtqUsedElem} {buffers : ℕ → β}
    (hd : R.queue d = .init R.size usedRing buffers) (ops : List (QueueOp β)) :
    Intact R (run R.step ⟨d, [], []⟩ ops) := by
  refine intact_of_inPhase R _ (run_keeps (inPhase_step R) ?_ ops)
  refine ⟨List.range R.size, 0, 0, ?_, rfl⟩
  show Phase R.size (R.queue d) _ _ _ _
  rw [hd]
  exact phase_init R.size R.size_lt usedRing buffers

theorem virtioInputPoll_queue (d : InputDriver) :
    (virtioInputPoll d).2.queue = (inputPoll d.queue).2 := by
  unfold virtioInputPoll
  cases h : inputPoll d.queue with
  | mk c q => cases c <;> rfl

/-- A poll that reads an event. -/
theorem virtioInputPoll_some {d : InputDriver} {c : Completion VirtioInputEvent}
    {q : VirtQueue VirtioInputEvent} (h : inputPoll d.queue = (some c, q)) :
    virtioInputPoll d = ((keyOf d.shiftActive c.content).1, ⟨q, (keyOf d.shiftActive c.content).2⟩) := by
  rw [virtioInputPoll, h]

theorem virtioNetPollRx_queue (q : VirtQueue Buf) : (virtioNetPollRx q).2 = (netPoll q).2 := by
  unfold virtioNetPollRx
  cases h : netPoll q with
  | mk c q => cases c <;> rfl

/-- The keyboard: a poll returns the character of the event. -/
def inputReceiver : Receiver InputDriver VirtioInputEvent UInt8 where
  size := virtqSize
  descId id := id % 2 ^ 32
  queue := InputDriver.queue
  setQueue q d := { d with queue := q }
  poll := virtioInputPoll
  value d c := (keyOf d.shiftActive c.content).1
  nothing := 0
  size_lt := by decide
  size_dvd := by decide
  descId_of_lt i hi := Nat.mod_eq_of_lt (hi.trans (by decide))
  queue_setQueue _ _ := rfl
  queue_poll := virtioInputPoll_queue
  poll_some _ _ _ h := congrArg Prod.fst (virtioInputPoll_some h)
  poll_none d h := by
    have hnone : inputPoll d.queue = (none, d.queue) := h
    rw [virtioInputPoll, hnone]

/-- The network: a poll returns the volume of the packet. -/
def netReceiver : Receiver (VirtQueue Buf) Buf Int32 where
  size := queueSize
  descId id := id % 2 ^ 16
  queue := id
  setQueue q _ := q
  poll := virtioNetPollRx
  value _ c := volumeOf c.content c.len
  nothing := 0
  size_lt := by decide
  size_dvd := by decide
  descId_of_lt i hi := Nat.mod_eq_of_lt (hi.trans (by decide))
  queue_setQueue _ _ := rfl
  queue_poll := virtioNetPollRx_queue
  poll_some q c q' h := by
    have hsome : netPoll q = (some c, q') := h
    rw [virtioNetPollRx, hsome]
  poll_none q h := by
    have hnone : netPoll q = (none, q) := h
    rw [virtioNetPollRx, hnone]

/-- **Receive buffers are neither lost nor duplicated**, by the keyboard and by the network,
whatever the interleaving with the device and however often the indices have wrapped. -/
theorem receive_buffers_intact :
    (∀ (usedRing : ℕ → VirtqUsedElem) (events : ℕ → VirtioInputEvent) (shiftActive : Bool)
      (ops : List (QueueOp VirtioInputEvent)),
      Intact inputReceiver
        (run inputReceiver.step ⟨⟨.init virtqSize usedRing events, shiftActive⟩, [], []⟩ ops)) ∧
    ∀ (usedRing : ℕ → VirtqUsedElem) (rxBuffers : ℕ → Buf) (ops : List (QueueOp Buf)),
      Intact netReceiver (run netReceiver.step ⟨.init queueSize usedRing rxBuffers, [], []⟩ ops) :=
  ⟨fun _ _ _ ops => intact_run inputReceiver _ rfl ops, fun _ _ ops => intact_run netReceiver _ rfl ops⟩

/-- The device takes two buffers of the keyboard and returns the second with an `A` key: the next
poll returns `a`, gives this buffer back, and the one after it finds nothing. -/
theorem letter_delivered :
    let s := run inputReceiver.step
      ⟨⟨.init virtqSize (fun _ => ⟨0, 0⟩) fun _ => ⟨0, 0, 0⟩, false⟩, [], []⟩
      [.take, .take, .complete ⟨1, 8, ⟨1, 30, 1⟩⟩]
    (virtioInputPoll s.driver).1 = 97 ∧
      (inputReceiver.step s .poll).delivered = [⟨1, 8, ⟨1, 30, 1⟩⟩] ∧
      (inputReceiver.step s .poll).driver.queue.pending virtqSize = [] ∧
      (inputReceiver.step s .poll).driver.queue.available virtqSize =
        s.driver.queue.available virtqSize ++ [1] := by
  intro s
  have hintact : Intact inputReceiver s := receive_buffers_intact.1 _ _ _ _
  have hdelivered : s.delivered = [] := rfl
  have hcompleted : s.completed = [⟨1, 8, ⟨1, 30, 1⟩⟩] := rfl
  have hpending := hintact.inOrder
  rw [hdelivered, hcompleted, List.nil_append] at hpending
  obtain ⟨hvalue, hnext, hrest, havailable⟩ := hintact.next _ _ hpending
  rw [hdelivered, List.nil_append] at hnext
  exact ⟨hvalue, hnext, hrest, havailable⟩

end Virtio
end AiOsExchange
