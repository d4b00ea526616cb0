/-
# Requests in lockstep with their devices

A call publishes one chain and waits for it, so each of the two queues is in one of three states:
all its counters are equal (`Idle`), the device has one chain (`Pending`), or the device has used
it and the driver has not looked yet (`Used`).  Publishing, giving back and looking move a queue
around this circle, each by adding one to a 16-bit counter, so wrapping never matters.

The descriptors come from a counter that the queues share.  Consecutive numbers of it fall into
different slots also where they straddle the end of the ring or of the counter, because the size of
the ring divides `2 ^ 16`.

`run_inStep` says of every run what follows: between calls the indices are equal, a waiting call has
exactly its own chain with the device, and what it returns is the status that the device gave to
this chain, whose header holds the type and the sector of the request.  The requests returned and
the one under way are those that were called, in their order.
-/

import AiOsExchange.Virtio.Requests
import Mathlib.Data.List.Chain
import Mathlib.Data.List.Forall2

namespace AiOsExchange
namespace Virtio

open Runs CMemory

theorem nextIdx_ne (idx : ℕ) : nextIdx idx ≠ idx := by
  unfold nextIdx idxRange
  omega

theorem nextIdx_lt (idx : ℕ) : nextIdx idx < idxRange := Nat.mod_lt _ (Nat.two_pow_pos 16)

namespace RequestQueue

/-! ### The states of a queue -/

/-- Nothing is under way. -/
structure Idle (q : RequestQueue) : Prop where
  usedIdx : q.usedIdx = q.availIdx
  lastUsedIdx : q.lastUsedIdx = q.availIdx
  lastAvailIdx : q.lastAvailIdx = q.availIdx
  lt : q.availIdx < idxRange
  held : q.held = []

/-- The device has one chain, available or held. -/
structure Pending (q : RequestQueue) (head : ℕ) : Prop where
  lt : q.usedIdx < idxRange
  lastUsedIdx : q.lastUsedIdx = q.usedIdx
  availIdx : q.availIdx = nextIdx q.usedIdx
  chain : q.lastAvailIdx = q.usedIdx ∧ q.held = [] ∧ q.availRing (q.usedIdx % virtqSize) = head ∨
    q.lastAvailIdx = q.availIdx ∧ q.held = [head]

/-- The device has used its chain and the driver has not looked yet. -/
structure Used (q : RequestQueue) : Prop where
  usedIdx : q.usedIdx = q.availIdx
  lastUsedIdx : nextIdx q.lastUsedIdx = q.availIdx
  lastAvailIdx : q.lastAvailIdx = q.availIdx
  lt : q.lastUsedIdx < idxRange
  held : q.held = []

section
variable {q : RequestQueue} {head : ℕ}

theorem Idle.publish (h : q.Idle) (head : ℕ) : (q.publish head).Pending head where
  lt := h.usedIdx ▸ h.lt
  lastUsedIdx := h.lastUsedIdx.trans h.usedIdx.symm
  availIdx := congrArg nextIdx h.usedIdx.symm
  chain := by
    refine .inl ⟨h.lastAvailIdx.trans h.usedIdx.symm, h.held, ?_⟩
    simp [RequestQueue.publish, h.usedIdx]

theorem Idle.setDesc (h : q.Idle) (i : ℕ) (x : VirtqDesc) : (q.setDesc i x).Idle := { h with }

theorem Idle.take (h : q.Idle) : q.take = q := if_neg fun hne => hne h.lastAvailIdx

theorem Used.take (h : q.Used) : q.take = q := if_neg fun hne => hne h.lastAvailIdx

/-- **The device takes the chain once.** -/
theorem Pending.take (h : q.Pending head) : q.take.Pending head ∧ q.take.held = [head] := by
  rcases h.chain with ⟨hlast, hheld, hring⟩ | ⟨hlast, hheld⟩
  · have hne : q.lastAvailIdx ≠ q.availIdx := by
      rw [hlast, h.availIdx]
      exact (nextIdx_ne _).symm
    have hnext : nextIdx q.lastAvailIdx = q.availIdx := by rw [hlast, h.availIdx]
    have htaken : q.held ++ [q.availRing (q.lastAvailIdx % virtqSize)] = [head] := by
      rw [hheld, hlast, hring, List.nil_append]
    rw [RequestQueue.take, if_pos hne]
    exact ⟨⟨h.lt, h.lastUsedIdx, h.availIdx, .inr ⟨hnext, htaken⟩⟩, htaken⟩
  · have htake : q.take = q := if_neg fun hne => hne hlast
    rw [htake]
    exact ⟨h, hheld⟩

theorem Pending.held (h : q.Pending head) {i : ℕ} (hi : i ∈ q.held) :
    i = head ∧ q.held = [head] ∧ q.lastAvailIdx = q.availIdx := by
  rcases h.chain with ⟨_, hheld, _⟩ | ⟨hlast, hheld⟩
  · rw [hheld] at hi
    cases hi
  · rw [hheld] at hi
    exact ⟨List.mem_singleton.1 hi, hheld, hlast⟩

/-- **Completing the chain uses it.** -/
theorem Pending.give (h : q.Pending head) (hheld : q.held = [head])
    (hlast : q.lastAvailIdx = q.availIdx) (len : ℕ) : (q.give head len).Used where
  usedIdx := h.availIdx.symm
  lastUsedIdx := by
    show nextIdx q.lastUsedIdx = q.availIdx
    rw [h.lastUsedIdx, h.availIdx]
  lastAvailIdx := hlast
  lt := h.lastUsedIdx ▸ h.lt
  held := by simp [RequestQueue.give, hheld]

/-- **A look at the used index ends the wait.** -/
theorem Used.advance (h : q.Used) : q.advance.Idle where
  usedIdx := h.usedIdx
  lastUsedIdx := h.lastUsedIdx
  lastAvailIdx := h.lastAvailIdx
  lt := by
    show q.availIdx < idxRange
    rw [← h.lastUsedIdx]
    exact nextIdx_lt _
  held := h.held

theorem Used.ne (h : q.Used) : q.usedIdx ≠ q.lastUsedIdx := by
  rw [h.usedIdx, ← h.lastUsedIdx]
  exact nextIdx_ne _

theorem Pending.outstanding (h : q.Pending head) : q.outstanding = [head] := by
  rcases h.chain with ⟨hlast, hheld, hring⟩ | ⟨hlast, hheld⟩
  · rw [RequestQueue.outstanding, hheld, hlast, h.availIdx, nextIdx,
      Rings.between_next _ h.lt (by simp [idxRange]), hring, List.nil_append]
  · rw [RequestQueue.outstanding, hheld, hlast, Rings.between_self, List.append_nil]

theorem Used.outstanding (h : q.Used) : q.outstanding = [] := by
  rw [RequestQueue.outstanding, h.held, h.lastAvailIdx, Rings.between_self, List.append_nil]

theorem take_desc (q : RequestQueue) : q.take.desc = q.desc := by
  unfold RequestQueue.take
  split_ifs <;> rfl

theorem take_descsOf (q : RequestQueue) (head : ℕ) : q.take.descsOf head = q.descsOf head := by
  rw [descsOf, chain, take_desc]
  rfl

end

/-! ### Chains -/

/-- Different descriptors, linked from the first to the last. -/
structure Linked (desc : ℕ → VirtqDesc) (l : List ℕ) : Prop where
  nodup : l.Nodup
  next : l.IsChain fun i j => (desc i).linked ∧ (desc i).next = j
  last : ∀ i ∈ l.getLast?, ¬ (desc i).linked

/-- Following the links finds the chain. -/
theorem chainFrom_eq {desc : ℕ → VirtqDesc} {l : List ℕ} {head fuel : ℕ}
    (hnext : (head :: l).IsChain fun i j => (desc i).linked ∧ (desc i).next = j)
    (hlast : ∀ i ∈ (head :: l).getLast?, ¬ (desc i).linked) (hfuel : l.length < fuel) :
    chainFrom desc fuel head = head :: l := by
  induction l generalizing head fuel with
  | nil =>
      obtain ⟨fuel, rfl⟩ := Nat.exists_eq_add_of_lt hfuel
      have hend : ¬ (desc head).linked := hlast head rfl
      simp [chainFrom, hend]
  | cons i l ih =>
      obtain ⟨fuel, rfl⟩ : ∃ n, fuel = n + 1 := ⟨fuel - 1, by omega⟩
      obtain ⟨⟨hlinked, hi⟩, hrest⟩ := List.isChain_cons_cons.1 hnext
      rw [List.length_cons] at hfuel
      rw [List.getLast?_cons_cons] at hlast
      rw [chainFrom, if_pos hlinked, hi, ih hrest hlast (by omega)]

theorem Linked.chain {q : RequestQueue} {l : List ℕ} {head : ℕ} (h : Linked q.desc (head :: l))
    (hlen : l.length < virtqSize) : q.chain head = head :: l :=
  chainFrom_eq h.next h.last hlen

/-- Several descriptors, one after the other. -/
def setDescs (l : List (ℕ × VirtqDesc)) (q : RequestQueue) : RequestQueue :=
  l.foldl (fun q x => q.setDesc x.1 x.2) q

theorem setDescs_idle {q : RequestQueue} (l : List (ℕ × VirtqDesc)) (h : q.Idle) :
    (q.setDescs l).Idle := by
  induction l generalizing q with
  | nil => exact h
  | cons x l ih => exact ih (h.setDesc x.1 x.2)

theorem setDescs_desc_of_notMem {l : List (ℕ × VirtqDesc)} (q : RequestQueue) {i : ℕ}
    (h : i ∉ l.map Prod.fst) : (q.setDescs l).desc i = q.desc i := by
  induction l generalizing q with
  | nil => rfl
  | cons x l ih =>
      rw [List.map_cons, List.mem_cons, not_or] at h
      exact (ih (q.setDesc x.1 x.2) h.2).trans (Function.update_of_ne h.1 _ _)

theorem setDescs_desc {l : List (ℕ × VirtqDesc)} (q : RequestQueue) (hl : (l.map Prod.fst).Nodup)
    {x : ℕ × VirtqDesc} (hx : x ∈ l) : (q.setDescs l).desc x.1 = x.2 := by
  induction l generalizing q with
  | nil => cases hx
  | cons y l ih =>
      rw [List.map_cons, List.nodup_cons] at hl
      rcases List.mem_cons.1 hx with rfl | hx
      · exact (setDescs_desc_of_notMem _ hl.1).trans (Function.update_self _ _ _)
      · exact ih (q.setDesc y.1 y.2) hl.2 hx

section
variable {l : List (ℕ × VirtqDesc)} {x : ℕ × VirtqDesc} (q : RequestQueue)
  (hl : ((x :: l).map Prod.fst).Nodup)
  (hnext : (x :: l).IsChain fun a b => a.2.linked ∧ a.2.next = b.1)
  (hlast : ∀ a ∈ (x :: l).getLast?, ¬ a.2.linked) (hlen : l.length < virtqSize)
include hl hnext hlast

/-- Descriptors that are stored with their links are linked. -/
theorem setDescs_linked : Linked (q.setDescs (x :: l)).desc ((x :: l).map Prod.fst) := by
  have hdesc (a : ℕ × VirtqDesc) (ha : a ∈ x :: l) : (q.setDescs (x :: l)).desc a.1 = a.2 :=
    setDescs_desc q hl ha
  refine ⟨hl, ?_, fun i hi => ?_⟩
  · rw [List.isChain_map]
    refine hnext.imp_of_mem_imp fun a b ha _ hab => ?_
    rwa [hdesc a ha]
  · rw [List.getLast?_map] at hi
    obtain ⟨a, ha, rfl⟩ := Option.map_eq_some_iff.1 hi
    rw [hdesc a (List.mem_of_getLast? ha)]
    exact hlast a ha

include hlen

/-- **A chain is found as it was stored.** -/
theorem publish_chain :
    ((q.setDescs (x :: l)).publish x.1).chain x.1 = (x :: l).map Prod.fst ∧
      ((q.setDescs (x :: l)).publish x.1).descsOf x.1 = (x :: l).map Prod.snd := by
  have hchain : ((q.setDescs (x :: l)).publish x.1).chain x.1 = (x :: l).map Prod.fst :=
    (setDescs_linked q hl hnext hlast).chain (q := (q.setDescs (x :: l)).publish x.1)
      (by rwa [List.length_map])
  refine ⟨hchain, ?_⟩
  rw [descsOf, hchain, List.map_map]
  exact List.map_congr_left fun a ha => setDescs_desc q hl ha

end

end RequestQueue

/-! ### What a device sees of a request -/

/-- The descriptors and the header of a block request. -/
structure BlkSends (type dataFlags sector buffer : ℕ) (descs : List VirtqDesc) (read : List UInt8) :
    Prop where
  descs_eq : ∃ req d1 statusPtr d2,
    descs = [⟨req, 16, virtqDescFNext, d1⟩, ⟨buffer, 512, dataFlags, d2⟩,
      ⟨statusPtr, 1, virtqDescFWrite, 0⟩]
  header : read.take 16 = toLE 4 type ++ toLE 4 0 ++ toLE 8 sector

/-- A chain is that of a request. -/
def Request.Sends (descs : List VirtqDesc) (read : List UInt8) : Request → Prop
  | .readSector sector buffer =>
      BlkSends virtioBlkTIn (virtqDescFNext ||| virtqDescFWrite) sector buffer descs read
  | .writeSector sector buffer => BlkSends virtioBlkTOut virtqDescFNext sector buffer descs read
  | .gpuCommand requestPhys requestSize responsePhys responseSize => ∃ d1,
      descs = [⟨requestPhys, requestSize, virtqDescFNext, d1⟩,
        ⟨responsePhys, responseSize, virtqDescFWrite, 0⟩]

/-- **A call is answered by what was served**: the device has read this request, and the call has
returned the status the device has given. -/
structure Answers (call : Request × ℤ) (x : Served) : Prop where
  device : x.device = call.1.device
  sends : call.1.Sends x.descs x.read
  status : call.2 = x.status

/-- The chain of a call, not yet completed. -/
structure Sent (c : Call) (d : Driver) : Prop where
  pending : (d.queue c.request.device).Pending c.head
  linked : RequestQueue.Linked (d.queue c.request.device).desc ((d.queue c.request.device).chain c.head)
  answered : ∀ written,
    c.request.device.Writes (roomOf ((d.queue c.request.device).descsOf c.head)) written →
      Answers (c.request, c.result (fill ((d.queue c.request.device).descsOf c.head) written d.memory))
        ⟨c.request.device, (d.queue c.request.device).descsOf c.head,
          readBy d.memory ((d.queue c.request.device).descsOf c.head), written⟩

theorem Sent.take {c : Call} {d : Driver} (h : Sent c d) :
    Sent c (d.onQueue c.request.device .take) := by
  have hqueue : (d.onQueue c.request.device .take).queue c.request.device =
      (d.queue c.request.device).take := Function.update_self _ _ _
  constructor
  · rw [hqueue]
    exact h.pending.take.1
  · rw [hqueue, RequestQueue.chain, RequestQueue.take_desc]
    exact h.linked
  · rw [hqueue, RequestQueue.take_descsOf]
    exact h.answered

/-! ### The last writable descriptor -/

theorem fill_append (descs descs' : List VirtqDesc) (l : List UInt8) (mem : Buf) :
    fill (descs ++ descs') l mem = fill descs' (l.drop (roomOf descs)) (fill descs l mem) := by
  induction descs generalizing l mem with
  | nil => rfl
  | cons x descs ih =>
      by_cases hx : x.writable
      · simp [fill, roomOf, hx, ih, List.drop_drop]
      · simp [fill, roomOf, hx, ih]

theorem roomOf_append (descs descs' : List VirtqDesc) :
    roomOf (descs ++ descs') = roomOf descs + roomOf descs' := by
  simp [roomOf]

/-- The last byte written is the status. -/
theorem fill_status (descs : List VirtqDesc) {x : VirtqDesc} {l : List UInt8} (mem : Buf)
    (hx : x.writable) (hlen : x.len = 1) (hl : l.length = roomOf (descs ++ [x])) :
    l.getLast? = some (fill (descs ++ [x]) l mem x.addr) := by
  have hroom : roomOf [x] = 1 := by simp [roomOf, hx, hlen]
  rw [roomOf_append, hroom] at hl
  have hlast : (l.drop (roomOf descs)).take 1 = [l[roomOf descs]] := by
    rw [List.drop_eq_getElem_cons (by omega)]
    rfl
  rw [List.getLast?_eq_getElem?, hl, Nat.add_sub_cancel, fill_append, fill, if_pos hx, hlen, hlast,
    List.getElem?_eq_getElem (by omega), fill]
  exact congrArg some (put_cons_self _ _ _ _).symm

/-- The type of a response is its first four bytes. -/
theorem u32_fill (descs : List VirtqDesc) {x : VirtqDesc} {l : List UInt8} (mem : Buf)
    (hdescs : ∀ y ∈ descs, y.writable = false) (hx : x.writable) (hl : 4 ≤ l.length)
    (hlen : l.length ≤ roomOf (descs ++ [x])) :
    u32 (fill (descs ++ [x]) l mem) x.addr = ofLE (l.take 4) := by
  have hroom : roomOf descs = 0 := by
    rw [roomOf, List.filter_eq_nil_iff.2 fun y hy => by simp [hdescs y hy]]
    rfl
  have hfits : l.take x.len = l := by
    refine List.take_of_length_le ?_
    rw [roomOf_append, hroom] at hlen
    simpa [roomOf, hx] using hlen
  rw [fill_append, hroom, List.drop_zero, fill, if_pos hx, hfits, fill, u32]
  exact congrArg ofLE (bytesAt_put_part _ x.addr (k := 0) (by omega))

/-! ### Calls up to their wait -/

/-- Consecutive descriptors differ, also across the end of the ring and of the counter. -/
theorem desc_ne (n : ℕ) :
    n % virtqSize ≠ nextIdx n % virtqSize ∧ n % virtqSize ≠ nextIdx (nextIdx n) % virtqSize ∧
      nextIdx n % virtqSize ≠ nextIdx (nextIdx n) % virtqSize := by
  unfold nextIdx virtqSize idxRange
  omega

/-- A block of 16 bytes, aligned to 16, ends in the address space. -/
theorem alignUp_sixteen {curr : ℕ} (h : curr < 2 ^ 64) :
    alignUp 16 curr % 16 = 0 ∧ alignUp 16 curr < 2 ^ 64 := by
  unfold alignUp
  split_ifs with hmod
  · have hlow := and_not_low 4 (by omega) (Nat.mod_lt (curr + 16 - 1) (Nat.two_pow_pos 64))
    rw [show 2 ^ 64 - 1 - (16 - 1) = 2 ^ 64 - 1 - (2 ^ 4 - 1) by omega, hlow]
    omega
  · omega

/-- The header of a block request, and the status byte behind it. -/
def blkMemory (type sector req statusPtr : ℕ) (mem : Buf) : Buf :=
  put (put (put (put (put mem req (List.replicate 16 0)) req (toLE 4 type)) (req + 8)
    (toLE 8 sector)) statusPtr (List.replicate 1 0)) statusPtr [0xFF]

/-- **The header holds the type and the sector.** -/
theorem bytesAt_blkMemory (type sector : ℕ) {req statusPtr : ℕ} (mem : Buf)
    (h : statusPtr < req ∨ req + 16 ≤ statusPtr) :
    bytesAt (blkMemory type sector req statusPtr mem) req 16 =
      toLE 4 type ++ toLE 4 0 ++ toLE 8 sector := by
  have hstatus : bytesAt (blkMemory type sector req statusPtr mem) req 16 =
      bytesAt (put (put (put mem req (List.replicate 16 0)) req (toLE 4 type)) (req + 8)
        (toLE 8 sector)) req 16 := by
    rw [blkMemory, bytesAt_put_of_disjoint _ (by simpa using by omega),
      bytesAt_put_of_disjoint _ (by simpa using by omega)]
  have hsector := bytesAt_put_self
    (put (put mem req (List.replicate 16 0)) req (toLE 4 type)) (req + 8) (toLE 8 sector)
  have htype := bytesAt_put_self (put mem req (List.replicate 16 0)) req (toLE 4 type)
  have hzero := bytesAt_put_part mem req (l := List.replicate 16 0) (k := 4) (n := 4) (by simp)
  rw [toLE_length] at hsector htype
  rw [hstatus, show 16 = 8 + 8 by omega, bytesAt_add, hsector,
    bytesAt_put_of_disjoint _ (by simp), show 8 = 4 + 4 by omega, bytesAt_add, htype,
    bytesAt_put_of_disjoint _ (by simp), hzero]
  simp [toLE]

theorem readBy_take {x : VirtqDesc} (descs : List VirtqDesc) (mem : Buf) (hx : x.writable = false) :
    (readBy mem (x :: descs)).take x.len = bytesAt mem x.addr x.len := by
  rw [readBy, List.filter_cons_of_pos (by simp [hx]), List.flatMap_cons,
    List.take_left' (bytesAt_length _ _ _)]

/-- A block request returns the status byte. -/
theorem result_blk (descs : List VirtqDesc) {c : Call} {written : List UInt8} (read : List UInt8)
    (mem : Buf) (hdev : c.request.device = .blk)
    (hwritten : written.length = roomOf (descs ++ [⟨c.statusPtr, 1, virtqDescFWrite, 0⟩])) :
    c.result (fill (descs ++ [⟨c.statusPtr, 1, virtqDescFWrite, 0⟩]) written mem) =
      (⟨.blk, descs ++ [⟨c.statusPtr, 1, virtqDescFWrite, 0⟩], read, written⟩ : Served).status := by
  have hlast := fill_status descs mem (x := ⟨c.statusPtr, 1, virtqDescFWrite, 0⟩)
    (by simp [VirtqDesc.writable, virtqDescFWrite]) rfl hwritten
  simp only [Call.result, hdev, Served.status, hlast, Option.some.injEq]

/-- A GPU command returns the type of the response. -/
theorem result_gpu {c : Call} {written : List UInt8} {requestPhys requestSize responseSize d1 : ℕ}
    (read : List UInt8) (mem : Buf) (hdev : c.request.device = .gpu)
    (hwritten : 4 ≤ written.length ∧
      written.length ≤ roomOf ([⟨requestPhys, requestSize, virtqDescFNext, d1⟩] ++
        [⟨c.statusPtr, responseSize, virtqDescFWrite, 0⟩])) :
    c.result (fill ([⟨requestPhys, requestSize, virtqDescFNext, d1⟩] ++
        [⟨c.statusPtr, responseSize, virtqDescFWrite, 0⟩]) written mem) =
      (⟨.gpu, [⟨requestPhys, requestSize, virtqDescFNext, d1⟩] ++
        [⟨c.statusPtr, responseSize, virtqDescFWrite, 0⟩], read, written⟩ : Served).status := by
  have htype := u32_fill [⟨requestPhys, requestSize, virtqDescFNext, d1⟩] mem
    (x := ⟨c.statusPtr, responseSize, virtqDescFWrite, 0⟩)
    (by simp [VirtqDesc.writable, virtqDescFNext, virtqDescFWrite])
    (by simp [VirtqDesc.writable, virtqDescFWrite]) hwritten.1 hwritten.2
  simp only [Call.result, hdev, Served.status, htype]

/-- **A chain that is published is sent**, and completing it answers the call if the status can be
read off what the device writes. -/
theorem sent_of_publish {c : Call} {d : Driver} {dev : Device} {q : RequestQueue}
    {x : ℕ × VirtqDesc} {l : List (ℕ × VirtqDesc)} (hdev : c.request.device = dev)
    (hhead : c.head = x.1) (hidle : q.Idle)
    (hqueue : d.queue dev = (q.setDescs (x :: l)).publish x.1)
    (hl : ((x :: l).map Prod.fst).Nodup)
    (hnext : (x :: l).IsChain fun a b => a.2.linked ∧ a.2.next = b.1)
    (hlast : ∀ a ∈ (x :: l).getLast?, ¬ a.2.linked) (hlen : l.length < virtqSize)
    (hsends : c.request.Sends ((x :: l).map Prod.snd) (readBy d.memory ((x :: l).map Prod.snd)))
    (hresult : ∀ read written, dev.Writes (roomOf ((x :: l).map Prod.snd)) written →
      c.result (fill ((x :: l).map Prod.snd) written d.memory) =
        (⟨dev, (x :: l).map Prod.snd, read, written⟩ : Served).status) : Sent c d := by
  obtain ⟨hchain, hdescs⟩ := RequestQueue.publish_chain q hl hnext hlast hlen
  subst hdev
  constructor
  · rw [hqueue, hhead]
    exact (RequestQueue.setDescs_idle _ hidle).publish x.1
  · rw [hqueue, hhead, hchain]
    exact RequestQueue.setDescs_linked q hl hnext hlast
  · intro written hwritten
    rw [hqueue, hhead, hdescs] at hwritten ⊢
    exact ⟨rfl, hsends, hresult _ written hwritten⟩

/-- The status byte of a block request, behind its header. -/
def blkStatusPtr (d : Driver) : ℕ := alignUp 1 ((alignUp 16 d.dmaHeapCurr + 16) % 2 ^ 64)

/-- The chain a block request stores, with the numbers of its descriptors. -/
def blkChain (dataFlags buffer : ℕ) (d : Driver) : List (ℕ × VirtqDesc) :=
  let d0 := d.globalDescIdx % virtqSize
  let d1 := nextIdx d.globalDescIdx % virtqSize
  let d2 := nextIdx (nextIdx d.globalDescIdx) % virtqSize
  [(d0, ⟨alignUp 16 d.dmaHeapCurr, 16, virtqDescFNext, d1⟩), (d1, ⟨buffer, 512, dataFlags, d2⟩),
    (d2, ⟨blkStatusPtr d, 1, virtqDescFWrite, 0⟩)]

theorem blkRequest_queue (type dataFlags sector buffer : ℕ) (request : Request) (d : Driver) :
    (blkRequest type dataFlags sector buffer request d).2.queue .blk =
      ((d.queue .blk).setDescs (blkChain dataFlags buffer d)).publish
        (d.globalDescIdx % virtqSize) := by
  simp only [blkRequest, Driver.nextDesc, Driver.bumpAlloc, bumpAllocate, Driver.store,
    Driver.onQueue, Function.update_self]
  rfl

/-- The chain a GPU command stores. -/
def gpuChain (requestPhys requestSize responsePhys responseSize : ℕ) (d : Driver) :
    List (ℕ × VirtqDesc) :=
  let d0 := d.globalDescIdx % virtqSize
  let d1 := nextIdx d.globalDescIdx % virtqSize
  [(d0, ⟨requestPhys, requestSize, virtqDescFNext, d1⟩),
    (d1, ⟨responsePhys, responseSize, virtqDescFWrite, 0⟩)]

theorem sendGpuCommand_queue (requestPhys requestSize responsePhys responseSize : ℕ) (d : Driver) :
    (sendGpuCommand requestPhys requestSize responsePhys responseSize d).2.queue .gpu =
      ((d.queue .gpu).setDescs
        (gpuChain requestPhys requestSize responsePhys responseSize d)).publish
          (d.globalDescIdx % virtqSize) := by
  simp only [sendGpuCommand, Driver.nextDesc, Driver.onQueue, Function.update_self]
  rfl

/-- **A block request sends its chain.** -/
theorem blkRequest_sent {type dataFlags sector buffer : ℕ} {request : Request} {d : Driver}
    (hdev : request.device = .blk) (hflags : dataFlags &&& virtqDescFNext ≠ 0)
    (hsends : ∀ descs read, BlkSends type dataFlags sector buffer descs read →
      request.Sends descs read)
    (hidle : (d.queue .blk).Idle) (hcurr : d.dmaHeapCurr < 2 ^ 64) :
    Sent (blkRequest type dataFlags sector buffer request d).1
      (blkRequest type dataFlags sector buffer request d).2 := by
  have hmem : (blkRequest type dataFlags sector buffer request d).2.memory =
      blkMemory type sector (alignUp 16 d.dmaHeapCurr) (blkStatusPtr d) d.memory := rfl
  obtain ⟨h01, h02, h12⟩ := desc_ne d.globalDescIdx
  have hstatusPtr : blkStatusPtr d < alignUp 16 d.dmaHeapCurr ∨
      alignUp 16 d.dmaHeapCurr + 16 ≤ blkStatusPtr d := by
    obtain ⟨hmod, hlt⟩ := alignUp_sixteen hcurr
    have hptr : blkStatusPtr d = (alignUp 16 d.dmaHeapCurr + 16) % 2 ^ 64 :=
      if_neg (by simp [Nat.mod_one])
    omega
  refine sent_of_publish hdev rfl hidle
    (blkRequest_queue type dataFlags sector buffer request d)
    (by simp [h01, h02, h12]) (by simpa [VirtqDesc.linked, virtqDescFNext] using hflags)
    (by simp [VirtqDesc.linked, virtqDescFNext, virtqDescFWrite]) (by simp [virtqSize])
    (hsends _ _ ⟨⟨alignUp 16 d.dmaHeapCurr, _, blkStatusPtr d, _, rfl⟩, ?_⟩)
    fun read written hwritten => result_blk [_, _] read _ hdev hwritten
  rw [hmem, ← bytesAt_blkMemory type sector d.memory hstatusPtr]
  exact readBy_take (x := ⟨alignUp 16 d.dmaHeapCurr, 16, virtqDescFNext, _⟩) _ _
    (by simp [VirtqDesc.writable, virtqDescFNext, virtqDescFWrite])

/-- **A GPU command sends its chain.** -/
theorem sendGpuCommand_sent (requestPhys requestSize responsePhys responseSize : ℕ) {d : Driver}
    (hidle : (d.queue .gpu).Idle) :
    Sent (sendGpuCommand requestPhys requestSize responsePhys responseSize d).1
      (sendGpuCommand requestPhys requestSize responsePhys responseSize d).2 := by
  have hne := (desc_ne d.globalDescIdx).1
  exact sent_of_publish rfl rfl hidle
    (sendGpuCommand_queue requestPhys requestSize responsePhys responseSize d)
    (by simp [hne]) (by simp [VirtqDesc.linked, virtqDescFNext])
    (by simp [VirtqDesc.linked, virtqDescFNext, virtqDescFWrite]) (by simp [virtqSize]) ⟨_, rfl⟩
    fun read written hwritten => result_gpu read _ rfl hwritten

/-- **Every request sends its chain**, and leaves the other queue alone. -/
theorem submit_sent (r : Request) {d : Driver} (hidle : (d.queue r.device).Idle)
    (hcurr : d.dmaHeapCurr < 2 ^ 64) : Sent (r.submit d).1 (r.submit d).2 := by
  cases r with
  | readSector sector buffer =>
      exact blkRequest_sent rfl (by decide) (fun _ _ h => h) hidle hcurr
  | writeSector sector buffer =>
      exact blkRequest_sent rfl (by decide) (fun _ _ h => h) hidle hcurr
  | gpuCommand requestPhys requestSize responsePhys responseSize =>
      exact sendGpuCommand_sent _ _ _ _ hidle

theorem submit_request (r : Request) (d : Driver) : (r.submit d).1.request = r := by
  cases r <;> rfl

theorem submit_heapSave (r : Request) (d : Driver) :
    (r.submit d).1.heapSave = d.dmaHeapCurr := by
  cases r <;> rfl

theorem submit_admits (r : Request) (d : Driver) (dev : Device) :
    (r.submit d).2.admits dev = d.admits dev := by
  cases r <;> rfl

theorem submit_curr (r : Request) {d : Driver} (hcurr : d.dmaHeapCurr < 2 ^ 64) :
    (r.submit d).2.dmaHeapCurr < 2 ^ 64 := by
  cases r with
  | readSector sector buffer => exact Nat.mod_lt _ (Nat.two_pow_pos 64)
  | writeSector sector buffer => exact Nat.mod_lt _ (Nat.two_pow_pos 64)
  | gpuCommand requestPhys requestSize responsePhys responseSize => exact hcurr

theorem submit_queue (r : Request) (d : Driver) {dev : Device} (h : dev ≠ r.device) :
    (r.submit d).2.queue dev = d.queue dev := by
  cases r with
  | readSector sector buffer =>
      exact (Function.update_of_ne h _ _).trans (Function.update_of_ne h _ _)
  | writeSector sector buffer =>
      exact (Function.update_of_ne h _ _).trans (Function.update_of_ne h _ _)
  | gpuCommand requestPhys requestSize responsePhys responseSize =>
      exact (Function.update_of_ne h _ _).trans (Function.update_of_ne h _ _)

theorem finish_queue (c : Call) (d : Driver) :
    (finish c d).2.queue =
      Function.update d.queue c.request.device (d.queue c.request.device).advance := by
  unfold finish
  cases c.request.device <;> rfl

theorem finish_admits (c : Call) (d : Driver) (dev : Device) :
    (finish c d).2.admits dev = d.admits dev := by
  unfold finish
  cases c.request.device <;> cases dev <;> rfl

theorem finish_curr {c : Call} {d : Driver} (hc : c.heapSave < 2 ^ 64)
    (hd : d.dmaHeapCurr < 2 ^ 64) : (finish c d).2.dmaHeapCurr < 2 ^ 64 := by
  unfold finish
  cases c.request.device with
  | blk => exact hc
  | gpu => exact hd

theorem onQueue_eq_self {dev : Device} {f : RequestQueue → RequestQueue} {d : Driver}
    (h : f (d.queue dev) = d.queue dev) : d.onQueue dev f = d := by
  rw [Driver.onQueue, h, Function.update_eq_self]

/-! ### Runs -/

namespace Lockstep

/-- What the calls have returned that went to a device. -/
def answers (s : Lockstep) : List (Request × ℤ) :=
  s.returned.filter fun x => s.driver.admits x.1.device

/-- **The driver is in step with its devices.**

* Without a device a call returns -1 at once.
* A queue for which no call waits has equal indices, and all calls have been answered.
* The chain of a waiting call has no descriptor twice and is linked from head to tail; it is the
  only one the device has.
* When the device has used it, the call will return what answers it.
* The call returns, whatever the device writes. -/
structure InStep (s : Lockstep) : Prop where
  refused : ∀ x ∈ s.returned, s.driver.admits x.1.device = false → x.2 = -1
  idle : ∀ dev, (∀ c ∈ s.call, c.request.device ≠ dev) → (s.driver.queue dev).Idle
  answered : s.call = none → List.Forall₂ Answers s.answers s.served
  linked : ∀ c ∈ s.call, RequestQueue.Linked (s.driver.queue c.request.device).desc
    ((s.driver.queue c.request.device).chain c.head)
  waiting : ∀ c ∈ s.call,
    (s.driver.queue c.request.device).usedIdx = (s.driver.queue c.request.device).lastUsedIdx →
      (s.driver.queue c.request.device).outstanding = [c.head] ∧
        List.Forall₂ Answers s.answers s.served
  used : ∀ c ∈ s.call,
    (s.driver.queue c.request.device).usedIdx ≠ (s.driver.queue c.request.device).lastUsedIdx →
      (s.driver.queue c.request.device).outstanding = [] ∧
        List.Forall₂ Answers (s.answers ++ [(c.request, c.result s.driver.memory)]) s.served
  returns : ∀ c ∈ s.call, ∀ written,
    c.request.device.Writes (roomOf ((s.driver.queue c.request.device).descsOf c.head)) written →
      (run step s [.take c.request.device, .complete c.request.device c.head written, .poll]).call =
        none

/-- How far a waiting call is. -/
inductive Stage (s : Lockstep) (c : Call) : Prop
  | sent (sent : Sent c s.driver) (answered : List.Forall₂ Answers s.answers s.served)
  | completed (used : (s.driver.queue c.request.device).Used)
      (linked : RequestQueue.Linked (s.driver.queue c.request.device).desc
        ((s.driver.queue c.request.device).chain c.head))
      (answered : List.Forall₂ Answers (s.answers ++ [(c.request, c.result s.driver.memory)])
        s.served)

/-- What every step keeps. -/
structure Tracks (s : Lockstep) : Prop where
  curr : s.driver.dmaHeapCurr < 2 ^ 64
  refused : ∀ x ∈ s.returned, s.driver.admits x.1.device = false → x.2 = -1
  idle : ∀ dev, (∀ c ∈ s.call, c.request.device ≠ dev) → (s.driver.queue dev).Idle
  answered : s.call = none → List.Forall₂ Answers s.answers s.served
  admitted : ∀ c ∈ s.call, s.driver.admits c.request.device = true
  heapSave : ∀ c ∈ s.call, c.heapSave < 2 ^ 64
  stage : ∀ c ∈ s.call, s.Stage c

section
variable {s : Lockstep}

theorem Tracks.begin (h : Tracks s) (hcall : s.call = none) (r : Request) : Tracks (s.begin r) := by
  have hidle (dev : Device) : (s.driver.queue dev).Idle := h.idle dev (by simp [hcall])
  have hanswered := h.answered hcall
  unfold Lockstep.begin
  split_ifs with hadmits
  · have hanswers : (r.submit s.driver).2.admits = s.driver.admits := funext (submit_admits r _)
    refine ⟨submit_curr r h.curr, ?_, fun dev hdev => ?_, by simp, ?_, ?_, ?_⟩
    · rw [hanswers]
      exact h.refused
    · have hne : dev ≠ r.device := by
        rintro rfl
        exact hdev _ rfl (congrArg Request.device (submit_request r _))
      show ((r.submit s.driver).2.queue dev).Idle
      rw [submit_queue r _ hne]
      exact hidle dev
    · rintro c ⟨⟩
      rw [submit_request, hanswers]
      exact hadmits
    · rintro c ⟨⟩
      rw [submit_heapSave]
      exact h.curr
    · rintro c ⟨⟩
      refine .sent (submit_sent r (hidle _) h.curr) ?_
      rw [answers, hanswers]
      exact hanswered
  · refine ⟨h.curr, fun x hx hfalse => ?_, h.idle, fun _ => ?_, ?_, ?_, ?_⟩
    · rcases List.mem_append.1 hx with hx | hx
      · exact h.refused x hx hfalse
      · rw [List.mem_singleton.1 hx]
    · rw [answers, List.filter_append, List.filter_cons_of_neg (by simpa using hadmits),
        List.filter_nil, List.append_nil]
      exact hanswered
    · exact h.admitted
    · exact h.heapSave
    · intro c hc
      rw [hcall] at hc
      cases hc

/-- The driver looks at the used index. -/
theorem Tracks.wait (h : Tracks s) {c : Call} (hc : c ∈ s.call) : Tracks (s.wait c) := by
  simp only [Lockstep.wait]
  split_ifs with heq
  · exact h
  · obtain ⟨hsent, _⟩ | ⟨hused, _, hanswered⟩ := h.stage c hc
    · exact absurd hsent.pending.lastUsedIdx.symm heq
    · have hadmits : (finish c s.driver).2.admits = s.driver.admits :=
        funext (finish_admits c s.driver)
      have hadmitted := h.admitted c hc
      refine ⟨finish_curr (h.heapSave c hc) h.curr, fun x hx hfalse => ?_, fun dev _ => ?_,
        fun _ => ?_, by simp, by simp, by simp⟩
      · rw [hadmits] at hfalse
        rcases List.mem_append.1 hx with hx | hx
        · exact h.refused x hx hfalse
        · rw [List.mem_singleton.1 hx, hadmitted] at hfalse
          cases hfalse
      · show ((finish c s.driver).2.queue dev).Idle
        rw [finish_queue]
        by_cases hdev : dev = c.request.device
        · rw [hdev, Function.update_self]
          exact hused.advance
        · rw [Function.update_of_ne hdev]
          refine h.idle dev fun c' hc' => ?_
          rw [Option.mem_unique hc' hc]
          exact Ne.symm hdev
      · rw [answers, hadmits, List.filter_append,
          List.filter_cons_of_pos (by simpa using hadmitted), List.filter_nil]
        exact hanswered

/-- A step of a device on the queue of the waiting call leaves the other queue idle. -/
theorem Tracks.idle_update (h : Tracks s) {c : Call} (hc : c ∈ s.call) (q : RequestQueue)
    {dev : Device} (hdev : ∀ c ∈ s.call, c.request.device ≠ dev) :
    (Function.update s.driver.queue c.request.device q dev).Idle := by
  rw [Function.update_of_ne (hdev c hc).symm]
  exact h.idle dev hdev

theorem step_take_eq_self {dev : Device}
    (h : (s.driver.queue dev).take = s.driver.queue dev) : s.step (.take dev) = s := by
  rw [step, onQueue_eq_self h]

/-- A device takes a chain. -/
theorem Tracks.take (h : Tracks s) (dev : Device) : Tracks (s.step (.take dev)) := by
  by_cases hbusy : ∀ c ∈ s.call, c.request.device ≠ dev
  · rw [step_take_eq_self (h.idle dev hbusy).take]
    exact h
  · push Not at hbusy
    obtain ⟨c, hc, rfl⟩ := hbusy
    obtain ⟨hsent, hanswered⟩ | ⟨hused, _, _⟩ := h.stage c hc
    · refine ⟨h.curr, h.refused, fun dev hdev => h.idle_update hc _ hdev, h.answered, h.admitted,
        h.heapSave, fun c' hc' => ?_⟩
      obtain rfl := Option.mem_unique hc hc'
      exact .sent hsent.take hanswered
    · rw [step_take_eq_self hused.take]
      exact h

theorem serve_call {dev : Device} {head : ℕ} {written : List UInt8} :
    (s.serve dev head written).call = s.call := by
  simp only [Lockstep.serve]
  split_ifs <;> rfl

theorem serve_queue {dev : Device} {head : ℕ} {written : List UInt8}
    (hheld : head ∈ (s.driver.queue dev).held)
    (hwritten : dev.Writes (roomOf ((s.driver.queue dev).descsOf head)) written) :
    (s.serve dev head written).driver.queue dev =
      (s.driver.queue dev).give head written.length := by
  simp only [Lockstep.serve, if_pos (And.intro hheld hwritten)]
  exact Function.update_self _ _ _

/-- A device completes a chain. -/
theorem Tracks.serve (h : Tracks s) (dev : Device) (head : ℕ) (written : List UInt8) :
    Tracks (s.serve dev head written) := by
  simp only [Lockstep.serve]
  split_ifs with hif
  · obtain ⟨hheld, hwritten⟩ := hif
    by_cases hbusy : ∀ c ∈ s.call, c.request.device ≠ dev
    · rw [(h.idle dev hbusy).held] at hheld
      cases hheld
    · push Not at hbusy
      obtain ⟨c, hc, rfl⟩ := hbusy
      obtain ⟨hsent, hanswered⟩ | ⟨hused, _, _⟩ := h.stage c hc
      · obtain ⟨rfl, hone, hlast⟩ := hsent.pending.held hheld
        refine ⟨h.curr, h.refused, fun dev hdev => h.idle_update hc _ hdev, fun hnone => ?_,
          h.admitted, h.heapSave, fun c' hc' => ?_⟩
        · cases hnone.symm.trans hc
        · obtain rfl := Option.mem_unique hc hc'
          have hqueue : (s.driver.onQueue c.request.device (.give c.head written.length)).queue
              c.request.device = (s.driver.queue c.request.device).give c.head written.length :=
            Function.update_self _ _ _
          refine .completed ?_ ?_ ?_
          · show ((s.driver.onQueue _ _).queue _).Used
            rw [hqueue]
            exact hsent.pending.give hone hlast _
          · show RequestQueue.Linked ((s.driver.onQueue _ _).queue _).desc
              (((s.driver.onQueue _ _).queue _).chain _)
            rw [hqueue]
            exact hsent.linked
          · exact List.rel_append hanswered (.cons (hsent.answered written hwritten) .nil)
      · rw [hused.held] at hheld
        cases hheld
  · exact h

/-- The rest of the kernel does not touch the queues. -/
theorem Tracks.elsewhere (h : Tracks s) (hcall : s.call = none) (curr : ℕ) (memory : Buf) :
    Tracks (s.elsewhere curr memory) := by
  refine ⟨Nat.mod_lt _ (Nat.two_pow_pos 64), h.refused, h.idle, h.answered, h.admitted,
    h.heapSave, fun c hc => ?_⟩
  cases hcall.symm.trans hc

/-- **Every step keeps the driver in step.** -/
theorem Tracks.step (h : Tracks s) (op : RequestOp) : Tracks (s.step op) := by
  cases op with
  | call r =>
      unfold Lockstep.step
      cases hcall : s.call with
      | none => exact h.begin hcall r
      | some c => exact h
  | poll =>
      unfold Lockstep.step
      cases hcall : s.call with
      | none => exact h
      | some c => exact h.wait hcall
  | take dev => exact h.take dev
  | complete dev head written => exact h.serve dev head written
  | elsewhere curr memory =>
      unfold Lockstep.step
      cases hcall : s.call with
      | none => exact h.elsewhere hcall curr memory
      | some c => exact h

theorem wait_call {c : Call} (h : (s.driver.queue c.request.device).usedIdx ≠
    (s.driver.queue c.request.device).lastUsedIdx) : (s.wait c).call = none := by
  simp only [Lockstep.wait, if_neg h]

/-- **A waiting call returns**, once the device takes its chain and completes it. -/
theorem Stage.returns {c : Call} (h : s.Stage c) (hc : s.call = some c) {written : List UInt8}
    (hwritten : c.request.device.Writes
      (roomOf ((s.driver.queue c.request.device).descsOf c.head)) written) :
    (run step s [.take c.request.device, .complete c.request.device c.head written, .poll]).call =
      none := by
  have hpoll {t : Lockstep} (ht : t.call = some c)
      (hused : (t.driver.queue c.request.device).Used) : (t.step .poll).call = none := by
    simp only [Lockstep.step, ht]
    exact wait_call hused.ne
  obtain ⟨hsent, _⟩ | ⟨hused, _, _⟩ := h
  · obtain ⟨hpending, hheld⟩ := hsent.pending.take
    have hqueue : (s.step (.take c.request.device)).driver.queue c.request.device =
        (s.driver.queue c.request.device).take := Function.update_self _ _ _
    rw [← RequestQueue.take_descsOf, ← hqueue] at hwritten
    rw [← hqueue] at hpending hheld
    have hone : c.head ∈ ((s.step (.take c.request.device)).driver.queue c.request.device).held := by
      rw [hheld]
      exact List.mem_singleton_self _
    have hserved := serve_queue hone hwritten
    refine hpoll (serve_call.trans hc) ?_
    show ((Lockstep.serve _ _ _ _).driver.queue _).Used
    rw [hserved]
    exact hpending.give hheld (hpending.held hone).2.2 _
  · have hnone : c.head ∉ (s.driver.queue c.request.device).held := by simp [hused.held]
    have hserve : s.serve c.request.device c.head written = s := if_neg fun hif => hnone hif.1
    rw [run_cons, step_take_eq_self hused.take, run_cons, Lockstep.step, hserve]
    exact hpoll hc hused

/-- The driver is in step. -/
theorem Tracks.inStep (h : Tracks s) : InStep s := by
  refine ⟨h.refused, h.idle, h.answered, fun c hc => ?_, fun c hc heq => ?_, fun c hc hne => ?_,
    fun c hc written hwritten => (h.stage c hc).returns hc hwritten⟩
  · obtain ⟨hsent, _⟩ | ⟨_, hlinked, _⟩ := h.stage c hc
    · exact hsent.linked
    · exact hlinked
  · obtain ⟨hsent, hanswered⟩ | ⟨hused, _, _⟩ := h.stage c hc
    · exact ⟨hsent.pending.outstanding, hanswered⟩
    · exact absurd heq hused.ne
  · obtain ⟨hsent, _⟩ | ⟨hused, _, hanswered⟩ := h.stage c hc
    · exact absurd hsent.pending.lastUsedIdx.symm hne
    · exact ⟨hused.outstanding, hanswered⟩

end

/-! ### Every call is answered -/

/-- The requests whose calls have returned, and the one under way. -/
def requests (s : Lockstep) : List Request :=
  s.returned.map Prod.fst ++ s.call.toList.map Call.request

/-- The request of a step, if it is a call: while one waits no other can be made. -/
def calledBy (s : Lockstep) : RequestOp → List Request
  | .call r => if s.call.isNone then [r] else []
  | _ => []

/-- The requests that are called in a run, in their order. -/
def called : Lockstep → List RequestOp → List Request
  | _, [] => []
  | s, op :: ops => s.calledBy op ++ called (s.step op) ops

theorem requests_begin {s : Lockstep} (hcall : s.call = none) (r : Request) :
    (s.begin r).requests = s.requests ++ [r] := by
  unfold Lockstep.begin requests
  split_ifs
  · simp [hcall, submit_request]
  · simp [hcall]

theorem requests_wait {s : Lockstep} {c : Call} (hcall : s.call = some c) :
    (s.wait c).requests = s.requests := by
  simp only [Lockstep.wait, requests]
  split_ifs
  · rfl
  · simp [hcall]

/-- **Every step keeps the requests**, and adds the one that it calls. -/
theorem requests_step (s : Lockstep) (op : RequestOp) :
    (s.step op).requests = s.requests ++ s.calledBy op := by
  cases op with
  | call r =>
      cases hcall : s.call with
      | none =>
          simp only [Lockstep.step, calledBy, hcall]
          exact requests_begin hcall r
      | some c =>
          simp only [Lockstep.step, calledBy, hcall]
          exact (List.append_nil _).symm
  | poll =>
      refine Eq.trans ?_ (List.append_nil _).symm
      cases hcall : s.call with
      | none => simp only [Lockstep.step, hcall]
      | some c =>
          simp only [Lockstep.step, hcall]
          exact requests_wait hcall
  | take dev => exact (List.append_nil _).symm
  | complete dev head written =>
      refine Eq.trans ?_ (List.append_nil _).symm
      simp only [Lockstep.step, Lockstep.serve]
      split_ifs <;> rfl
  | elsewhere curr memory =>
      refine Eq.trans ?_ (List.append_nil _).symm
      cases hcall : s.call with
      | none =>
          simp only [Lockstep.step, hcall]
          rfl
      | some c => simp only [Lockstep.step, hcall]

theorem requests_run (s : Lockstep) (ops : List RequestOp) :
    (run step s ops).requests = s.requests ++ called s ops := by
  induction ops generalizing s with
  | nil => exact (List.append_nil _).symm
  | cons op ops ih => rw [run_cons, ih, requests_step, called, List.append_assoc]

/-- **Requests in lockstep with their devices.**  From queues without anything under way, wherever
their counters are, every run of calls and devices keeps the driver in step, and the calls that have
returned, with the one under way, are those made, in their order. -/
theorem run_inStep {d : Driver} (hidle : ∀ dev, (d.queue dev).Idle) (hcurr : d.dmaHeapCurr < 2 ^ 64)
    (ops : List RequestOp) : InStep (run step (start d) ops) ∧
      (run step (start d) ops).requests = called (start d) ops := by
  have hstart : Tracks (start d) := by
    refine ⟨hcurr, fun x hx => ?_, fun dev _ => hidle dev, fun _ => .nil, ?_, ?_, ?_⟩
    · cases hx
    all_goals
      intro c hc
      cases hc
  exact ⟨(run_keeps (fun s op h => h.step op) hstart ops).inStep, requests_run (start d) ops⟩

/-- A read and a GPU command after the setup of the queues: the read returns the 0 that the device
wrote, and the command is under way. -/
theorem run_inStep_init :
    let ops := [.call (.readSector 7 0x40100000), .take .blk,
      .complete .blk 0 (List.replicate 513 0), .poll,
      .call (.gpuCommand dmaHeapStart 24 (dmaHeapStart + 24) 408), .poll, .take .gpu]
    let s := run step (start (.init dmaHeapStart 0x0A000000 fun _ => 0)) ops
    InStep s ∧ s.requests = [.readSector 7 0x40100000,
      .gpuCommand dmaHeapStart 24 (dmaHeapStart + 24) 408] ∧
      s.returned = [(.readSector 7 0x40100000, 0)] := by
  intro ops s
  obtain ⟨hstep, hcalled⟩ := run_inStep (d := .init dmaHeapStart 0x0A000000 fun _ => 0)
    (fun _ => ⟨rfl, rfl, rfl, by simp [Driver.init, RequestQueue.init, idxRange], rfl⟩)
    (by simp [Driver.init, dmaHeapStart]) ops
  exact ⟨hstep, hcalled.trans (by decide +kernel), by decide +kernel⟩

end Lockstep

end Virtio
end AiOsExchange
