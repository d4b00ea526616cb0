/-
# The volume of a packet

`virtio_net_poll_rx` takes for the volume what follows the first `38=` of a packet.  The search ends
with the packet, but the loop over the digits does not, and it knows nothing of fields.

| notion | here |
| --- | --- |
| the packet from `fix_data` on | `message` |
| what is behind the first `38=` of it | `behindTag` |
| the digits there reach the end of the packet | `RunsOut` |

So the result is a function of the packet exactly if the digits do not run out of it
(`volume_only_packet_iff`).  Of a message in fields they never do; but `38=` also ends the tags 138
and 538 and may stand in a value, so the volume is the order quantity if the first `38=` of the
message is the field itself (`firstMark`), and if reducing it to 32 bits leaves it as it is
(`volume_right_iff`).
-/

import AiOsExchange.Virtio.Queue
import Mathlib.Data.List.Find
import Mathlib.Data.List.Induction

namespace AiOsExchange
namespace Virtio

open CMemory

/-! ### The search -/

/-- `fix_data[i] == '3' && fix_data[i+1] == '8' && fix_data[i+2] == '='`. -/
def volumeTag : List UInt8 := ascii "38="

/-- What is behind the first `38=`. -/
def behindTag : List UInt8 → Option (List UInt8)
  | [] => none
  | c :: cs => if (c :: cs).take 3 = volumeTag then some ((c :: cs).drop 3) else behindTag cs

def isDigit (b : UInt8) : Bool := 48 ≤ b && b ≤ 57

/-- The packet from `fix_data` on. -/
def message (payload : Buf) (pktLen : ℕ) : List UInt8 := bytesAt payload 26 (pktLen - 26)

/-- `volume * 10 + (c - '0')`, digit by digit. -/
def volumeOfDigits (digits : List UInt8) : Int32 :=
  digits.foldl (fun volume c => volume * 10 + (Int32.ofNat c.toNat - 48)) 0

theorem volumeOfDigits_concat (digits : List UInt8) (c : UInt8) :
    volumeOfDigits (digits ++ [c]) = volumeOfDigits digits * 10 + (Int32.ofNat c.toNat - 48) := by
  rw [volumeOfDigits, List.foldl_append]
  rfl

section
variable {msg rest : List UInt8} {payload fixData : Buf} {pktLen : ℕ}

theorem behindTag_short (h : msg.length < 3) : behindTag msg = none := by
  induction msg with
  | nil => rfl
  | cons c cs ih =>
      have hne : (c :: cs).take 3 ≠ volumeTag := by
        intro heq
        have := congrArg List.length heq
        rw [List.length_take, show volumeTag.length = 3 from rfl] at this
        omega
      rw [List.length_cons] at h
      rw [behindTag, if_neg hne, ih (by omega)]

/-- The search by position and the one by what is left agree. -/
theorem find_tag (msg : List UInt8) :
    ((List.range (msg.length - 2)).find? fun i => (msg.drop i).take 3 = volumeTag).map
      (fun i => msg.drop (i + 3)) = behindTag msg := by
  induction msg with
  | nil => rfl
  | cons c cs ih =>
      rcases Nat.lt_or_ge cs.length 2 with hshort | hlong
      · rw [behindTag_short (by rw [List.length_cons]; omega), List.length_cons,
          Nat.sub_eq_zero_of_le (by omega)]
        rfl
      · rw [List.length_cons, show cs.length + 1 - 2 = (cs.length - 2) + 1 by omega,
          List.range_succ_eq_map, List.find?_cons, behindTag, List.drop_zero]
        by_cases htag : (c :: cs).take 3 = volumeTag
        · simp only [htag, decide_true, if_true, Option.map_some]
        · simp only [htag, decide_false, if_false, List.find?_map, Option.map_map]
          exact ih

/-- What is behind the tag ends the message. -/
theorem suffix_of_behindTag (h : behindTag msg = some rest) :
    ∃ pre, msg = pre ++ rest ∧ 3 ≤ pre.length := by
  induction msg with
  | nil => cases h
  | cons c cs ih =>
      rw [behindTag] at h
      split_ifs at h with htag
      · obtain rfl := Option.some.inj h
        have hlen := congrArg List.length htag
        rw [List.length_take, show volumeTag.length = 3 from rfl] at hlen
        exact ⟨(c :: cs).take 3, (List.take_append_drop 3 _).symm, by rw [List.length_take]; omega⟩
      · obtain ⟨pre, rfl, hlen⟩ := ih h
        exact ⟨c :: pre, rfl, by rw [List.length_cons]; omega⟩

/-- Three bytes of the message. -/
theorem take_drop_message {i : ℕ} (h : i + 3 ≤ pktLen - 26) :
    ((message payload pktLen).drop i).take 3 = bytesAt (fun i => payload (26 + i)) i 3 := by
  obtain ⟨k, hk⟩ := Nat.exists_eq_add_of_le h
  have hshift : bytesAt (fun i => payload (26 + i)) i 3 = bytesAt payload (26 + i) 3 :=
    List.map_congr_left fun j _ => congrArg payload (Nat.add_assoc ..).symm
  rw [message, hk, bytesAt_add, bytesAt_add, List.append_assoc, List.drop_left' (bytesAt_length ..),
    List.take_left' (bytesAt_length ..), hshift]

/-- **The volume** is read behind the first `38=` of the packet. -/
theorem volumeOf_eq (hlen : pktLen < 2 ^ 31) : volumeOf payload pktLen =
    match behindTag (message payload pktLen) with
    | none => 0
    | some rest => readVolume (fun i => payload (26 + i)) (2 ^ 31) (pktLen - 26 - rest.length) 0 := by
  have hmsg : (message payload pktLen).length = pktLen - 26 := bytesAt_length ..
  by_cases hlong : 28 < pktLen
  · have hfind : (List.range (pktLen - 28)).find? (fun i =>
          bytesAt (fun i => payload (26 + i)) i 3 = ascii "38=") =
        (List.range ((message payload pktLen).length - 2)).find? fun i =>
          ((message payload pktLen).drop i).take 3 = volumeTag := by
      rw [hmsg, show pktLen - 26 - 2 = pktLen - 28 by omega]
      refine List.find?_congr fun i hi => ?_
      rw [take_drop_message (by have := List.mem_range.1 hi; omega), volumeTag]
    unfold volumeOf
    simp only [if_pos (And.intro hlong hlen)]
    rw [hfind, ← find_tag]
    cases hi : (List.range ((message payload pktLen).length - 2)).find? fun i =>
        ((message payload pktLen).drop i).take 3 = volumeTag with
    | none => rfl
    | some i =>
        have hlt := List.mem_range.1 (List.mem_of_find?_eq_some hi)
        simp only [Option.map_some, List.length_drop, hmsg]
        rw [show pktLen - 26 - (pktLen - 26 - (i + 3)) = i + 3 by omega]
  · rw [behindTag_short (by omega)]
    unfold volumeOf
    simp only [if_neg (fun h : 28 < pktLen ∧ pktLen < 2 ^ 31 => hlong h.1)]

/-! ### The digits -/

theorem bytesAt_succ (b : Buf) (o n : ℕ) : bytesAt b o (n + 1) = b o :: bytesAt b (o + 1) n := by
  rw [Nat.add_comm n, bytesAt_add]
  rfl

/-- **The loop** over digits that something else follows. -/
theorem readVolume_digits {fuel j : ℕ} {volume : Int32} (digits : List UInt8)
    (hat : bytesAt fixData j digits.length = digits) (hdigits : ∀ b ∈ digits, isDigit b)
    (hend : isDigit (fixData (j + digits.length)) = false) (hfuel : digits.length < fuel) :
    readVolume fixData fuel j volume =
      digits.foldl (fun volume c => volume * 10 + (Int32.ofNat c.toNat - 48)) volume := by
  induction digits generalizing fuel j volume with
  | nil =>
      obtain ⟨fuel, rfl⟩ := Nat.exists_eq_succ_of_ne_zero (Nat.ne_of_gt hfuel)
      rw [readVolume, if_neg (by simpa [isDigit] using hend)]
      rfl
  | cons c digits ih =>
      obtain ⟨fuel, rfl⟩ := Nat.exists_eq_succ_of_ne_zero (Nat.ne_of_gt (Nat.zero_lt_of_lt hfuel))
      rw [List.length_cons, bytesAt_succ] at hat
      obtain ⟨hc, hrest⟩ := List.cons.inj hat
      have hdigit := hdigits c List.mem_cons_self
      rw [← hc] at hdigit
      rw [readVolume, if_pos (by simpa [isDigit] using hdigit), List.foldl_cons,
        ih hrest (fun b hb => hdigits b (List.mem_cons_of_mem _ hb))
          (by rw [← hend, List.length_cons]; congr 2; omega)
          (by rw [List.length_cons] at hfuel; omega), ← hc]

/-- The bytes of the message from a suffix of it on. -/
theorem bytesAt_suffix {pre : List UInt8} (h : message payload pktLen = pre ++ rest) :
    bytesAt (fun i => payload (26 + i)) (pktLen - 26 - rest.length) rest.length = rest := by
  have hlen := congrArg List.length h
  rw [message, bytesAt_length, List.length_append] at hlen
  have hshift : bytesAt (fun i => payload (26 + i)) pre.length rest.length =
      bytesAt payload (26 + pre.length) rest.length :=
    List.map_congr_left fun j _ => congrArg payload (Nat.add_assoc ..).symm
  rw [message, hlen, bytesAt_add] at h
  rw [hlen, Nat.add_sub_cancel, hshift]
  exact (List.append_inj h (bytesAt_length ..)).2

/-- **A packet whose digits end in it** has their number for its volume. -/
theorem volumeOf_ended {digits more : List UInt8} {c : UInt8} (hlen : pktLen < 2 ^ 31)
    (hrest : behindTag (message payload pktLen) = some (digits ++ c :: more))
    (hdigits : ∀ b ∈ digits, isDigit b) (hc : isDigit c = false) :
    volumeOf payload pktLen = volumeOfDigits digits := by
  obtain ⟨pre, hpre, -⟩ := suffix_of_behindTag hrest
  have hlen' := congrArg List.length hpre
  rw [message, bytesAt_length, List.length_append, List.length_append, List.length_cons] at hlen'
  have hbytes := bytesAt_suffix hpre
  rw [@List.length_append _ digits, bytesAt_add] at hbytes
  obtain ⟨hat, hat'⟩ := List.append_inj hbytes (bytesAt_length ..)
  rw [volumeOf_eq hlen, hrest]
  refine readVolume_digits _ ?_ hdigits ?_ (by omega)
  · rw [List.length_append]
    exact hat
  · rw [List.length_append]
    rw [List.length_cons, bytesAt_succ] at hat'
    exact (List.cons.inj hat').1 ▸ hc

/-- Where not all is digits, something follows the digits. -/
theorem exists_digits_end (h : ∃ b ∈ rest, isDigit b = false) : ∃ digits c more,
    rest = digits ++ c :: more ∧ (∀ b ∈ digits, isDigit b) ∧ isDigit c = false := by
  induction rest with
  | nil => simp at h
  | cons b rest ih =>
      cases hb : isDigit b with
      | false => exact ⟨[], b, rest, rfl, nofun, hb⟩
      | true =>
          obtain ⟨b', hmem, hb'⟩ := h
          rcases List.mem_cons.1 hmem with rfl | hmem
          · rw [hb] at hb'
            cases hb'
          · obtain ⟨digits, c, more, rfl, hdigits, hc⟩ := ih ⟨b', hmem, hb'⟩
            exact ⟨b :: digits, c, more, rfl, List.forall_mem_cons.2 ⟨hb, hdigits⟩, hc⟩

/-- The digits behind the first `38=` of a packet reach its end. -/
def RunsOut (msg : List UInt8) : Prop := ∃ rest, behindTag msg = some rest ∧ ∀ b ∈ rest, isDigit b

/-- **A packet with its digits at its end**, and a digit behind it in memory. -/
theorem volumeOf_runsOut {c : UInt8} (hlen : pktLen < 2 ^ 30)
    (hrest : behindTag (message payload pktLen) = some rest) (hdigits : ∀ b ∈ rest, isDigit b)
    (hc : isDigit c) :
    volumeOf (put payload pktLen [c, 0]) pktLen =
      volumeOfDigits rest * 10 + (Int32.ofNat c.toNat - 48) := by
  obtain ⟨pre, hpre, hthree⟩ := suffix_of_behindTag hrest
  have hlen' := congrArg List.length hpre
  rw [message, bytesAt_length, List.length_append] at hlen'
  have hmsg : message (put payload pktLen [c, 0]) pktLen = message payload pktLen :=
    bytesAt_put_of_disjoint _ (by omega)
  have hbytes := bytesAt_suffix (hmsg.trans hpre)
  have hfirst : put payload pktLen [c, 0] (pktLen + 0) = c := put_apply (by simp)
  have hsecond : put payload pktLen [c, 0] (pktLen + 1) = 0 := put_apply (by simp)
  rw [volumeOf_eq (by omega), hmsg, hrest, ← volumeOfDigits_concat]
  refine readVolume_digits _ ?_ ?_ ?_ (by rw [List.length_append, List.length_singleton]; omega)
  · rw [List.length_append, List.length_singleton, bytesAt_add, hbytes, bytesAt_succ,
      show 26 + (pktLen - 26 - rest.length + rest.length) = pktLen + 0 by omega, hfirst]
    rfl
  · rw [List.forall_mem_append, List.forall_mem_singleton]
    exact ⟨hdigits, hc⟩
  · rw [List.length_append, List.length_singleton,
      show 26 + (pktLen - 26 - rest.length + (rest.length + 1)) = pktLen + 1 by omega, hsecond]
    rfl

end

/-! ### The result and the packet -/

/-- What the next poll finds on the used ring. -/
def nextUsed (q : VirtQueue Buf) : Completion Buf := q.usedEntry queueSize fun id => id % 2 ^ 16

/-- The result is a function of the packet: whatever the buffers have behind its bytes, and all
else besides. -/
def OnlyPacket (q : VirtQueue Buf) : Prop :=
  ∀ buffers : ℕ → Buf,
    bytesAt (buffers (nextUsed q).id) 0 (nextUsed q).len =
      bytesAt (nextUsed q).content 0 (nextUsed q).len →
    (virtioNetPollRx { q with buffers := buffers }).1 = (virtioNetPollRx q).1

theorem virtioNetPollRx_buffers (q : VirtQueue Buf) (buffers : ℕ → Buf) :
    (virtioNetPollRx { q with buffers := buffers }).1 =
      if q.usedIdx ≠ q.lastUsedIdx then volumeOf (buffers (nextUsed q).id) (nextUsed q).len
      else 0 := by
  unfold virtioNetPollRx netPoll VirtQueue.poll
  split_ifs <;> rfl

/-- The message is a part of the packet. -/
theorem message_eq_drop (payload : Buf) (pktLen : ℕ) :
    message payload pktLen = (bytesAt payload 0 pktLen).drop 26 := by
  rcases Nat.lt_or_ge pktLen 26 with hshort | hlong
  · rw [message, Nat.sub_eq_zero_of_le hshort.le, bytesAt_zero, List.drop_of_length_le]
    rw [bytesAt_length]
    exact hshort.le
  · obtain ⟨k, rfl⟩ := Nat.exists_eq_add_of_le hlong
    rw [message, Nat.add_sub_cancel_left, bytesAt_add, List.drop_left' (bytesAt_length ..),
      Nat.zero_add]

/-- **The result is a function of the packet** exactly if nothing is received or the digits behind
the first `38=` end in the packet. -/
theorem volume_only_packet_iff (q : VirtQueue Buf) (hlen : (nextUsed q).len ≤ 256) :
    OnlyPacket q ↔ ¬(q.usedIdx ≠ q.lastUsedIdx ∧
      RunsOut (message (nextUsed q).content (nextUsed q).len)) := by
  have hself : (virtioNetPollRx q).1 = _ := virtioNetPollRx_buffers q q.buffers
  constructor
  · rintro h ⟨hused, rest, hrest, hdigits⟩
    -- two buffers that go on with different digits
    have hput (c : UInt8) (hc : isDigit c) :
        volumeOfDigits rest * 10 + (Int32.ofNat c.toNat - 48) = (virtioNetPollRx q).1 := by
      have hsame := h (fun _ => put (nextUsed q).content (nextUsed q).len [c, 0])
        (bytesAt_put_of_disjoint _ (by omega))
      rw [virtioNetPollRx_buffers, if_pos hused] at hsame
      rw [← hsame, ← volumeOf_runsOut (by omega) hrest hdigits hc]
    have heq := (hput 48 rfl).trans (hput 49 rfl).symm
    rw [Int32.add_right_inj] at heq
    exact absurd heq (by decide)
  · intro h buffers hbuffers
    rw [hself, virtioNetPollRx_buffers]
    by_cases hused : q.usedIdx ≠ q.lastUsedIdx
    · rw [if_pos hused, if_pos hused]
      change _ = volumeOf (nextUsed q).content (nextUsed q).len
      have hmsg : message (buffers (nextUsed q).id) (nextUsed q).len =
          message (nextUsed q).content (nextUsed q).len := by
        rw [message_eq_drop, message_eq_drop, hbuffers]
      cases hrest : behindTag (message (nextUsed q).content (nextUsed q).len) with
      | none => rw [volumeOf_eq (by omega), volumeOf_eq (by omega), hmsg, hrest]
      | some rest =>
          have hnot : ¬∀ b ∈ rest, isDigit b := fun hdigits => h ⟨hused, rest, hrest, hdigits⟩
          push Not at hnot
          obtain ⟨digits, c, more, rfl, hdigits, hc⟩ := exists_digits_end
            (by simpa only [ne_eq, Bool.not_eq_true] using hnot)
          rw [volumeOf_ended (by omega) hrest hdigits hc,
            volumeOf_ended (by omega) ((congrArg behindTag hmsg).trans hrest) hdigits hc]
    · rw [if_neg hused, if_neg hused]

/-- A queue with one packet, whose message is this, and what its buffer has behind it. -/
def receivedQueue (msg behind : List UInt8) : VirtQueue Buf :=
  { VirtQueue.init queueSize (fun _ => ⟨0, 26 + msg.length⟩)
      (fun _ => put (fun _ => 0) 26 (msg ++ behind)) with
    usedIdx := 1 }

theorem order_only_packet : OnlyPacket (receivedQueue (ascii "38=100\x01") (ascii "55")) := by
  refine (volume_only_packet_iff _ (by decide +kernel)).2 ?_
  rintro ⟨-, rest, hrest, hdigits⟩
  have hmsg : behindTag (message (nextUsed (receivedQueue (ascii "38=100\x01") (ascii "55"))).content
      (nextUsed (receivedQueue (ascii "38=100\x01") (ascii "55"))).len) = some (ascii "100\x01") := by
    decide +kernel
  obtain rfl := Option.some.inj (hrest.symm.trans hmsg)
  exact absurd (hdigits 1 (by decide)) (by decide)

/-- **Bytes of an earlier packet** join the volume of a packet that ends in its digits. -/
theorem stale_digits_read :
    ¬ OnlyPacket (receivedQueue (ascii "38=1") []) ∧
      (virtioNetPollRx (receivedQueue (ascii "38=1") [])).1 = 1 ∧
      (virtioNetPollRx (receivedQueue (ascii "38=1") (ascii "55"))).1 = 155 := by
  have h1 : (virtioNetPollRx (receivedQueue (ascii "38=1") [])).1 = 1 := by decide +kernel
  have h155 : (virtioNetPollRx (receivedQueue (ascii "38=1") (ascii "55"))).1 = 155 := by
    decide +kernel
  refine ⟨fun h => ?_, h1, h155⟩
  have hsame := h (receivedQueue (ascii "38=1") (ascii "55")).buffers (by decide +kernel)
  rw [h1] at hsame
  exact absurd (h155.symm.trans hsame) (by decide)

/-! ### Messages in fields -/

/-- `tag=value`, without the byte 1 that ends it. -/
structure FixField where
  tag : List UInt8
  value : List UInt8
  tag_digits : tag ≠ [] ∧ ∀ b ∈ tag, isDigit b
  value_free : 1 ∉ value

/-- The bytes of a message. -/
def encodeFields : List FixField → List UInt8
  | [] => []
  | f :: fields => f.tag ++ 61 :: (f.value ++ 1 :: encodeFields fields)

/-- The number that digits stand for. -/
def number (digits : List UInt8) : ℕ := digits.foldl (fun n c => 10 * n + (c.toNat - 48)) 0

/-- A decimal numeral. -/
def Numeral (value : List UInt8) : Prop := value ≠ [] ∧ ∀ b ∈ value, isDigit b

instance (value : List UInt8) : Decidable (Numeral value) := inferInstanceAs (Decidable (_ ∧ _))

/-- The value of the first field whose tag is 38. -/
def orderQty (fields : List FixField) : Option (List UInt8) :=
  (fields.find? fun f => f.tag = ascii "38").map FixField.value

/-- **The volume is the order quantity** where it is a number below `2 ^ 31`; where there is none, or
one that is no such number, it is 0.  Of a value that is no numeral nothing is said. -/
def VolumeRight (fields : List FixField) (volume : Int32) : Prop :=
  match orderQty fields with
  | none => volume = 0
  | some value => Numeral value →
      volume = if number value < 2 ^ 31 then Int32.ofNat (number value) else 0

/-- The digits behind the first `38=` of a message, which ends the tag of a field or stands in a
value. -/
def takenDigits : List FixField → List UInt8
  | [] => []
  | f :: fields =>
      if ascii "38" <:+ f.tag then f.value.takeWhile isDigit
      else
        match behindTag f.value with
        | some rest => rest.takeWhile isDigit
        | none => takenDigits fields

/-- The first place of a message where `38=` stands. -/
inductive Mark
  /-- The field 38 itself. -/
  | field (value : List UInt8)
  /-- Another tag that ends in 38, or a value; `digits` are behind it. -/
  | stray (digits : List UInt8)

def firstMark : List FixField → Option Mark
  | [] => none
  | f :: fields =>
      if f.tag = ascii "38" then some (.field f.value)
      else if ascii "38" <:+ f.tag then some (.stray (f.value.takeWhile isDigit))
      else
        match behindTag f.value with
        | some rest => some (.stray (rest.takeWhile isDigit))
        | none => firstMark fields

/-- These digits happen to stand for the order quantity, up to multiples of `2 ^ 32`. -/
def Coincides (fields : List FixField) (digits : List UInt8) : Prop :=
  match orderQty fields with
  | none => number digits % 2 ^ 32 = 0
  | some value => Numeral value →
      number digits % 2 ^ 32 = if number value < 2 ^ 31 then number value else 0

/-- The first `38=`, if there is one, is the field 38 with a number that comes back unchanged, or
what is behind it happens to stand for the order quantity. -/
def MarksOrder (fields : List FixField) : Prop :=
  match firstMark fields with
  | none => True
  | some (.field value) => Numeral value → number value < 2 ^ 31 ∨ 2 ^ 32 ∣ number value
  | some (.stray digits) => Coincides fields digits

section
variable {tag value more digits : List UInt8} {fields : List FixField}

theorem behindTag_cons {c : UInt8} {cs : List UInt8} (h : c ≠ 51) :
    behindTag (c :: cs) = behindTag cs := by
  rw [behindTag, if_neg]
  intro htag
  exact h (List.cons.inj htag).1

/-- A byte that is none of the three ends the search before it. -/
theorem behindTag_append_end (value more : List UInt8) :
    behindTag (value ++ 1 :: more) =
      match behindTag value with
      | some rest => some (rest ++ 1 :: more)
      | none => behindTag more := by
  induction value with
  | nil => exact behindTag_cons (by decide)
  | cons c value ih =>
      have htake : (c :: (value ++ 1 :: more)).take 3 = volumeTag ↔
          (c :: value).take 3 = volumeTag := by
        rcases value with _ | ⟨d, _ | ⟨e, value⟩⟩ <;> simp [volumeTag, ascii]
      rw [List.cons_append, behindTag, behindTag]
      by_cases h : (c :: value).take 3 = volumeTag
      · rw [if_pos (htake.2 h), if_pos h]
        rcases value with _ | ⟨d, _ | ⟨e, value⟩⟩
        · simp [volumeTag, ascii] at h
        · simp [volumeTag, ascii] at h
        · rfl
      · rw [if_neg (fun h' => h (htake.1 h')), if_neg h, ih]

/-- A tag ends the search if it ends in 38. -/
theorem behindTag_tag (htag : ∀ b ∈ tag, isDigit b) (more : List UInt8) :
    behindTag (tag ++ 61 :: more) = if ascii "38" <:+ tag then some more else behindTag more := by
  induction tag with
  | nil =>
      rw [if_neg (by simp [ascii])]
      exact behindTag_cons (by decide)
  | cons c tag ih =>
      obtain ⟨-, htag'⟩ := List.forall_mem_cons.1 htag
      -- the tag of the search begins here exactly if these are the last two digits
      have htake : (c :: (tag ++ 61 :: more)).take 3 = volumeTag ↔ c :: tag = ascii "38" := by
        rcases tag with _ | ⟨d, _ | ⟨e, tag⟩⟩
        · simp [volumeTag, ascii]
        · simp [volumeTag, ascii]
        · have he : e ≠ 61 := by
            rintro rfl
            have := htag' 61 (by simp)
            cases this
          simp [volumeTag, ascii, he]
      have hsuffix : ascii "38" <:+ c :: tag ↔ c :: tag = ascii "38" ∨ ascii "38" <:+ tag := by
        rw [List.suffix_cons_iff, eq_comm]
      rw [List.cons_append, behindTag]
      by_cases h : c :: tag = ascii "38"
      · rw [if_pos (htake.2 h), if_pos (hsuffix.2 (.inl h))]
        obtain ⟨-, rfl⟩ := List.cons.inj h
        rfl
      · rw [if_neg fun h' => h (htake.1 h'), ih htag']
        exact if_congr (by rw [hsuffix, or_iff_right h]) rfl rfl

/-- A value ends with its digits or goes on with something else. -/
theorem exists_takeWhile_end (value more : List UInt8) : ∃ c more',
    value ++ 1 :: more = value.takeWhile isDigit ++ c :: more' ∧ isDigit c = false := by
  induction value with
  | nil => exact ⟨1, more, rfl, rfl⟩
  | cons b value ih =>
      cases hb : isDigit b with
      | false => exact ⟨b, value ++ 1 :: more, by rw [List.takeWhile_cons, hb]; rfl, hb⟩
      | true =>
          obtain ⟨c, more', heq, hc⟩ := ih
          exact ⟨c, more', by rw [List.takeWhile_cons, hb, List.cons_append, heq]; rfl, hc⟩

/-- **The search over the fields.** -/
theorem behindTag_encodeFields (fields : List FixField) :
    (behindTag (encodeFields fields) = none ∧ takenDigits fields = []) ∨
      ∃ c more, behindTag (encodeFields fields) = some (takenDigits fields ++ c :: more) ∧
        (∀ b ∈ takenDigits fields, isDigit b) ∧ isDigit c = false := by
  have hdigits (value : List UInt8) : ∀ b ∈ value.takeWhile isDigit, isDigit b :=
    fun b hb => List.mem_takeWhile_imp hb
  induction fields with
  | nil => exact .inl ⟨rfl, rfl⟩
  | cons f fields ih =>
      rw [encodeFields, behindTag_tag f.tag_digits.2, takenDigits]
      by_cases h38 : ascii "38" <:+ f.tag
      · obtain ⟨c, more, heq, hc⟩ := exists_takeWhile_end f.value (encodeFields fields)
        rw [if_pos h38, if_pos h38, heq]
        exact .inr ⟨c, more, rfl, hdigits _, hc⟩
      · rw [if_neg h38, if_neg h38, behindTag_append_end]
        cases hvalue : behindTag f.value with
        | none => exact ih
        | some rest =>
            obtain ⟨c, more, heq, hc⟩ := exists_takeWhile_end rest (encodeFields fields)
            exact .inr ⟨c, more, congrArg some heq, hdigits _, hc⟩

/-- The loop computes the number in 32 bits. -/
theorem volumeOfDigits_eq (hdigits : ∀ b ∈ digits, isDigit b) :
    volumeOfDigits digits = Int32.ofNat (number digits) := by
  induction digits using List.reverseRecOn with
  | nil => rfl
  | append_singleton digits c ih =>
      obtain ⟨hdigits', hc⟩ := List.forall_mem_append.1 hdigits
      have h48 : 48 ≤ c.toNat := by
        have := hc c List.mem_cons_self
        simp only [isDigit, Bool.and_eq_true, decide_eq_true_eq] at this
        exact UInt8.le_iff_toNat_le.1 this.1
      have hsub : Int32.ofNat c.toNat - 48 = Int32.ofNat (c.toNat - 48) :=
        (Int32.ofNat_sub _ _ h48).symm
      have hnumber : number (digits ++ [c]) = 10 * number digits + (c.toNat - 48) := by
        rw [number, List.foldl_append]
        rfl
      rw [volumeOfDigits_concat, ih hdigits', hnumber, hsub, Int32.ofNat_add, Int32.ofNat_mul,
        Int32.mul_comm]
      rfl

theorem int32_ofNat_inj {m n : ℕ} : Int32.ofNat m = Int32.ofNat n ↔ m % 2 ^ 32 = n % 2 ^ 32 := by
  rw [← Int32.toBitVec_inj, Int32.toBitVec_ofNat', Int32.toBitVec_ofNat', ← BitVec.toNat_inj,
    BitVec.toNat_ofNat, BitVec.toNat_ofNat]

theorem int32_ofNat_zero {m : ℕ} : Int32.ofNat m = 0 ↔ m % 2 ^ 32 = 0 := int32_ofNat_inj

/-- A number reduced to 32 bits. -/
theorem volumeRight_iff_coincides :
    VolumeRight fields (Int32.ofNat (number digits)) ↔ Coincides fields digits := by
  rw [VolumeRight, Coincides]
  cases orderQty fields with
  | none => exact int32_ofNat_zero
  | some value =>
      refine imp_congr_right fun _ => ?_
      split_ifs with hlt
      · rw [int32_ofNat_inj, Nat.mod_eq_of_lt (show number value < 2 ^ 32 by omega)]
      · exact int32_ofNat_zero

/-- **The volume of a message in fields.** -/
theorem volumeOf_fields {payload : Buf} {pktLen : ℕ} (hlen : pktLen < 2 ^ 31)
    (hmsg : message payload pktLen = encodeFields fields) :
    volumeOf payload pktLen = Int32.ofNat (number (takenDigits fields)) := by
  rcases behindTag_encodeFields fields with ⟨hnone, hnil⟩ | ⟨c, more, hsome, hdigits, hc⟩
  · rw [volumeOf_eq hlen, hmsg, hnone, hnil]
    rfl
  · rw [volumeOf_ended hlen (by rw [hmsg, hsome]) hdigits hc, volumeOfDigits_eq hdigits]

/-- What the search comes to at the first `38=`. -/
theorem takenDigits_eq (fields : List FixField) :
    (firstMark fields = none → takenDigits fields = [] ∧ orderQty fields = none) ∧
    (∀ value, firstMark fields = some (.field value) →
      takenDigits fields = value.takeWhile isDigit ∧ orderQty fields = some value) ∧
    ∀ digits, firstMark fields = some (.stray digits) → takenDigits fields = digits := by
  induction fields with
  | nil => exact ⟨fun _ => ⟨rfl, rfl⟩, nofun, nofun⟩
  | cons f fields ih =>
      rw [firstMark, takenDigits]
      by_cases htag : f.tag = ascii "38"
      · rw [if_pos htag, if_pos (htag ▸ List.suffix_rfl)]
        have hqty : orderQty (f :: fields) = some f.value := by
          rw [orderQty, List.find?_cons, decide_eq_true htag]
          rfl
        refine ⟨nofun, fun value h => ?_, nofun⟩
        cases h
        exact ⟨rfl, hqty⟩
      · have hqty : orderQty (f :: fields) = orderQty fields := by
          rw [orderQty, List.find?_cons, decide_eq_false htag, orderQty]
        rw [if_neg htag, hqty]
        by_cases h38 : ascii "38" <:+ f.tag
        · rw [if_pos h38, if_pos h38]
          refine ⟨nofun, nofun, fun digits h => ?_⟩
          cases h
          rfl
        · rw [if_neg h38, if_neg h38]
          cases behindTag f.value with
          | none => exact ih
          | some rest =>
              refine ⟨nofun, nofun, fun digits h => ?_⟩
              cases h
              rfl

/-- **The volume is the order quantity** exactly if the first `38=` of the message is the field 38
with a number below `2 ^ 31`, or none stands in it; the other cases are coincidences of numbers. -/
theorem volume_right_iff (q : VirtQueue Buf) (fields : List FixField)
    (hused : q.usedIdx ≠ q.lastUsedIdx) (hlen : (nextUsed q).len < 2 ^ 31)
    (hmsg : message (nextUsed q).content (nextUsed q).len = encodeFields fields) :
    VolumeRight fields (virtioNetPollRx q).1 ↔ MarksOrder fields := by
  have hvolume : (virtioNetPollRx q).1 = Int32.ofNat (number (takenDigits fields)) := by
    refine (virtioNetPollRx_buffers q q.buffers).trans ?_
    rw [if_pos hused]
    exact volumeOf_fields hlen hmsg
  obtain ⟨hnone, hfield, hstray⟩ := takenDigits_eq fields
  rw [hvolume, MarksOrder]
  cases hmark : firstMark fields with
  | none =>
      obtain ⟨htaken, hqty⟩ := hnone hmark
      rw [VolumeRight, htaken, hqty]
      exact iff_of_true rfl trivial
  | some mark =>
      cases mark with
      | field value =>
          obtain ⟨htaken, hqty⟩ := hfield value hmark
          rw [VolumeRight, htaken, hqty]
          refine imp_congr_right fun hvalue => ?_
          rw [List.takeWhile_eq_self_iff.2 hvalue.2]
          split_ifs with hlt
          · exact iff_of_true rfl (.inl hlt)
          · rw [int32_ofNat_zero, or_iff_right hlt, Nat.dvd_iff_mod_eq_zero]
      | stray digits =>
          rw [hstray digits hmark, volumeRight_iff_coincides]

/-- A field of an order. -/
def field (tag value : String) (htag : ascii tag ≠ [] ∧ ∀ b ∈ ascii tag, isDigit b)
    (hvalue : 1 ∉ ascii value) : FixField := ⟨ascii tag, ascii value, htag, hvalue⟩

/-- An order of 100, with the quantity that it leaves open behind it. -/
def orderFields : List FixField :=
  [field "35" "D" (by decide +kernel) (by decide +kernel),
    field "38" "100" (by decide +kernel) (by decide +kernel),
    field "151" "38=7" (by decide +kernel) (by decide +kernel)]

theorem order_volume_right :
    VolumeRight orderFields (virtioNetPollRx (receivedQueue (encodeFields orderFields) [])).1 :=
  (volume_right_iff (receivedQueue (encodeFields orderFields) []) orderFields (by decide)
    (by decide +kernel) (by decide +kernel)).2 (by
      rw [MarksOrder, show firstMark orderFields = some (.field (ascii "100")) from rfl]
      exact fun _ => .inl (by decide))

/-- An order with a list of 5 legs before its quantity. -/
def leggedFields : List FixField :=
  [field "138" "5" (by decide +kernel) (by decide +kernel),
    field "38" "100" (by decide +kernel) (by decide +kernel)]

/-- **The tag 138 is taken for 38**, and a numeral comes back reduced to 32 bits. -/
theorem other_tag_taken :
    ¬ VolumeRight leggedFields (virtioNetPollRx (receivedQueue (encodeFields leggedFields) [])).1 ∧
      (virtioNetPollRx (receivedQueue (encodeFields leggedFields) [])).1 = 5 ∧
      (virtioNetPollRx (receivedQueue (ascii "38=4294967301\x01") [])).1 = 5 := by
  have h5 : (virtioNetPollRx (receivedQueue (encodeFields leggedFields) [])).1 = 5 := by
    decide +kernel
  refine ⟨?_, h5, by decide +kernel⟩
  rw [h5, VolumeRight, show orderQty leggedFields = some (ascii "100") by decide +kernel]
  exact fun h => absurd (h (by decide +kernel)) (by decide)

end

end Virtio
end AiOsExchange
