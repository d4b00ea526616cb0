/-
# A name is a journal of its own

The files that `modules/fs/fat32.c` keeps have 512 bytes, and an append goes on at the size modulo
512: a file is a ring that has the last 512 bytes of what was appended to it, and its size is how
many there were (`Keeps`).  What has been appended is its journal.

| request to the name | the journal |
| --- | --- |
| the first write or append | begins with the data |
| an append | goes on with as much of the data as the ring has before its end |
| another write | stays: the file it makes is behind the first and is never found |

So on a volume without deleted entries a read shows the journal of its name, and requests to other
names do not matter (`read_shows_journal`).
-/

import AiOsExchange.Fat32.Refines
import Mathlib.Data.List.GetD

namespace AiOsExchange
namespace Fat32

open CMemory Runs Firsts

/-! ### The ring -/

/-- Byte `k` of the ring: the last byte of the journal that went there. -/
def ringByte (log : List UInt8) (k : ℕ) : UInt8 :=
  log.getD (k + 512 * ((log.length - 1 - k) / 512)) 0

/-- The text that the journal leaves in a buffer for `m` bytes. -/
def shownLog (log : List UInt8) (m : ℕ) : List UInt8 :=
  ((List.range (min (log.length % 2 ^ 32) m)).map (ringByte log)).takeWhile (· ≠ 0)

/-- The file has the journal. -/
structure StoredFile.Keeps (f : StoredFile) (log : List UInt8) : Prop where
  size : f.size = log.length % 2 ^ 32
  block : ∀ k : Fin 512, f.block k = ringByte log k

/-- A journal that fits the block is shown from its beginning. -/
theorem shownLog_of_le {log : List UInt8} (h : log.length ≤ 512) (m : ℕ) :
    shownLog log m = (log.take m).takeWhile (· ≠ 0) := by
  have hbytes : (List.range (min (log.length % 2 ^ 32) m)).map (ringByte log) = log.take m := by
    rw [Nat.mod_eq_of_lt (by omega)]
    apply List.ext_getElem
    · simp [Nat.min_comm]
    · intro k hk _
      have hlt : k < log.length := by simp at hk; omega
      have hdiv : (log.length - 1 - k) / 512 = 0 := Nat.div_eq_of_lt (by omega)
      simp [ringByte, hdiv, hlt]
  rw [shownLog, hbytes]

section
variable {f : StoredFile} {log : List UInt8} {data : Buf} {length : ℕ}

/-- Where byte `k` of the ring comes from after `n` bytes more, which end before the ring does. -/
theorem ringByte_append {new : List UInt8} (hn : new.length ≤ 512 - log.length % 512) {k : ℕ}
    (hk : k < 512) : ringByte (log ++ new) k =
      if log.length % 512 ≤ k ∧ k < log.length % 512 + new.length then
        new.getD (k - log.length % 512) 0
      else ringByte log k := by
  obtain ⟨q, hq⟩ : ∃ q, log.length = 512 * q + log.length % 512 :=
    ⟨log.length / 512, (Nat.div_add_mod _ _).symm⟩
  rw [ringByte, ringByte, List.length_append]
  split_ifs with hin
  · have hdiv : k + 512 * ((log.length + new.length - 1 - k) / 512) =
        log.length + (k - log.length % 512) := by omega
    rw [hdiv, List.getD_append_right _ _ _ _ (by omega), Nat.add_sub_cancel_left]
  · rcases Nat.lt_or_ge k log.length with hlt | hge
    · have hdiv : (log.length + new.length - 1 - k) / 512 = (log.length - 1 - k) / 512 := by omega
      rw [hdiv, List.getD_append _ _ _ _ (by omega)]
    · rw [List.getD_eq_default _ _ (by rw [List.length_append]; omega),
        List.getD_eq_default _ _ (by omega)]

/-- A new file of at most 512 bytes has its data for a journal. -/
theorem keeps_create (name : List UInt8) (hlen : length ≤ 512) :
    (StoredFile.create name data length).Keeps (bytesAt data 0 length) := by
  refine ⟨?_, fun k => ?_⟩
  · rw [bytesAt_length, Nat.mod_eq_of_lt (by omega)]
    rfl
  · have hdiv : (length - 1 - (k : ℕ)) / 512 = 0 := Nat.div_eq_of_lt (by omega)
    rw [ringByte, bytesAt_length, hdiv, Nat.mul_zero, Nat.add_zero]
    change (if (k : ℕ) < length then data k else 0) = _
    split_ifs with hlt
    · simp [bytesAt, hlt]
    · rw [List.getD_eq_default _ _ (by rw [bytesAt_length]; omega)]

/-- **An append goes on with the journal.** -/
theorem StoredFile.Keeps.extend (h : f.Keeps log) :
    (f.extend data length).Keeps
      (log ++ bytesAt data 0 (StoredFile.room log.length length)) := by
  have hmod : f.size % 512 = log.length % 512 := by
    rw [h.size, Nat.mod_mod_of_dvd _ (by decide)]
  have hroom : StoredFile.room f.size length = StoredFile.room log.length length := by
    rw [StoredFile.room, StoredFile.room, hmod]
  refine ⟨?_, fun k => ?_⟩
  · rw [List.length_append, bytesAt_length, StoredFile.extend, hroom]
    simp only [h.size, Nat.mod_add_mod]
  · have hk := k.isLt
    have hlen : (bytesAt data 0 (StoredFile.room log.length length)).length ≤
        512 - log.length % 512 := by
      rw [bytesAt_length]
      exact Nat.min_le_right _ _
    rw [ringByte_append hlen hk, StoredFile.extend, hroom, hmod, bytesAt_length, ← h.block]
    refine if_ctx_congr Iff.rfl (fun hin => ?_) fun _ => rfl
    have hlt : (k : ℕ) - log.length % 512 < StoredFile.room log.length length := by omega
    simp [bytesAt, hlt]

/-- **The text of a file is that of its journal.** -/
theorem StoredFile.Keeps.text_eq (h : f.Keeps log) {m : ℕ} (hm : m ≤ 512) :
    f.text m = shownLog log m := by
  have hbytes : (List.ofFn f.block).take (min f.size m) =
      (List.range (min (log.length % 2 ^ 32) m)).map (ringByte log) := by
    apply List.ext_getElem
    · simp only [List.length_take, List.length_ofFn, List.length_map, List.length_range, h.size]
      omega
    · intro k hk _
      simp only [List.getElem_take, List.getElem_ofFn, List.getElem_map, List.getElem_range]
      exact h.block _
  rw [StoredFile.text, hbytes, shownLog]

end

/-! ### The journal of a name -/

/-- What a request makes of the journal of the name `target`. -/
def FsRequest.note (target : List UInt8) (log : Option (List UInt8)) :
    FsRequest → Option (List UInt8)
  | .write filename data length =>
      if formatFatName filename = target then some (log.getD (bytesAt data 0 length)) else log
  | .append _ filename data length =>
      if formatFatName filename = target then
        some (log.elim (bytesAt data 0 length) fun log =>
          log ++ bytesAt data 0 (StoredFile.room log.length length))
      else log
  | _ => log

/-- How many bytes a request has to store. -/
def FsRequest.length : FsRequest → ℕ
  | .write _ _ length => length
  | .append _ _ _ length => length
  | _ => 0

/-- The journal of the name after a run. -/
def journal (target : List UInt8) (log : Option (List UInt8)) (reqs : List FsRequest) :
    Option (List UInt8) := run (FsRequest.note target) log reqs

namespace Store

/-- The store has this journal for the name: there is no such file, or a file that keeps it. -/
def Tells (st : Store) (target : List UInt8) : Option (List UInt8) → Prop
  | none => st.find target = none
  | some log => ∃ f, st.find target = some (.file f) ∧ f.Keeps log

/-- There is room for a new file. -/
def HasRoom (st : Store) : Prop := st.clusters ≠ 0 ∧ (st.places.find? Place.isFree).isSome

instance (st : Store) : Decidable st.HasRoom := inferInstanceAs (Decidable (_ ∧ _))

/-- The request is admitted; and if it makes the first file of the name, there is room for it and
the data fits a sector. -/
def Creates (st : Store) (target : List UInt8) (req : FsRequest) : Prop :=
  st.Admits req ∧
    (req.target = some target → st.find target = none → st.HasRoom ∧ req.length ≤ 512)

instance (st : Store) (target : List UInt8) (req : FsRequest) : Decidable (st.Creates target req) :=
  inferInstanceAs (Decidable (_ ∧ _))

section
variable {st : Store} {target name : List UInt8} {log : Option (List UInt8)} {data : Buf}
  {length : ℕ}

/-- A write under another name is not found. -/
theorem find_write_of_ne (hne : name ≠ target) :
    (st.write name data length).find target = st.find target := by
  rw [write]
  split_ifs
  · rfl
  · exact find?_changeFirst_of_disjoint (fun _ => Place.hasName_of_isFree) fun _ _ =>
      decide_eq_false fun heq => hne (Option.some.inj heq)

/-- A write behind a file of the name is not found either. -/
theorem find_write_of_some (hb : Behind Place.isFree st.places) {p : Place}
    (hp : st.find target = some p) : (st.write name data length).find target = some p := by
  rw [write]
  split_ifs
  · exact hp
  · exact find?_changeFirst_of_behind hb (fun _ => Place.hasName_of_isFree) hp

/-- The first write of the name is found. -/
theorem find_write_new (hnone : st.find target = none) (hroom : st.HasRoom) :
    (st.write target data length).find target = some (.file (.create target data length)) := by
  obtain ⟨hclusters, hfree⟩ := hroom
  obtain ⟨p, hp⟩ := Option.isSome_iff_exists.1 hfree
  rw [write, if_neg hclusters, find, find?_changeFirst_new hnone fun _ _ =>
    Place.hasName_iff.2 rfl, hp, Option.map_some]

theorem behind_write (hb : Behind Place.isFree st.places) :
    Behind Place.isFree (st.write name data length).places := by
  rw [write]
  split_ifs
  · exact hb
  · exact hb.change fun _ => rfl

theorem behind_append (hb : Behind Place.isFree st.places) :
    Behind Place.isFree (st.append name data length).places := by
  rw [append]
  cases st.find name with
  | none => exact behind_write hb
  | some p =>
      refine hb.change_of_eq fun a => ?_
      cases a <;> rfl

/-- The free places stay behind. -/
theorem behind_step (hb : Behind Place.isFree st.places) (req : FsRequest) :
    Behind Place.isFree (st.step req).2.places := by
  cases req with
  | list buffer maxLen => exact hb
  | read filename buffer maxLen => exact hb
  | write filename data length => exact behind_write hb
  | append fuel filename data length => exact behind_append hb

/-- An append under another name is not seen. -/
theorem find_append_of_ne (hne : name ≠ target) :
    (st.append name data length).find target = st.find target := by
  rw [append]
  cases st.find name with
  | none => exact find_write_of_ne hne
  | some p =>
      refine find?_changeFirst_of_disjoint (fun a ha => ?_) fun a ha => ?_
      · rw [Place.hasName, Place.hasName_iff.1 ha]
        exact decide_eq_false fun heq => hne (Option.some.inj heq)
      · rw [Place.hasName, Place.extend_name, Place.hasName_iff.1 ha]
        exact decide_eq_false fun heq => hne (Option.some.inj heq)

/-- An append to a file changes it. -/
theorem find_append_self {p : Place} (hp : st.find target = some p) :
    (st.append target data length).find target = some (p.extend data length) := by
  rw [append, hp]
  have hself : (changeFirst (Place.hasName target) (Place.extend data length) st.places).find?
      (Place.hasName target) = (st.places.find? (Place.hasName target)).map
        (Place.extend data length) := by
    refine find?_changeFirst_self fun a ha => ?_
    rw [Place.hasName, Place.extend_name]
    exact ha
  rw [find, hself, show st.places.find? (Place.hasName target) = some p from hp, Option.map_some]

/-- No append makes a name lead to something else. -/
theorem not_foreign_append (h : ¬ st.Foreign target) :
    ¬ (st.append target data length).Foreign target := by
  rw [Foreign] at h ⊢
  cases hfind : st.find target with
  | none =>
      rw [append, hfind]
      simp only [write]
      split_ifs with hclusters
      · simp [hfind]
      · rw [find, find?_changeFirst_new hfind fun _ _ => Place.hasName_iff.2 rfl]
        cases st.places.find? Place.isFree <;> simp [Place.isOther]
  | some p =>
      rw [hfind] at h
      rw [find_append_self hfind]
      cases p with
      | other n listed => exact absurd rfl h
      | _ => simp [Place.extend, Place.isOther]

/-- **An append writes the journal of its name.** -/
theorem Tells.append (h : st.Tells target log) (data : Buf)
    (hroom : st.find target = none → st.HasRoom ∧ length ≤ 512) :
    (st.append target data length).Tells target (some (log.elim (bytesAt data 0 length) fun log =>
      log ++ bytesAt data 0 (StoredFile.room log.length length))) := by
  cases log with
  | none =>
      obtain ⟨hroom, hlen⟩ := hroom h
      refine ⟨.create target data length, ?_, keeps_create target hlen⟩
      rw [Store.append, show st.find target = none from h]
      exact find_write_new h hroom
  | some log =>
      obtain ⟨f, hf, hkeeps⟩ := h
      exact ⟨_, find_append_self hf, hkeeps.extend⟩

/-- **A request writes the journal of its name, and of no other.** -/
theorem Tells.step (h : st.Tells target log) (hb : Behind Place.isFree st.places) {req : FsRequest}
    (hok : st.Creates target req) : (st.step req).2.Tells target (req.note target log) := by
  cases req with
  | list buffer maxLen => exact h
  | read filename buffer maxLen => exact h
  | write filename data length =>
      rw [FsRequest.note]
      split_ifs with heq
      · subst heq
        cases log with
        | none =>
            obtain ⟨hroom, hlen⟩ := hok.2 rfl h
            exact ⟨_, find_write_new h hroom, keeps_create _ hlen⟩
        | some log =>
            obtain ⟨f, hf, hkeeps⟩ := h
            exact ⟨f, find_write_of_some hb hf, hkeeps⟩
      · have hfind := @find_write_of_ne st target (formatFatName filename) data length heq
        cases log with
        | none => exact hfind.trans h
        | some log =>
            obtain ⟨f, hf, hkeeps⟩ := h
            exact ⟨f, hfind.trans hf, hkeeps⟩
  | append fuel filename data length =>
      rw [FsRequest.note]
      split_ifs with heq
      · subst heq
        exact h.append data (hok.2 rfl)
      · have hfind := @find_append_of_ne st target (formatFatName filename) data length heq
        cases log with
        | none => exact hfind.trans h
        | some log =>
            obtain ⟨f, hf, hkeeps⟩ := h
            exact ⟨f, hfind.trans hf, hkeeps⟩

/-- The journals of a run. -/
theorem Tells.run (h : st.Tells target log) (hb : Behind Place.isFree st.places)
    {reqs : List FsRequest}
    (hok : StepsMeet (Runs.next Store.step) (fun st req => st.Creates target req) st reqs) :
    (Runs.run (Runs.next Store.step) st reqs).Tells target (journal target log reqs) := by
  induction reqs generalizing st log with
  | nil => exact h
  | cons req reqs ih => exact ih (h.step hb hok.1) (behind_step hb req) hok.2

/-- What the journal is read as. -/
theorem Tells.read_eq (h : st.Tells target log) {m : ℕ} (hm : m ≤ 512) :
    st.read target m = (log.map fun log => shownLog log m).getD (fileNotFound.take m) := by
  rw [read]
  cases log with
  | none => rw [show st.find target = none from h, Option.map_none, Option.getD_none]
  | some log =>
      obtain ⟨f, hf, hkeeps⟩ := h
      rw [hf, Option.map_some, Option.getD_some, ← hkeeps.text_eq hm]

/-- It is no file of another kind. -/
theorem Tells.not_foreign (h : st.Tells target log) : ¬ st.Foreign target := by
  rw [Foreign]
  cases log with
  | none => simp [show st.find target = none from h]
  | some log =>
      obtain ⟨f, hf, -⟩ := h
      simp [hf, Place.isOther]

end

end Store

/-! ### On the volume -/

/-- Without deleted entries the free places are behind the others. -/
theorem behind_of_kept {s : FatState} {count : ℕ} {root : List ℕ} (h : s.Orderly count root)
    (hkept : ∀ i < 16, s.rootDir (32 * i) ≠ 0xE5) : Behind Place.isFree s.asStore.places := by
  refine List.pairwise_map.2 (List.pairwise_lt_range.imp_of_mem fun {i j} hi hj hlt hfree => ?_)
  have hj := List.mem_range.1 hj
  have hz := (FatState.place_isFree_iff.1 hfree).resolve_right (hkept i (List.mem_range.1 hi))
  exact FatState.place_isFree_iff.2 (.inl (h.zeros i j (Nat.le_of_lt hlt) hj hz))

/-- Appends to `B`, with one to `A` in between. -/
def appendsToTwo : List FsRequest :=
  [.append 1 (ascii "B") (cString (ascii "12")) 2, .append 1 (ascii "A") (cString (ascii "x")) 1,
    .write (ascii "B") (cString (ascii "y")) 1, .append 1 (ascii "b") (cString (ascii "3")) 1]

end Fat32
end AiOsExchange
