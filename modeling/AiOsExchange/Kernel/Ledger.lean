/-
# What a sync forgets

`watcher_sync_to_disk` of `kernel/watcher.c` appends each receipt between the cursor and the head to
`LEDGER.LOG`, the text and the newline in two calls that report nothing, and then moves the cursor
to the head.

| | |
| --- | --- |
| a receipt is stored | both calls put their bytes behind those of the file (`EventStored`) |
| a receipt is kept | it is still between the cursor and the head |

After a sync none is kept.  So nothing is forgotten exactly when all are stored, each by calls that
`AppendStoresAll` speaks of (`sync_keeps_iff`).
-/

import AiOsExchange.Fat32.Stored
import AiOsExchange.Kernel.Syscall

namespace AiOsExchange
namespace Kernel

open CMemory Watcher Fat32

/-! ### What is stored and what is kept -/

/-- A call of `fs_append_file_content` for the ledger. -/
def ledgerCall (data : List UInt8) : NewFile where
  filename := ledgerLog
  data := cString data
  length := data.length
  nul_not_mem := by decide

/-- The append of the call. -/
def appendLedger (fuel : ℕ) (data : List UInt8) (s : FatState) : Option FatState :=
  fsAppendFileContent fuel ledgerLog (cString data) data.length s

/-- The slots between the cursor and the head. -/
def pending (w : WatcherState) : List ℕ :=
  Rings.walk watcherHistoryMax watcherHistoryMax w.syncCursor w.head

/-- The event in slot `i`, after those in the slots `before`, is stored: first its text and then a
newline come behind what `LEDGER.LOG` has. -/
def StoredAfter (fuel count : ℕ) (root : List ℕ) (w : WatcherState) (s : FatState) (before : List ℕ)
    (i : ℕ) : Prop :=
  ∃ s₁ s₂ s₃, appendAll fuel (before.flatMap (appendCalls w)) s = some s₁ ∧
    appendLedger fuel (w.events i).text s₁ = some s₂ ∧ appendLedger fuel (ascii "\n") s₂ = some s₃ ∧
      s₁.StoredBy s₂ count root (ledgerCall (w.events i).text) ∧
      s₂.StoredBy s₃ count root (ledgerCall (ascii "\n"))

/-- A sync stores the event in slot `i`. -/
def EventStored (fuel count : ℕ) (root : List ℕ) (w : WatcherState) (s : FatState) (i : ℕ) : Prop :=
  ∃ before after, syncedSlots w = before ++ i :: after ∧ StoredAfter fuel count root w s before i

/-- **The sync forgets no receipt**: each that was pending is stored or still pending. -/
def SyncKeeps (fuel count : ℕ) (root : List ℕ) (w : WatcherState) (s : FatState) : Prop :=
  ∀ i ∈ pending w, (w.events i).type = .ledgerCommit →
    EventStored fuel count root w s i ∨ i ∈ pending (watcherSyncToDisk w).1

/-- The appends for these slots all store their data. -/
def SlotsStore (fuel count : ℕ) (root : List ℕ) (w : WatcherState) : List ℕ → FatState → Prop
  | [], _ => True
  | i :: is, s =>
      s.AppendStoresAll count root (ledgerCall (w.events i).text) ∧
        ∀ s₁ ∈ appendLedger fuel (w.events i).text s,
          s₁.AppendStoresAll count root (ledgerCall (ascii "\n")) ∧
            ∀ s₂ ∈ appendLedger fuel (ascii "\n") s₁, SlotsStore fuel count root w is s₂

section
variable {fuel count i : ℕ} {root is : List ℕ} {w : WatcherState} {s s₁ s₂ : FatState}
  {bytes data : List UInt8}

/-! ### The calls -/

/-- The calls of a sync. -/
theorem sync_calls (w : WatcherState) :
    (watcherSyncToDisk w).2 = (syncedSlots w).flatMap (appendCalls w) := by
  rw [watcherSyncToDisk]
  split_ifs with h
  · rw [syncedSlots, h, Rings.walk_self]
    rfl
  · rfl

/-- **Nothing is kept**: the cursor meets the head. -/
theorem pending_after_sync (w : WatcherState) : pending (watcherSyncToDisk w).1 = [] := by
  rw [watcherSyncToDisk, pending]
  split_ifs with h
  · rw [h, Rings.walk_self]
  · exact Rings.walk_self _ _

theorem appendAll_call (h : appendLedger fuel data s = some s₁) (calls : List AppendCall) :
    appendAll fuel (⟨ledgerLog, data⟩ :: calls) s = appendAll fuel calls s₁ := by
  rw [appendAll, show fsAppendFileContent fuel ledgerLog (cString data) data.length s = some s₁ from h,
    Option.bind_some]

theorem ledgerCall_bytes (data : List UInt8) : (ledgerCall data).bytes = data := bytesAt_cString data

/-- The two calls for a slot. -/
theorem appendAll_slot (h₁ : appendLedger fuel (w.events i).text s = some s₁)
    (h₂ : appendLedger fuel (ascii "\n") s₁ = some s₂) (is : List ℕ) :
    appendAll fuel ((i :: is).flatMap (appendCalls w)) s =
      appendAll fuel (is.flatMap (appendCalls w)) s₂ := by
  rw [List.flatMap_cons, appendCalls, List.cons_append, List.singleton_append, appendAll_call h₁,
    appendAll_call h₂]

/-- After the events before it, an event is stored as it is after the first of them. -/
theorem storedAfter_cons {before : List ℕ} {j : ℕ}
    (h₁ : appendLedger fuel (w.events j).text s = some s₁)
    (h₂ : appendLedger fuel (ascii "\n") s₁ = some s₂) :
    StoredAfter fuel count root w s (j :: before) i ↔
      StoredAfter fuel count root w s₂ before i := by
  rw [StoredAfter, StoredAfter, appendAll_slot h₁ h₂]

/-! ### The events of a sync -/

section
variable (hcount : 126 ≤ count) (hfuel : 126 ≤ fuel)

include hcount hfuel

/-- An append to the ledger. -/
theorem appendLedger_spec (hdata : data.length < 2 ^ 32)
    (hbytes : s.HasBytes count root ledgerLog bytes) (hlow : s.LowFile count root ledgerLog) :
    ∃ s', appendLedger fuel data s = some s' ∧
      (s.StoredBy s' count root (ledgerCall data) ↔
        s.AppendStoresAll count root (ledgerCall data)) ∧
      (s.StoredBy s' count root (ledgerCall data) →
        s'.HasBytes count root ledgerLog (bytes ++ data) ∧ s'.LowFile count root ledgerLog) := by
  obtain ⟨s', happ, hiff, hlow'⟩ :=
    append_stores_iff (f := ledgerCall data) hcount hdata hbytes hlow hfuel
  have hstored : s.StoredBy s' count root (ledgerCall data) ↔ _ := storedBy_iff hbytes
  refine ⟨s', happ, hstored.trans hiff, fun h => ?_⟩
  have hafter := hstored.1 h
  refine ⟨?_, hlow' hafter⟩
  rwa [ledgerCall_bytes] at hafter

/-- **The events of a sync are all stored** if and only if their appends store their data. -/
theorem slotsStore_iff (hbytes : s.HasBytes count root ledgerLog bytes)
    (hlow : s.LowFile count root ledgerLog) :
    (∀ before i after, is = before ++ i :: after → StoredAfter fuel count root w s before i) ↔
      SlotsStore fuel count root w is s := by
  induction is generalizing s bytes with
  | nil => simp [SlotsStore]
  | cons j is ih =>
      have htext : (w.events j).text.length < 2 ^ 32 :=
        Nat.lt_of_le_of_lt (text_length_le _ _) (by decide)
      obtain ⟨s₁, h₁, hiff₁, hnext₁⟩ := appendLedger_spec hcount hfuel htext hbytes hlow
      -- the event in slot `j` is stored by the first two calls
      have hfirst : StoredAfter fuel count root w s [] j ↔
          s.StoredBy s₁ count root (ledgerCall (w.events j).text) ∧
            ∀ s₂ ∈ appendLedger fuel (ascii "\n") s₁,
              s₁.StoredBy s₂ count root (ledgerCall (ascii "\n")) := by
        constructor
        · rintro ⟨t, t₁, t₂, ht, ht₁, ht₂, hst₁, hst₂⟩
          obtain rfl := Option.some.inj ht
          obtain rfl := Option.some.inj (h₁.symm.trans ht₁)
          refine ⟨hst₁, fun s₂ hs₂ => ?_⟩
          obtain rfl := Option.some.inj (ht₂.symm.trans hs₂)
          exact hst₂
        · rintro ⟨hst₁, hst₂⟩
          obtain ⟨hbytes₁, hlow₁⟩ := hnext₁ hst₁
          obtain ⟨s₂, h₂, -, -⟩ :=
            appendLedger_spec hcount hfuel (show (ascii "\n").length < 2 ^ 32 by decide) hbytes₁ hlow₁
          exact ⟨s, s₁, s₂, rfl, h₁, h₂, hst₁, hst₂ s₂ h₂⟩
      have hsplit : (∀ before i after, j :: is = before ++ i :: after →
          StoredAfter fuel count root w s before i) ↔
          StoredAfter fuel count root w s [] j ∧ ∀ before i after, is = before ++ i :: after →
            StoredAfter fuel count root w s (j :: before) i := by
        constructor
        · intro h
          exact ⟨h [] j is rfl, fun before i after heq =>
            h (j :: before) i after (congrArg (j :: ·) heq)⟩
        · rintro ⟨hhead, hrest⟩ before i after heq
          cases before with
          | nil =>
              obtain ⟨rfl, -⟩ := List.cons.inj heq
              exact hhead
          | cons j' before =>
              obtain ⟨rfl, htail⟩ := List.cons.inj heq
              exact hrest before i after htail
      rw [hsplit, hfirst, SlotsStore, hiff₁, and_assoc]
      refine and_congr_right fun hst₁ => ?_
      obtain ⟨hbytes₁, hlow₁⟩ := hnext₁ (hiff₁.2 hst₁)
      obtain ⟨s₂, h₂, hiff₂, hnext₂⟩ :=
        appendLedger_spec hcount hfuel (show (ascii "\n").length < 2 ^ 32 by decide) hbytes₁ hlow₁
      simp only [h₁, h₂, Option.mem_def, Option.some.injEq, forall_eq', hiff₂]
      refine and_congr_right fun hst₂ => ?_
      obtain ⟨hbytes₂, hlow₂⟩ := hnext₂ (hiff₂.2 hst₂)
      rw [← ih hbytes₂ hlow₂]
      simp only [storedAfter_cons h₁ h₂]

/-- Where the appends store their data the events are all stored. -/
theorem storedAfter_of_slotsStore (hbytes : s.HasBytes count root ledgerLog bytes)
    (h : SlotsStore fuel count root w is s) :
    ∀ before i after, is = before ++ i :: after → StoredAfter fuel count root w s before i := by
  cases is with
  | nil => simp
  | cons j is =>
      have hlow : s.LowFile count root ledgerLog := h.1.lowFile hbytes.1
      exact (slotsStore_iff hcount hfuel hbytes hlow).2 h

omit hcount hfuel in
/-- The receipts of a sync: those between the cursor and the head that have a time. -/
theorem mem_syncedSlots_iff : i ∈ syncedSlots w ↔
    i ∈ pending w ∧ (w.events i).type = .ledgerCommit ∧ (w.events i).timestamp ≠ 0 := by
  simp only [syncedSlots, pending, List.mem_filter, Bool.and_eq_true, decide_eq_true_eq]
  tauto

/-- **When a sync forgets no receipt**: if every receipt between the cursor and the head has a time
and is stored by calls that store their data; for a ledger as the kernel makes it, only then. -/
theorem sync_keeps_iff (hcursor : w.syncCursor < watcherHistoryMax)
    (hhead : w.head < watcherHistoryMax) (hbytes : s.HasBytes count root ledgerLog bytes) :
    ((∀ i ∈ pending w, (w.events i).type = .ledgerCommit → (w.events i).timestamp ≠ 0) ∧
        SlotsStore fuel count root w (syncedSlots w) s → SyncKeeps fuel count root w s) ∧
      (s.LowFile count root ledgerLog → SyncKeeps fuel count root w s →
        (∀ i ∈ pending w, (w.events i).type = .ledgerCommit → (w.events i).timestamp ≠ 0) ∧
          SlotsStore fuel count root w (syncedSlots w) s) := by
  have hnodup : (syncedSlots w).Nodup :=
    (Rings.walk_nodup hcursor hhead (Nat.le_refl _)).filter _
  constructor
  · rintro ⟨htime, hstore⟩ i hi htype
    obtain ⟨before, after, hsplit⟩ :=
      List.append_of_mem (mem_syncedSlots_iff.2 ⟨hi, htype, htime i hi htype⟩)
    exact .inl ⟨before, after, hsplit,
      storedAfter_of_slotsStore hcount hfuel hbytes hstore before i after hsplit⟩
  · intro hlow hkeeps
    have hstored {i : ℕ} (hi : i ∈ pending w) (htype : (w.events i).type = .ledgerCommit) :
        EventStored fuel count root w s i := by
      rcases hkeeps i hi htype with h | h
      · exact h
      · rw [pending_after_sync] at h
        exact absurd h List.not_mem_nil
    refine ⟨fun i hi htype => ?_, ?_⟩
    · obtain ⟨before, after, hsplit, -⟩ := hstored hi htype
      have hmem : i ∈ syncedSlots w := hsplit ▸ List.mem_append_right _ List.mem_cons_self
      exact (mem_syncedSlots_iff.1 hmem).2.2
    · refine (slotsStore_iff hcount hfuel hbytes hlow).1 fun before i after hsplit => ?_
      have hmem : i ∈ syncedSlots w := hsplit ▸ List.mem_append_right _ List.mem_cons_self
      obtain ⟨hi, htype, -⟩ := mem_syncedSlots_iff.1 hmem
      obtain ⟨before', after', hsplit', h⟩ := hstored hi htype
      -- the slot stands at one place
      have hsame : before = before' := by
        rw [hsplit] at hnodup hsplit'
        have hout := (List.nodup_cons.1 (List.nodup_middle.1 hnodup)).1
        rw [List.mem_append, not_or] at hout
        exact ((List.append_cons_inj_of_notMem hout.1 hout.2).1 hsplit').1
      exact hsame ▸ h

end

/-! ### A ledger with room -/

section
variable {slot : ℕ} {chain : List ℕ}

/-- An append that fits in the sector the ledger ends in. -/
theorem appendLedger_fits (h : s.Appendable count root ledgerLog slot chain)
    (hfuel : chain.length ≤ fuel)
    (hend : EndsInLast s.sectorsPerCluster chain.length (s.content root slot chain).length)
    (hfits : (s.content root slot chain).length % 512 + data.length ≤ 512) :
    ∀ s₁ ∈ appendLedger fuel data s, s₁.toGeometry = s.toGeometry ∧
      s₁.Appendable count root ledgerLog slot chain ∧
      (s₁.content root slot chain).length = (s.content root slot chain).length + data.length := by
  intro s₁ hs₁
  obtain ⟨s', happ, hg, h', hc⟩ := append_spec h hfuel ⟨cString data, data.length⟩ hend
  obtain rfl := Option.some.inj (happ.symm.trans hs₁)
  refine ⟨hg, h', ?_⟩
  rw [hc, appendBytes, List.length_append, bytesAt_length, Nat.min_eq_left (by
    show data.length ≤ _
    omega)]

/-- **A ledger with room for the lines** gets them, if no request fails. -/
theorem slotsStore_of_appendable (h : s.Appendable count root ledgerLog slot chain)
    (hfuel : chain.length ≤ fuel)
    (hend : is ≠ [] →
      EndsInLast s.sectorsPerCluster chain.length (s.content root slot chain).length)
    (hfits : (s.content root slot chain).length % 512 +
      (is.flatMap fun i => (w.events i).text ++ ascii "\n").length ≤ 512) :
    SlotsStore fuel count root w is s := by
  induction is generalizing s with
  | nil => trivial
  | cons i is ih =>
      have hend := hend (List.cons_ne_nil i is)
      rw [List.flatMap_cons, List.length_append, List.length_append,
        show (ascii "\n").length = 1 from rfl] at hfits
      refine ⟨h.storesAll hend (by show _ + (w.events i).text.length ≤ 512; omega),
        fun s₁ hs₁ => ?_⟩
      obtain ⟨hg₁, h₁, hlen₁⟩ := appendLedger_fits h hfuel hend (by omega) s₁ hs₁
      have hend₁ : EndsInLast s₁.sectorsPerCluster chain.length
          (s₁.content root slot chain).length := by
        rw [EndsInLast] at hend ⊢
        rw [hg₁, hlen₁, ← hend]
        omega
      have hfits₁ : (s₁.content root slot chain).length % 512 + 1 +
          (is.flatMap fun i => (w.events i).text ++ ascii "\n").length ≤ 512 := by
        rw [hlen₁]
        omega
      refine ⟨h₁.storesAll hend₁ (by show _ + 1 ≤ 512; omega), fun s₂ hs₂ => ?_⟩
      obtain ⟨hg₂, h₂, hlen₂⟩ := appendLedger_fits h₁ hfuel hend₁ (by show _ + 1 ≤ 512; omega) s₂ hs₂
      have hlen₂ : (s₂.content root slot chain).length =
          (s₁.content root slot chain).length + 1 := hlen₂
      refine ih h₂ (fun hne => ?_) (by rw [hlen₂]; omega)
      -- another line follows, so the sector is not full
      obtain ⟨j, js, rfl⟩ := List.exists_cons_of_ne_nil hne
      rw [List.flatMap_cons, List.length_append, List.length_append,
        show (ascii "\n").length = 1 from rfl] at hfits₁
      rw [EndsInLast] at hend₁ ⊢
      rw [hg₂, hlen₂, ← hend₁]
      omega

end

end

/-! ### One receipt and one ledger -/

/-- A watcher that has logged one receipt, with the text `X`. -/
def oneReceipt : WatcherState where
  events _ := ⟨1, .ledgerCommit, 0, cString (ascii "X")⟩
  head := 1
  tail := 0
  count := 1
  syncCursor := 0

theorem oneReceipt_text (i : ℕ) : (oneReceipt.events i).text = ascii "X" := by
  rw [WatcherEvent.text, oneReceipt]
  exact text_cString (by decide)

theorem oneReceipt_slots : pending oneReceipt = [0] ∧ syncedSlots oneReceipt = [0] := by
  constructor
  · decide
  · rw [syncedSlots, show Rings.walk watcherHistoryMax watcherHistoryMax oneReceipt.syncCursor
      oneReceipt.head = [0] by decide]
    rfl

/-- A volume with an empty ledger in cluster 3, and a device with these outcomes. -/
def ledgerVolume (io : ℕ → Bool) : FatState := { oneFileVolume ledgerLog [] with io := io }

theorem ledgerVolume_appendable :
    (ledgerVolume fun _ => true).Appendable 126 [2] ledgerLog 0 [3] :=
  oneFileVolume_appendable (by decide) (by decide)

theorem ledgerVolume_content (io : ℕ → Bool) : (ledgerVolume io).content [2] 0 [3] = [] := by
  have h := @oneFileVolume_content ledgerLog [] (Nat.zero_le _)
  rw [← h]
  exact content_of_disk (s := oneFileVolume ledgerLog []) rfl rfl

theorem ledgerVolume_hasBytes (io : ℕ → Bool) :
    (ledgerVolume io).HasBytes 126 [2] ledgerLog [] := by
  have h := ledgerVolume_appendable
  have hbytes := (hasBytes_of_stores h.volume h.stored h.slot_lt).2 (ledgerVolume_content _)
  exact FatState.HasBytes.of_disk (s := ledgerVolume fun _ => true) rfl rfl hbytes

/-- With a working device the receipt is stored. -/
theorem receipt_stored : SyncKeeps 126 126 [2] oneReceipt (ledgerVolume fun _ => true) := by
  refine (sync_keeps_iff (Nat.le_refl _) (Nat.le_refl _) (by decide) (by decide)
    (ledgerVolume_hasBytes _)).1 ⟨fun i _ _ => ?_, ?_⟩
  · show (1 : UInt64) ≠ 0
    decide
  · have hspc : (ledgerVolume fun _ => true).sectorsPerCluster = 1 :=
      oneFileVolume_sectorsPerCluster ledgerLog []
    refine slotsStore_of_appendable ledgerVolume_appendable (by decide) (fun _ => ?_) ?_
    · rw [ledgerVolume_content, hspc]
      rfl
    · rw [ledgerVolume_content, oneReceipt_slots.2]
      simp only [List.flatMap_cons, List.flatMap_nil, oneReceipt_text]
      decide

/-- With a device that fails it is not, and the cursor has passed it. -/
theorem receipt_forgotten :
    (ledgerVolume fun _ => false).HasBytes 126 [2] ledgerLog [] ∧
      pending oneReceipt = [0] ∧ (oneReceipt.events 0).type = .ledgerCommit ∧
      (appendAll 126 (watcherSyncToDisk oneReceipt).2 (ledgerVolume fun _ => false)).map (·.disk) =
        some (ledgerVolume fun _ => false).disk ∧
      pending (watcherSyncToDisk oneReceipt).1 = [] ∧
      ¬ SyncKeeps 126 126 [2] oneReceipt (ledgerVolume fun _ => false) := by
  have hbytes := ledgerVolume_hasBytes fun _ => false
  have hfail (s : FatState) (hio : ∀ n, s.io n = false) (data : List UInt8) :
      appendLedger 126 data s = some { s with io := s.nextIo } := by
    rw [appendLedger, fsAppendFileContent, s.readDisk_false _ (hio 0)]
  refine ⟨hbytes, oneReceipt_slots.1, rfl, ?_, pending_after_sync _, fun h => ?_⟩
  · rw [sync_calls, oneReceipt_slots.2, appendAll_slot (hfail _ (fun _ => rfl) _)
      (hfail _ (fun _ => rfl) _)]
    rfl
  · rcases h 0 (by rw [oneReceipt_slots.1]; exact List.mem_singleton_self 0) rfl with hstored | hkept
    · obtain ⟨before, after, hsplit, s₁, s₂, s₃, h₁, h₂, -, hst, -⟩ := hstored
      rw [oneReceipt_slots.2] at hsplit
      obtain ⟨rfl, -⟩ :=
        (List.append_cons_inj_of_notMem List.not_mem_nil (by simp)).1 (List.nil_append _ ▸ hsplit)
      obtain rfl := Option.some.inj h₁
      obtain rfl := Option.some.inj ((hfail _ (fun _ => rfl) _).symm.trans h₂)
      have hsame := (storedBy_iff (f := ledgerCall _) hbytes).1 hst
      have hback := FatState.HasBytes.of_disk (s := ledgerVolume fun _ => false) rfl rfl hbytes
      have := hback.unique hsame
      rw [ledgerCall_bytes, oneReceipt_text] at this
      exact absurd this (by decide)
    · rw [pending_after_sync] at hkept
      exact absurd hkept List.not_mem_nil

end Kernel
end AiOsExchange
