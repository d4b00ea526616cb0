/-
# What the kernel reads in a write request

The loop of `s.write` copies up to byte 254 of the payload, the loop of `trade.listen` up to byte
253, and the kernel finds the data behind the first NUL and computes its length again.  What is
typed fits (`requests_decode`).  A captured line of more than 242 bytes does not, and its end is
left out.
-/

import AiOsExchange.Shell.Main

namespace AiOsExchange
namespace Shell

open CMemory Autarky Kernel

/-- The kernel's split of the payload gives this name and this data. -/
def Decodes (req : OsMessage) (filename data : List UInt8) : Prop :=
  stringAt req.payload = filename ∧ writeLength req = data.length ∧
    bytesAt (writeData req) 0 data.length = data

instance (req : OsMessage) (filename data : List UInt8) : Decidable (Decodes req filename data) :=
  inferInstanceAs (Decidable (_ ∧ _ ∧ _))

/-- A command line that writes `data` to `filename`. -/
def WriteLine (line filename data : List UInt8) : Prop :=
  ∃ ns, (ns = ascii "storage" ∨ ns = ascii "s") ∧ (32 : UInt8) ∉ filename ∧
    line = ns ++ ascii ".write " ++ filename ++ 32 :: data

theorem decodes_fileRequest {filename data : List UInt8} (pay : Buf) (h0 : (0 : UInt8) ∉ filename)
    (hl : filename.length + 1 + data.length < 2 ^ 32) :
    Decodes (fileRequest pay filename data) filename data :=
  ⟨stringAt_fileRequest h0 (by omega), writeLength_fileRequest h0 hl,
    writeData_fileRequest h0 (by omega)⟩

/-! ### The command line -/

theorem shellStrchr_eq_some {s before behind : List UInt8} {c : UInt8}
    (h : shellStrchr s c = some (before, behind)) : c ∉ before ∧ s = before ++ c :: behind := by
  rw [shellStrchr] at h
  split_ifs at h with hc
  obtain ⟨rfl, rfl⟩ := Prod.mk.inj (Option.some.inj h)
  obtain ⟨rest, hr⟩ := ShellWrite.dropWhile_of_mem hc
  constructor
  · intro hmem
    simpa using List.mem_takeWhile_imp hmem
  · conv_lhs => rw [← @List.takeWhile_append_dropWhile _ (· ≠ c) s]
    rw [hr]
    rfl

theorem shellStrchr_append {before : List UInt8} {c : UInt8} (behind : List UInt8)
    (h : c ∉ before) : shellStrchr (before ++ c :: behind) c = some (before, behind) := by
  have hall : ∀ a ∈ before, decide (a ≠ c) = true := fun a ha => by
    simpa using fun hac : a = c => h (hac ▸ ha)
  rw [shellStrchr, if_pos (by simp), List.takeWhile_append_of_pos hall,
    List.dropWhile_append_of_pos hall]
  simp

/-- The verbs of `storage` with arguments send one write request. -/
theorem storageAction_write {pay : Buf} {verb : List UInt8} {args : Option (List UInt8)}
    {req : OsMessage} (h : storageAction pay verb args = .request req)
    (ht : req.type = .fsWriteReq) :
    verb = ascii "write" ∧ ∃ filename data,
      args = some (filename ++ 32 :: data) ∧ (32 : UInt8) ∉ filename ∧
        req = writeRequest pay filename data := by
  unfold storageAction at h
  cases args with
  | none =>
      simp only at h
      split_ifs at h
      obtain rfl := Action.request.inj h
      cases ht
  | some args =>
      simp only at h
      split_ifs at h with hlist hread hwrite
      · obtain rfl := Action.request.inj h
        cases ht
      · obtain rfl := Action.request.inj h
        cases ht
      · split at h
        · rename_i filename data hsplit
          obtain ⟨hb, rfl⟩ := ShellWrite.splitArgs_eq_some hsplit
          exact ⟨hwrite, filename, data, rfl, hb, (Action.request.inj h).symm⟩
        · cases h

/-- Only the namespace `storage` has a verb that writes. -/
theorem verbAction_write {pay : Buf} {ns verb : List UInt8} {args : Option (List UInt8)}
    {req : OsMessage} (h : verbAction pay ns verb args = .request req)
    (ht : req.type = .fsWriteReq) :
    (ns = ascii "storage" ∨ ns = ascii "s") ∧ storageAction pay verb args = .request req := by
  unfold verbAction at h
  by_cases hs : ns = ascii "storage" ∨ ns = ascii "s"
  · rw [if_pos hs] at h
    exact ⟨hs, h⟩
  · rw [if_neg hs] at h
    cases args <;> simp only at h <;> split_ifs at h <;>
      · obtain rfl := Action.request.inj h
        cases ht

/-- The command lines that send a write request, and the request. -/
theorem command_write {pay : Buf} {line : List UInt8} {req : OsMessage}
    (h : command pay line = .request req) (ht : req.type = .fsWriteReq) :
    ∃ filename data, WriteLine line filename data ∧ req = writeRequest pay filename data := by
  unfold command at h
  split at h
  · cases h
  · rename_i ns rest hdot
    obtain ⟨-, rfl⟩ := shellStrchr_eq_some hdot
    split at h
    · rename_i verb args hblank
      obtain ⟨-, rfl⟩ := shellStrchr_eq_some hblank
      obtain ⟨hns, h⟩ := verbAction_write h ht
      obtain ⟨rfl, filename, data, hargs, hb, rfl⟩ := storageAction_write h ht
      refine ⟨filename, data, ⟨ns, hns, hb, ?_⟩, rfl⟩
      obtain rfl := Option.some.inj hargs
      rw [show ascii ".write " = 46 :: ascii "write" ++ [32] by decide]
      simp only [List.append_assoc, List.cons_append, List.nil_append]
    · obtain ⟨hns, h⟩ := verbAction_write h ht
      obtain ⟨-, filename, data, hargs, -⟩ := storageAction_write h ht
      cases hargs

/-- The other way: such a line sends the request with its name and its data. -/
theorem command_of_writeLine {line filename data : List UInt8} (pay : Buf)
    (h : WriteLine line filename data) :
    command pay line = .request (writeRequest pay filename data) := by
  obtain ⟨ns, hns, hb, rfl⟩ := h
  have hdot : (46 : UInt8) ∉ ns := by
    rcases hns with rfl | rfl <;> decide
  have hline : ns ++ ascii ".write " ++ filename ++ 32 :: data =
      ns ++ 46 :: (ascii "write" ++ 32 :: (filename ++ 32 :: data)) := by
    rw [show ascii ".write " = 46 :: ascii "write" ++ [32] by decide]
    simp only [List.append_assoc, List.cons_append, List.nil_append]
  have hargs : splitArgs (filename ++ 32 :: data) = some (filename, data) :=
    shellStrchr_append data hb
  have hverb : storageAction pay (ascii "write") (some (filename ++ 32 :: data)) =
      .request (writeRequest pay filename data) := by
    unfold storageAction
    rw [if_neg (by decide)]
    simp only [hargs]
    rw [if_neg (by decide), if_pos trivial]
  unfold command
  rw [hline, shellStrchr_append _ hdot]
  simp only [shellStrchr_append _ (show (32 : UInt8) ∉ ascii "write" by decide)]
  rw [verbAction, if_pos hns, hverb]

/-- A line has at least nine bytes besides its name and its data, so the loops copy all of both. -/
theorem decodes_of_writeLine {line filename data : List UInt8} (pay : Buf)
    (h : WriteLine line filename data) (hl : line.length ≤ 255) (h0 : (0 : UInt8) ∉ line) :
    Decodes (writeRequest pay filename data) filename data := by
  obtain ⟨ns, hns, -, rfl⟩ := h
  have hverb : (ascii ".write ").length = 7 := by decide
  have hpos : 1 ≤ ns.length := by
    rcases hns with rfl | rfl <;> decide
  simp only [List.length_append, List.length_cons, hverb] at hl
  rw [writeRequest_eq (by omega)]
  refine decodes_fileRequest pay (fun hmem => h0 ?_) (by omega)
  exact List.mem_append_left _ (List.mem_append_right _ hmem)

theorem decodes_tradeRequest (pay : Buf) (line : List UInt8) :
    Decodes (tradeRequest pay line) fileTrades (line.take 242 ++ [10]) := by
  have hname : fileTrades.length = 10 := by decide
  refine decodes_fileRequest pay (by decide) ?_
  simp only [hname, List.length_append, List.length_take, List.length_singleton]
  omega

/-! ### The main result -/

/-- **The kernel decodes what the shell encoded.**  The command lines that send a write request are
those of the form `WriteLine`, and the kernel reads their name and their data, however the 255
characters are split.  Of a captured line it reads the first 242 bytes and the newline: this is the
whole line if it has no more. -/
theorem requests_decode (pay : Buf) :
    (∀ line req, line.length ≤ 255 → (0 : UInt8) ∉ line → command pay line = .request req →
      req.type = .fsWriteReq →
      ∃ filename data, WriteLine line filename data ∧ Decodes req filename data) ∧
    (∀ line filename data, line.length ≤ 255 → (0 : UInt8) ∉ line → WriteLine line filename data →
      ∃ req, command pay line = .request req ∧ req.type = .fsWriteReq ∧
        Decodes req filename data) ∧
    (∀ line, Captured line → captureLine pay line = .send (tradeRequest pay line) true ∧
      Decodes (tradeRequest pay line) fileTrades (line.take 242 ++ [10])) := by
  refine ⟨?_, ?_, ?_⟩
  · intro line req hl h0 hreq ht
    obtain ⟨filename, data, hline, rfl⟩ := command_write hreq ht
    exact ⟨filename, data, hline, decodes_of_writeLine pay hline hl h0⟩
  · intro line filename data hl h0 hline
    exact ⟨_, command_of_writeLine pay hline, rfl, decodes_of_writeLine pay hline hl h0⟩
  · intro line hcap
    exact ⟨if_pos hcap.2.1, decodes_tradeRequest pay line⟩

/-- A captured line of 243 bytes loses its last byte. -/
theorem long_trade_cut :
    ¬ ∀ pay line, Captured line →
      Decodes (tradeRequest pay line) fileTrades (line ++ [10]) := by
  intro h
  have hcap : Captured (123 :: List.replicate 242 97) := by
    refine ⟨by rw [List.length_cons, List.length_replicate]; omega, rfl, ?_⟩
    intro b hb
    rcases List.mem_cons.1 hb with rfl | hb
    · decide
    · obtain rfl := List.eq_of_mem_replicate hb
      decide
  have hread := (decodes_tradeRequest (fun _ => 0) (123 :: List.replicate 242 97)).2.1
  have hclaimed := (h (fun _ => 0) _ hcap).2.1
  rw [hread] at hclaimed
  simp only [List.length_append, List.length_take, List.length_cons, List.length_replicate] at hclaimed
  omega

end Shell
end AiOsExchange
