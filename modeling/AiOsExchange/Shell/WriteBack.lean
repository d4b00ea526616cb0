/-
# Which writes are there when they are acknowledged

`kernel/syscall.c`, `modules/fs/fat32.c` and `modules/shell_gui/main.c`.  The reply to a write
request is `"Write committed to disk.\n"` whatever `fs_write_file_content` did, which returns
nothing and gives up silently in four places.

| given up | what a read then shows |
| --- | --- |
| the FAT sector cannot be read, or has no free entry | what was there before |
| the data sector is not written | what was in that sector |
| the root sector cannot be read or written, or has no free slot | the older file of that name |
| an earlier slot has the name | the older file of that name |

An older file of the name does for every text in one case only: it is linked to the cluster that
the FAT says is free.
-/

import AiOsExchange.Fat32.Written
import AiOsExchange.Shell.Messages

namespace AiOsExchange
namespace Shell

open CMemory Computations Autarky Fat32 Kernel

/-- After the acknowledgement of `r`, a read of the name without failures returns the data. -/
def Durable (fmtValue : Value → List Char) (k : KernelState) (r : ShellWrite) : Prop :=
  ∀ fuel loc pay reply k', handleRequest fmtValue fuel loc (r.message pay) k = (.ok (some reply), k') →
    reply.text = writeCommitted → ∀ fuel loc pay, ∃ reply',
      (handleRequest fmtValue fuel loc (readRequest pay r.filename)
        { k' with fs := { k'.fs with io := fun _ => true } }).1 = .ok (some reply') ∧
        reply'.text = r.data

section
variable {fmtValue : Value → List Char} {fuel : ℕ} {loc : Locals} {pay : Buf} {k : KernelState}

/-- **A write request is acknowledged**, whatever became of it. -/
theorem write_acknowledged (r : ShellWrite) :
    ∃ reply k', handleRequest fmtValue fuel loc (r.message pay) k = (.ok (some reply), k') ∧
      reply.type = .fsWriteResp ∧ reply.text = writeCommitted ∧ k.fs.Later k'.fs ∧
      k'.fs.disk = k.fs.written r.filename r.data := by
  have hlen := r.length_le
  have h0 := r.nul_not_mem_filename
  have ht : (r.message pay).type = .fsWriteReq := by rw [r.message_eq]; rfl
  refine ⟨_, _, handleRequest_write ht, rfl, ?_, write_later _, ?_⟩
  · rw [withText_text, text_cString (by decide)]
    decide
  · rw [r.message_eq, stringAt_fileRequest h0 (by omega), writeLength_fileRequest h0 (by omega)]
    exact disk_write_eq_written (writeData_fileRequest h0 (by omega))

/-- A read request without failures is answered with what is shown. -/
theorem read_shown {filename : List UInt8} (h0 : (0 : UInt8) ∉ filename)
    (hl : filename.length ≤ 255) (hio : ∀ n, k.fs.io n = true) :
    ∃ reply, (handleRequest fmtValue fuel loc (readRequest pay filename) k).1 = .ok (some reply) ∧
      reply.text = k.fs.shown filename 255 := by
  have ht : (readRequest pay filename).type = .fsReadReq := rfl
  rw [handleRequest_read ht]
  refine ⟨_, rfl, ?_⟩
  rw [withText_text, readRequest, stringAt_nameRequest _ h0 hl,
    text_read (hio 0) (fun _ => hio 1) (by decide) (by decide) (by decide)]

/-- **What an acknowledged write has to do.** -/
theorem durable_iff_shown (r : ShellWrite) :
    Durable fmtValue k r ↔ FatState.shownAs k.fs.toGeometry (k.fs.written r.filename r.data)
      (formatFatName r.filename) 255 = r.data := by
  have hlen := r.length_le
  have hshown {k' : KernelState} (hg : k'.fs.toGeometry = k.fs.toGeometry)
      (hd : k'.fs.disk = k.fs.written r.filename r.data) :
      FatState.shown { k'.fs with io := fun _ => true } r.filename 255 =
        FatState.shownAs k.fs.toGeometry (k.fs.written r.filename r.data)
          (formatFatName r.filename) 255 := by
    rw [← hg, ← hd]
    rfl
  constructor
  · intro h
    obtain ⟨reply, k', hw, -, htext, hlater, hd⟩ := @write_acknowledged fmtValue 0
      ⟨fun _ => 0, fun _ => 0, fun _ => 0, fun _ => 0⟩ (fun _ => 0) k r
    obtain ⟨reply', hr, hdata⟩ :=
      h _ _ _ _ _ hw htext 0 ⟨fun _ => 0, fun _ => 0, fun _ => 0, fun _ => 0⟩
      fun _ => 0
    obtain ⟨reply'', hr', htext'⟩ := @read_shown fmtValue 0 ⟨fun _ => 0, fun _ => 0, fun _ => 0, fun _ => 0⟩
      (fun _ => 0) { k' with fs := { k'.fs with io := fun _ => true } } r.filename
      r.nul_not_mem_filename (by omega) fun _ => rfl
    rw [hr] at hr'
    cases hr'
    rw [← hshown hlater.geometry hd, ← htext', hdata]
  · intro h fuel loc pay reply k' hw _ fuel' loc' pay'
    obtain ⟨_, _, hw', -, -, hlater, hd⟩ := @write_acknowledged fmtValue fuel loc pay k r
    rw [hw] at hw'
    cases hw'
    obtain ⟨reply', hr, htext⟩ := @read_shown fmtValue fuel' loc' pay'
      { k' with fs := { k'.fs with io := fun _ => true } } r.filename
      r.nul_not_mem_filename (by omega) fun _ => rfl
    exact ⟨reply', hr, htext.trans ((hshown hlater.geometry hd).trans h)⟩

end

/-! ### Requests for one file -/

/-- A name of at most 12 bytes for the same directory entry. -/
def shortName (filename : List UInt8) : List UInt8 :=
  (filename.takeWhile (· ≠ 46)).take 8 ++ (filename.dropWhile (· ≠ 46)).take 4

theorem shortName_length (filename : List UInt8) : (shortName filename).length ≤ 12 := by
  simp [shortName]
  omega

theorem mem_of_mem_shortName {filename : List UInt8} {b : UInt8} (h : b ∈ shortName filename) :
    b ∈ filename := by
  rcases List.mem_append.1 h with h | h
  · exact (List.takeWhile_sublist _).mem (List.mem_of_mem_take h)
  · exact (List.dropWhile_sublist _).mem (List.mem_of_mem_take h)

theorem formatFatName_shortName (filename : List UInt8) :
    formatFatName (shortName filename) = formatFatName filename := by
  have hbase : ∀ c ∈ (filename.takeWhile (· ≠ 46)).take 8, decide (c ≠ 46) = true := by
    intro c hc
    have h := List.mem_takeWhile_imp (List.mem_of_mem_take hc)
    exact h
  have hdot := List.head?_dropWhile_not (fun c : UInt8 => decide (c ≠ 46)) filename
  generalize hd : filename.dropWhile (· ≠ 46) = d at hdot
  have htail : (d.take 4).takeWhile (· ≠ 46) = [] ∧ (d.take 4).dropWhile (· ≠ 46) = d.take 4 := by
    cases d with
    | nil => simp
    | cons a d => simpa using hdot
  have htake : (shortName filename).takeWhile (· ≠ 46) = (filename.takeWhile (· ≠ 46)).take 8 := by
    rw [shortName, hd, List.takeWhile_append_of_pos hbase, htail.1, List.append_nil]
  have hdrop : (shortName filename).dropWhile (· ≠ 46) = d.take 4 := by
    rw [shortName, hd, List.dropWhile_append_of_pos hbase, htail.2]
  simp only [formatFatName, htake, hdrop, hd, List.take_take, List.drop_take, Nat.min_self]

/-- `r` writes the same file as `q`. -/
def SameFile (q r : ShellWrite) : Prop := formatFatName r.filename = formatFatName q.filename

/-- **Every probe can be typed** for every file. -/
theorem exists_probe (q : ShellWrite) {l : List UInt8} (hl : l ∈ probes) :
    ∃ r, SameFile q r ∧ r.data = l := by
  obtain ⟨hblank, htyped⟩ := q.filename_typed
  have hshort : ∀ l ∈ probes, l.length ≤ 2 := forall_mem_of_all (by decide)
  have hclean : ∀ b ∈ probes.flatten, b ∉ [0, 8, 10, 13] := forall_mem_of_all (by decide)
  have hb : (32 : UInt8) ∉ shortName q.filename := fun h => hblank (mem_of_mem_shortName h)
  have hlen := shortName_length q.filename
  have htypedArgs : Typed (shortName q.filename ++ 32 :: l) := by
    have := hshort l hl
    refine ⟨by rw [List.length_append, List.length_cons]; omega, fun b hmem => ?_⟩
    rcases List.mem_append.1 hmem with h | h
    · exact htyped b (mem_of_mem_shortName h)
    · rcases List.mem_cons.1 h with rfl | h
      · decide
      · exact hclean b (List.mem_flatten.2 ⟨l, hl, h⟩)
  have hall : ∀ c ∈ shortName q.filename, decide (c ≠ 32) = true := by
    intro c hc
    simpa using fun h : c = 32 => hb (h ▸ hc)
  have hsplit : splitArgs (shortName q.filename ++ 32 :: l) = some (shortName q.filename, l) := by
    rw [splitArgs, if_pos (by simp), List.takeWhile_append_of_pos hall,
      List.dropWhile_append_of_pos hall]
    simp
  exact ⟨.command _ _ _ htypedArgs hsplit, formatFatName_shortName q.filename, rfl⟩

/-- **The acknowledgements of the writes to a file are all true exactly if its name leads to each
of them.** -/
theorem durable_iff (fmtValue : Value → List Char) (k : KernelState) (q : ShellWrite) :
    (∀ r, SameFile q r → Durable fmtValue k r) ↔
      ∀ r, SameFile q r → k.fs.WritesThrough (formatFatName q.filename) r.data.length := by
  have htexts := @writtenIs_iff k.fs q.filename (fun l => ∃ r, SameFile q r ∧ r.data = l)
    q.nul_not_mem_filename (fun l hl => exists_probe q hl)
    (fun l ⟨r, _, hr⟩ => hr ▸ r.nul_not_mem_data)
    (fun l ⟨r, _, hr⟩ => by have := r.length_le; rw [← hr]; omega)
  have hdurable {r : ShellWrite} (hr : SameFile q r) : Durable fmtValue k r ↔
      FatState.shownAs k.fs.toGeometry (k.fs.written q.filename r.data) (formatFatName q.filename)
        255 = r.data := by
    rw [durable_iff_shown, written_congr hr, hr]
  constructor
  · intro h r hr
    exact htexts.1 (fun l ⟨r, hr, hl⟩ => hl ▸ (hdurable hr).1 (h r hr)) _ ⟨r, hr, rfl⟩
  · intro h r hr
    exact (hdurable hr).2 (htexts.2 (fun l ⟨r, hr, hl⟩ => hl ▸ h r hr) _ ⟨r, hr, rfl⟩)

/-- A write while the FAT sector cannot be read is acknowledged, and the file not found. -/
theorem lost_write_acknowledged : ¬ ∀ fmtValue k r, Durable fmtValue k r := by
  intro h
  have hcaptured : Captured (ascii "{}") := ⟨by decide, rfl, forall_mem_of_all (by decide)⟩
  have hshown := (durable_iff_shown _).1 (h (fun _ => [])
    (kernelOn { blankVolume with io := fun n => n ≠ 0 }) (.trade (ascii "{}") hcaptured))
  rw [written_of_stuck (.inl rfl)] at hshown
  have hlost : FatState.shownAs blankVolume.toGeometry blankVolume.disk (formatFatName fileTrades) 255 =
      fileNotFound.take 255 := by
    decide +kernel
  have hdata : fileNotFound.take 255 ≠ (ShellWrite.trade (ascii "{}") hcaptured).data := by
    rw [ShellWrite.data]
    decide
  exact hdata (hlost.symm.trans hshown)

end Shell
end AiOsExchange
