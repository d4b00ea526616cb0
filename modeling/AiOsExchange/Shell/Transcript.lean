/-
# What is typed is what is read

The transcript of a dialogue tells what is in the files.  Whatever else is typed, the answer to
`s.read` of a name shows the data of the first `s.write` of this name before it, or what the volume
had under the name, or that there is no such file (`typed_file_read`).  A second write of the name
is answered in the same way as the first, and is never read.  A first one needs room on the volume:
without it the write is answered in this way too, and there is nothing to read (`Roomy`).

Two names are left out: `LEDGER.LOG`, which the watcher appends to, and `TRADES.LOG`, which is written
without a command line.
-/

import AiOsExchange.Shell.Decode
import AiOsExchange.Shell.Script

namespace AiOsExchange
namespace Shell

open CMemory Computations Watcher Autarky Fat32 Kernel Rings Runs Firsts

/-! ### Command lines -/

/-- The arguments of a verb of `storage`. -/
def storageArgs (verb line : List UInt8) : Option (List UInt8) :=
  match shellStrchr line 46 with
  | none => none
  | some (ns, rest) =>
      match shellStrchr rest 32 with
      | none => none
      | some (v, args) =>
          if (ns = ascii "storage" ∨ ns = ascii "s") ∧ v = verb then some args else none

/-- The name that a line reads. -/
def readOf (line : List UInt8) : Option (List UInt8) := storageArgs (ascii "read") line

/-- The name and the data that a line writes. -/
def writeOf (line : List UInt8) : Option (List UInt8 × List UInt8) :=
  (storageArgs (ascii "write") line).bind splitArgs

section
variable {line args verb filename data : List UInt8} {pay : Buf} {req : OsMessage}

theorem command_of_storageArgs (h : storageArgs verb line = some args) :
    command pay line = storageAction pay verb (some args) := by
  rw [storageArgs] at h
  cases hdot : shellStrchr line 46 with
  | none =>
      rw [hdot] at h
      cases h
  | some x =>
      obtain ⟨ns, rest⟩ := x
      rw [hdot] at h
      cases hblank : shellStrchr rest 32 with
      | none =>
          simp only [hblank] at h
          cases h
      | some y =>
          obtain ⟨v, args'⟩ := y
          simp only [hblank] at h
          split_ifs at h with hns
          obtain ⟨hns, rfl⟩ := hns
          obtain rfl := Option.some.inj h
          simp only [command, hdot, hblank]
          rw [verbAction, if_pos hns]

theorem command_of_readOf (h : readOf line = some args) :
    command pay line = .request (readRequest pay args) := by
  rw [command_of_storageArgs h, storageAction, if_neg (by decide)]
  exact if_pos rfl

theorem command_of_writeOf (h : writeOf line = some (filename, data)) :
    command pay line = .request (writeRequest pay filename data) := by
  obtain ⟨args, hargs, hsplit⟩ := Option.bind_eq_some_iff.1 h
  rw [command_of_storageArgs hargs, storageAction, if_neg (by decide)]
  simp only [hsplit]
  rw [if_neg (by decide)]
  exact if_pos trivial

theorem writeOf_of_writeLine (h : WriteLine line filename data) :
    writeOf line = some (filename, data) := by
  obtain ⟨ns, hns, hb, rfl⟩ := h
  have hdot : (46 : UInt8) ∉ ns := by rcases hns with rfl | rfl <;> decide
  have hline : ns ++ ascii ".write " ++ filename ++ 32 :: data =
      ns ++ 46 :: (ascii "write" ++ 32 :: (filename ++ 32 :: data)) := by
    rw [show ascii ".write " = 46 :: ascii "write" ++ [32] by decide]
    simp only [List.append_assoc, List.cons_append, List.nil_append]
  have hargs : storageArgs (ascii "write") (ns ++ ascii ".write " ++ filename ++ 32 :: data) =
      some (filename ++ 32 :: data) := by
    rw [storageArgs, hline, shellStrchr_append _ hdot]
    simp only [shellStrchr_append _ (show (32 : UInt8) ∉ ascii "write" by decide)]
    exact if_pos ⟨hns, trivial⟩
  rw [writeOf, hargs]
  exact shellStrchr_append data hb

/-- The lines that send a write request. -/
theorem writeOf_of_command (h : command pay line = .request req) (ht : req.type = .fsWriteReq) :
    ∃ filename data, writeOf line = some (filename, data) ∧ req = writeRequest pay filename data := by
  obtain ⟨filename, data, hline, hreq⟩ := command_write h ht
  exact ⟨filename, data, writeOf_of_writeLine hline, hreq⟩

theorem writeOf_eq_none (h : command pay line = .request req) (ht : req.type ≠ .fsWriteReq) :
    writeOf line = none := by
  cases hw : writeOf line with
  | none => rfl
  | some p =>
      obtain rfl := Action.request.inj (h.symm.trans (command_of_writeOf hw))
      exact absurd rfl ht

/-- The data and the name of a line are parts of it. -/
theorem decodes_of_writeOf (h : writeOf line = some (filename, data)) (hl : line.length ≤ 255)
    (h0 : (0 : UInt8) ∉ line) :
    Decodes (writeRequest pay filename data) filename data ∧ data.length ≤ 255 := by
  obtain ⟨f, d, hline, hreq⟩ := @command_write pay line _ (command_of_writeOf h) rfl
  obtain ⟨rfl, rfl⟩ := Prod.mk.inj (Option.some.inj (h.symm.trans (writeOf_of_writeLine hline)))
  refine ⟨decodes_of_writeLine pay hline hl h0, ?_⟩
  obtain ⟨ns, -, -, rfl⟩ := hline
  rw [List.length_append, List.length_cons] at hl
  omega

/-- The name that is read is a part of the line. -/
theorem readOf_sub (h : readOf line = some args) : ∃ pre, line = pre ++ args := by
  unfold readOf storageArgs at h
  split at h
  · cases h
  · rename_i ns rest hdot
    split at h
    · cases h
    · rename_i v args' hblank
      split_ifs at h
      obtain rfl := Option.some.inj h
      obtain ⟨-, rfl⟩ := shellStrchr_eq_some hdot
      obtain ⟨-, rfl⟩ := shellStrchr_eq_some hblank
      exact ⟨ns ++ 46 :: v ++ [32], by simp⟩

end

/-! ### Files -/

/-- What a line that is executed writes under the name `target`, if nothing is there. -/
def written (target : List UInt8) (log : Option (List UInt8)) : Said → Option (List UInt8)
  | .executed line =>
      match writeOf line with
      | some (filename, data) =>
          if formatFatName filename = target then some (log.getD data) else log
      | none => log
  | _ => log

/-- What has been written after a transcript. -/
def filed (target : List UInt8) (log : Option (List UInt8)) (said : List Said) : Option (List UInt8) :=
  said.foldl (written target) log

/-- The store has these bytes under the name, and its free places behind the others. -/
structure Filed (st : Store) (target : List UInt8) (log : Option (List UInt8)) : Prop where
  tells : st.Tells target log
  behind : Behind Place.isFree st.places

/-- There is room for a file that is written under a new name. -/
def Roomy (st : Store) (req : OsMessage) : Prop :=
  req.type = .fsWriteReq → st.find (formatFatName (stringAt req.payload)) = none → st.HasRoom

section
variable {fmtValue : Value → List Char} {fuel : ℕ} {loc : Locals} {sv : Service} {st : Store}
  {target : List UInt8} {log : Option (List UInt8)} {req : OsMessage} {line : List UInt8} {pay : Buf}

/-- An append to another file. -/
theorem Filed.append (h : Filed st target log) {name : List UInt8} (hne : name ≠ target) (data : Buf)
    (length : ℕ) : Filed (st.append name data length) target log := by
  refine ⟨?_, Store.behind_append h.behind⟩
  have hfind := @Store.find_append_of_ne st target name data length hne
  cases log with
  | none => exact hfind.trans h.tells
  | some log =>
      obtain ⟨f, hf, hkeeps⟩ := h.tells
      exact ⟨f, hfind.trans hf, hkeeps⟩

/-- The receipts of a sync. -/
theorem Filed.receipts (h : Filed st target log) (hne : Service.ledgerName ≠ target)
    (receipts : List (List UInt8)) :
    Filed (receipts.foldl Service.keepReceipt st) target log := by
  induction receipts generalizing st with
  | nil => exact h
  | cons receipt receipts ih => exact ih ((h.append hne _ _).append hne _ _)

/-- A write. -/
theorem Filed.write (h : Filed st target log) {filename data : List UInt8} {buf : Buf}
    (hname : ProperName filename) (hlen : data.length ≤ 512) (hbuf : bytesAt buf 0 data.length = data)
    (hroom : st.find (formatFatName filename) = none → st.HasRoom) :
    Filed (st.write (formatFatName filename) buf data.length) target
      (if formatFatName filename = target then some (log.getD data) else log) := by
  have hok : st.Creates target (.write filename buf data.length) :=
    ⟨⟨hname, by omega⟩, fun heq hnone => ⟨hroom (Option.some.inj heq ▸ hnone), hlen⟩⟩
  have hstep := h.tells.step h.behind hok
  rw [FsRequest.note, hbuf] at hstep
  exact ⟨hstep, Store.behind_write h.behind⟩

/-- No execution writes a file. -/
theorem store_execute (fmtValue : Value → List Char) (fuel : ℕ) (source : List Char) (sv : Service) :
    (sv.execute fmtValue fuel source).2.store = sv.store := by
  cases hc : compile source with
  | ok ast =>
      rw [Service.execute_of_compile hc]
      rcases evaluate fuel seededEnv (eraseProofs ast) sv.net with ⟨_ | _ | _ | _, net⟩ <;> rfl
  | _ => rw [Service.execute_of_rejected (by simp [hc])]

variable (fmtValue loc)

/-- **A request** that writes no file. -/
theorem Filed.ofRequest (h : Filed sv.store target log) (hne : Service.ledgerName ≠ target)
    (ht : req.type ≠ .fsWriteReq) :
    Filed (sv.request fmtValue fuel loc req).2.store target log := by
  cases hr : req.type with
  | fsWriteReq => exact absurd hr ht
  | fsListReq => rwa [Service.request_list hr]
  | fsReadReq => rwa [Service.request_read hr]
  | atkExecReq =>
      rw [Service.request_exec hr]
      simp only
      rwa [store_execute]
  | watcherDumpReq => rwa [Service.request_dump hr]
  | watcherSyncReq =>
      rw [Service.request_sync hr]
      exact h.receipts hne _
  | _ =>
      rw [Service.request, hr]
      exact h

/-- **A write request** whose name and data are decoded. -/
theorem Filed.ofWrite (h : Filed sv.store target log) (ht : req.type = .fsWriteReq)
    {filename data : List UInt8} (hdec : Decodes req filename data) (hlen : data.length ≤ 512)
    (hok : sv.AdmitsRequest fuel req) (hroom : Roomy sv.store req) :
    Filed (sv.request fmtValue fuel loc req).2.store target
      (if formatFatName filename = target then some (log.getD data) else log) := by
  obtain ⟨hstring, hlength, hbytes⟩ := hdec
  rw [Service.AdmitsRequest, ht] at hok
  have hname : ProperName filename := hstring ▸ hok
  have hroom : sv.store.find (formatFatName filename) = none → sv.store.HasRoom :=
    hstring ▸ hroom ht
  rw [Service.request_write ht]
  simp only [hstring, hlength]
  exact h.write hname hlen hbytes hroom

/-- **A command line** writes what its transcript says. -/
theorem Filed.ofLine (h : Filed sv.store target log) (hne : Service.ledgerName ≠ target)
    (hline : command pay line = .request req) (hl : line.length ≤ 255) (h0 : (0 : UInt8) ∉ line)
    (hok : sv.AdmitsRequest fuel req) (hroom : Roomy sv.store req) :
    Filed (sv.request fmtValue fuel loc req).2.store target (written target log (.executed line)) := by
  by_cases ht : req.type = .fsWriteReq
  · obtain ⟨filename, data, hw, rfl⟩ := writeOf_of_command hline ht
    obtain ⟨hdec, hlen⟩ := @decodes_of_writeOf _ _ _ pay hw hl h0
    simp only [written, hw]
    exact h.ofWrite fmtValue loc ht hdec (hlen.trans (by omega)) hok hroom
  · simp only [written, writeOf_eq_none hline ht]
    exact h.ofRequest fmtValue loc hne ht

/-- A line of trades writes another file. -/
theorem Filed.ofTrade (h : Filed sv.store target log) (hne : formatFatName fileTrades ≠ target)
    (hok : sv.AdmitsRequest fuel (tradeRequest pay line))
    (hroom : Roomy sv.store (tradeRequest pay line)) :
    Filed (sv.request fmtValue fuel loc (tradeRequest pay line)).2.store target log := by
  have hlen : (line.take 242 ++ [10]).length ≤ 512 := by
    rw [List.length_append, List.length_take, List.length_singleton]
    omega
  have hwrite := h.ofWrite fmtValue loc rfl (decodes_tradeRequest pay line) hlen hok hroom
  rwa [if_neg hne] at hwrite

end

/-! ### Answers -/

/-- The text that a file with these bytes is read as. -/
def shownFile (log : Option (List UInt8)) : List UInt8 :=
  (log.map fun log => shownLog log 255).getD (fileNotFound.take 255)

/-- `letter` is what `line` has to show of the file `target` behind the transcript. -/
def RightAnswer (target : List UInt8) (log : Option (List UInt8)) (said : List Said)
    (line : List UInt8) (letter : Letter) : Prop :=
  ∀ filename, readOf line = some filename → formatFatName filename = target →
    letter.text = shownFile (filed target log said)

/-- All lines that read the file are answered so. -/
def Truthful (target : List UInt8) (log : Option (List UInt8)) (said : List Said) : Prop :=
  ∀ before line letter behind, said = before ++ .executed line :: .answered letter :: behind →
    RightAnswer target log before line letter

/-- The last of the transcript is no line that reads. -/
def NoneAsked (said : List Said) : Prop :=
  ∀ before line, said = before ++ [.executed line] → readOf line = none

section
variable {target : List UInt8} {log : Option (List UInt8)} {said : List Said}

theorem filed_append (more : List Said) :
    filed target log (said ++ more) = filed target (filed target log said) more := List.foldl_append

theorem truthful_nil : Truthful target log [] := by
  intro before line letter behind h
  simp at h

/-- One thing more is said. -/
theorem Truthful.concat (h : Truthful target log said) {x : Said}
    (hx : ∀ letter before line, x = .answered letter → said = before ++ [.executed line] →
      RightAnswer target log before line letter) : Truthful target log (said ++ [x]) := by
  intro before line letter behind heq
  rcases List.eq_nil_or_concat behind with rfl | ⟨behind, y, rfl⟩
  · have hsplit : said ++ [x] = (before ++ [.executed line]) ++ [.answered letter] := by simpa using heq
    obtain ⟨hsaid, hx'⟩ := List.append_inj' hsplit rfl
    exact hx letter before line (List.singleton_inj.1 hx') hsaid
  · have hsplit : said ++ [x] = (before ++ .executed line :: .answered letter :: behind) ++ [y] := by
      simpa using heq
    exact h before line letter behind (List.append_inj' hsplit rfl).1

theorem Truthful.typed (h : Truthful target log said) (c : UInt8) :
    Truthful target log (said ++ [.typed c]) := h.concat (by simp)

theorem Truthful.executed (h : Truthful target log said) (line : List UInt8) :
    Truthful target log (said ++ [.executed line]) := h.concat (by simp)

theorem noneAsked_of_ne {x : Said} (h : ∀ line, x ≠ .executed line) : NoneAsked (said ++ [x]) := by
  intro before line heq
  exact absurd (List.singleton_inj.1 (List.append_inj' heq rfl).2) (h line)

theorem noneAsked_executed {line : List UInt8} (h : readOf line = none) :
    NoneAsked (said ++ [.executed line]) := by
  intro before line' heq
  obtain rfl := Said.executed.inj (List.singleton_inj.1 (List.append_inj' heq rfl).2)
  exact h

end

/-! ### Dialogues -/

/-- A dialogue whose transcript is right so far. -/
structure Tells (target : List UInt8) (log : Option (List UInt8)) (said : List Said) (t : Dialogue) :
    Prop where
  truthful : Truthful target log said
  short : t.line.length ≤ 255
  phase : match t.phase with
    | .idle => Filed t.service.store target (filed target log said)
    | .listening => Filed t.service.store target (filed target log said) ∧ NoneAsked said
    | .asked req true => Filed t.service.store target (filed target log said) ∧ NoneAsked said ∧
        ∃ pay line, req = tradeRequest pay line
    | .asked req false => ∃ before line pay, said = before ++ [.executed line] ∧
        line.length ≤ 255 ∧ (0 : UInt8) ∉ line ∧ command pay line = .request req ∧
        Filed t.service.store target (filed target log before)
    | .owed letter _ => Filed t.service.store target (filed target log said) ∧
        ∀ before line, said = before ++ [.executed line] → RightAnswer target log before line letter

section
variable {fmtValue : Value → List Char} {target : List UInt8} {log : Option (List UInt8)}
  {said : List Said} {t : Dialogue}

theorem filed_typed (c : UInt8) : filed target log (said ++ [.typed c]) = filed target log said :=
  filed_append _

/-- A line that sends no request writes nothing. -/
theorem filed_executed {line : List UInt8} (h : writeOf line = none) :
    filed target log (said ++ [.executed line]) = filed target log said := by
  rw [filed_append]
  simp [filed, written, h]

/-- A command that sends nothing is no read and no write. -/
theorem of_no_request (pay : Buf) {line : List UInt8} (h : ∀ req, command pay line ≠ .request req) :
    readOf line = none ∧ writeOf line = none := by
  constructor
  · cases hr : readOf line with
    | none => rfl
    | some args => exact absurd (command_of_readOf hr) (h _)
  · cases hw : writeOf line with
    | none => rfl
    | some p => exact absurd (command_of_writeOf hw) (h _)

/-- **The end of a line.** -/
theorem Tells.enter (pay : Buf) (h : Tells target log said t) (hidle : t.phase = .idle) :
    Tells target log (said ++ (t.enter pay).1) (t.enter pay).2 := by
  have hfiled := h.phase
  rw [hidle] at hfiled
  unfold Dialogue.enter
  split_ifs with hnil
  · rwa [List.append_nil]
  · have hsub := t.line.takeWhile_sublist (· ≠ 0)
    have hl : (t.line.takeWhile (· ≠ 0)).length ≤ 255 := hsub.length_le.trans h.short
    have h0 : (0 : UInt8) ∉ t.line.takeWhile (· ≠ 0) := by
      intro hmem
      simpa using List.mem_takeWhile_imp hmem
    refine ⟨h.truthful.executed _, Nat.zero_le _, ?_⟩
    simp only
    cases hc : command pay (t.line.takeWhile (· ≠ 0)) with
    | request req => exact ⟨said, _, pay, rfl, hl, h0, hc, hfiled⟩
    | listen =>
        obtain ⟨hread, hwrite⟩ := of_no_request pay fun req heq => by rw [hc] at heq; cases heq
        simp only [Dialogue.phaseOf]
        rw [filed_executed hwrite]
        exact ⟨hfiled, noneAsked_executed hread⟩
    | print =>
        obtain ⟨-, hwrite⟩ := of_no_request pay fun req heq => by rw [hc] at heq; cases heq
        simp only [Dialogue.phaseOf]
        rwa [filed_executed hwrite]

/-- **A character.** -/
theorem Tells.key {pay : Buf} {c : UInt8} (h : Tells target log said t) (hidle : t.phase = .idle) :
    Tells target log (said ++ (t.key pay c).1) (t.key pay c).2 := by
  have hfiled := h.phase
  rw [hidle] at hfiled
  have htyped : Tells target log (said ++ [.typed c]) t := by
    refine ⟨h.truthful.typed c, h.short, ?_⟩
    rw [hidle]
    simp only
    rwa [filed_typed]
  unfold Dialogue.key
  split_ifs with hnl hbs hfull
  · have henter := htyped.enter pay hidle
    rwa [List.append_assoc] at henter
  all_goals
    refine ⟨htyped.truthful, ?_, htyped.phase⟩
    have hshort := h.short
    simp only [cmdMaxLen] at *
    grind

/-- The answer to a read is right. -/
theorem Filed.answer {sv sv' : Service} {loc : Locals} {fuel : ℕ} {req : OsMessage}
    {line filename : List UInt8} {pay : Buf} {letter : Letter}
    (h : Filed sv.store target log) (hl : line.length ≤ 255) (h0 : (0 : UInt8) ∉ line)
    (hline : command pay line = .request req) (hread : readOf line = some filename)
    (hname : formatFatName filename = target)
    (hr : sv.request fmtValue fuel loc req = (some letter, sv')) : letter.text = shownFile log := by
  obtain rfl := Action.request.inj (hline.symm.trans (command_of_readOf hread))
  obtain ⟨before, rfl⟩ := readOf_sub hread
  have hstring : stringAt (readRequest pay filename).payload = filename := by
    refine stringAt_nameRequest .fsReadReq (fun hmem => h0 (List.mem_append_right _ hmem)) ?_
    rw [List.length_append] at hl
    omega
  rw [Service.request_read rfl, hstring, hname] at hr
  obtain rfl := Option.some.inj (congrArg Prod.fst hr)
  exact h.tells.read_eq (by omega)

/-- **The service is asked.** -/
theorem Tells.serve {loc : Locals} {fuel : ℕ} {req : OsMessage} {listening : Bool}
    (h : Tells target log said t) (hledger : Service.ledgerName ≠ target)
    (htrades : formatFatName fileTrades ≠ target) (hasked : t.phase = .asked req listening)
    (hok : t.Admits Roomy (.serve loc fuel)) :
    Tells target log (said ++ (Dialogue.step fmtValue t (.serve loc fuel)).1)
      (Dialogue.step fmtValue t (.serve loc fuel)).2 := by
  obtain ⟨hadm, hroom⟩ := hok req listening hasked
  have hphase := h.phase
  rw [hasked] at hphase
  simp only [Dialogue.step, hasked]
  rcases hr : t.service.request fmtValue fuel loc req with ⟨_ | letter, service⟩
  · rwa [List.append_nil]
  · rw [List.append_nil]
    refine ⟨h.truthful, h.short, ?_⟩
    cases listening with
    | true =>
        obtain ⟨hfiled, hnone, pay, line, rfl⟩ := hphase
        have htrade := hfiled.ofTrade fmtValue loc htrades hadm hroom
        rw [hr] at htrade
        refine ⟨htrade, fun before line hsaid filename hread _ => ?_⟩
        rw [hnone before line hsaid] at hread
        cases hread
    | false =>
        obtain ⟨before, line, pay, rfl, hl, h0, hc, hfiled⟩ := hphase
        have hcommand := hfiled.ofLine fmtValue loc hledger hc hl h0 hadm hroom
        rw [hr] at hcommand
        refine ⟨?_, fun before' line' hsaid filename hread hname => ?_⟩
        · rw [filed_append]
          exact hcommand
        · obtain ⟨hbefore, hline⟩ := List.append_inj' hsaid rfl
          obtain rfl := Said.executed.inj (List.singleton_inj.1 hline)
          subst hbefore
          exact hfiled.answer hl h0 hc hread hname hr

/-- **The answer comes.** -/
theorem Tells.come {letter : Letter} {listening : Bool} (h : Tells target log said t)
    (howed : t.phase = .owed letter listening) :
    Tells target log (said ++ (Dialogue.step fmtValue t .come).1) (Dialogue.step fmtValue t .come).2 := by
  have hphase := h.phase
  rw [howed] at hphase
  obtain ⟨hfiled, hright⟩ := hphase
  have hsaid : filed target log (said ++ [.answered letter]) = filed target log said := filed_append _
  simp only [Dialogue.step, howed]
  refine ⟨h.truthful.concat fun letter' before line hx hsaid => ?_, h.short, ?_⟩
  · obtain rfl := Said.answered.inj hx
    exact hright before line hsaid
  · cases listening with
    | true => exact ⟨hsaid.symm ▸ hfiled, noneAsked_of_ne (by simp)⟩
    | false => exact hsaid.symm ▸ hfiled

/-- **Every move keeps the transcript right.** -/
theorem Tells.step (hledger : Service.ledgerName ≠ target)
    (htrades : formatFatName fileTrades ≠ target) (said : List Said) (t : Dialogue) (m : Move)
    (h : Tells target log said t) (hok : t.Admits Roomy m) :
    Tells target log (said ++ (Dialogue.step fmtValue t m).1) (Dialogue.step fmtValue t m).2 := by
  have hstay : Tells target log (said ++ []) t := by rwa [List.append_nil]
  cases hp : t.phase with
  | idle =>
      cases m with
      | key c pay =>
          simp only [Dialogue.step, hp]
          exact h.key hp
      | _ => simpa only [Dialogue.step, hp] using hstay
  | asked req listening =>
      cases m with
      | serve loc fuel => exact h.serve hledger htrades hp hok
      | _ => simpa only [Dialogue.step, hp] using hstay
  | owed letter listening =>
      cases m with
      | come => exact h.come hp
      | _ => simpa only [Dialogue.step, hp] using hstay
  | listening =>
      cases m with
      | capture pay line =>
          have hphase := h.phase
          rw [hp] at hphase
          simp only [Dialogue.step, hp]
          rw [List.append_nil]
          exact ⟨h.truthful, h.short, hphase.1, hphase.2, pay, line, rfl⟩
      | _ => simpa only [Dialogue.step, hp] using hstay

end

/-! ### Turns -/

/-- An answer of the kernel to the shell. -/
def kernelAnswer (type : IpcMsg) (text : List UInt8) : Said :=
  .answered ⟨sysModKernel, sysModGuiShell, type, text.length + 1, text⟩

section
variable {fmtValue : Value → List Char} {sv : Service} {t : Turn} {target : List UInt8}
  {log : Option (List UInt8)} {filename data : List UInt8}

/-- **A line that writes** is typed, executed and acknowledged. -/
theorem Filed.writes (h : Filed sv.store target log) (ht : t.Typed) (hok : Typeable t.line)
    (hline : writeOf t.line = some (filename, data)) (hname : ProperName filename)
    (hroom : sv.store.find (formatFatName filename) = none → sv.store.HasRoom) :
    t.Comes Roomy sv ∧ ∃ sv', t.said fmtValue sv =
        (saidTyping t.line ++ [kernelAnswer .fsWriteResp writeCommitted], sv') ∧
      Filed sv'.store target (if formatFatName filename = target then some (log.getD data) else log) := by
  have h0 : (0 : UInt8) ∉ t.line := fun hmem => hok.plain 0 hmem (by simp)
  have hlen : t.line.length ≤ 255 := hok.short.trans (by omega)
  obtain ⟨hdec, hdata⟩ := @decodes_of_writeOf _ _ _ t.enter.pay hline hlen h0
  have haction : t.action = .request (writeRequest t.enter.pay filename data) :=
    command_of_writeOf hline
  have hadm : sv.AdmitsRequest t.serve.fuel (writeRequest t.enter.pay filename data) := by
    change ProperName (stringAt _)
    rwa [hdec.1]
  have hroomy : Roomy sv.store (writeRequest t.enter.pay filename data) := by
    intro _ hnone
    rw [hdec.1] at hnone
    exact hroom hnone
  have hreq := @Service.request_write fmtValue t.serve.fuel t.serve.loc
    (writeRequest t.enter.pay filename data) sv rfl
  have hfiled := h.ofWrite fmtValue t.serve.loc rfl hdec (hdata.trans (by omega)) hadm hroomy
  rw [hreq] at hfiled
  refine ⟨⟨hok, ht.types, ?_⟩, _, ?_, hfiled⟩
  · rw [haction]
    exact ⟨ht.quiet, ht.fuel, hadm, hroomy⟩
  · simp only [Turn.said, haction, hreq]
    rfl

/-- **A line that reads** the file is typed, executed and answered with what the file has. -/
theorem Filed.reads (h : Filed sv.store target log) (ht : t.Typed) (hok : Typeable t.line)
    (hline : readOf t.line = some filename) (hname : ProperName filename)
    (htarget : formatFatName filename = target) :
    t.Comes Roomy sv ∧ ∃ sv', t.said fmtValue sv =
        (saidTyping t.line ++ [kernelAnswer .fsReadResp (shownFile log)], sv') ∧
      sv'.store = sv.store := by
  have hlen : filename.length ≤ 255 := by
    obtain ⟨before, hsub⟩ := readOf_sub hline
    have hshort := hok.short
    rw [hsub, List.length_append] at hshort
    omega
  have hstring : stringAt (readRequest t.enter.pay filename).payload = filename :=
    stringAt_nameRequest .fsReadReq hname.nul hlen
  have haction : t.action = .request (readRequest t.enter.pay filename) := command_of_readOf hline
  have hadm : sv.AdmitsRequest t.serve.fuel (readRequest t.enter.pay filename) := by
    change ProperName (stringAt _) ∧ ¬ sv.store.Foreign (formatFatName (stringAt _))
    rw [hstring, htarget]
    exact ⟨hname, h.tells.not_foreign⟩
  have hreq := @Service.request_read fmtValue t.serve.fuel t.serve.loc
    (readRequest t.enter.pay filename) sv rfl
  rw [hstring, htarget, h.tells.read_eq (by omega)] at hreq
  refine ⟨⟨hok, ht.types, ?_⟩, sv.logged .fsRead sysModGuiShell
    (text (readRequest t.enter.pay filename).payload 63), ?_, rfl⟩
  · rw [haction]
    exact ⟨ht.quiet, ht.fuel, hadm, fun heq => absurd heq (by simp [readRequest, nameRequest, requestOf])⟩
  · simp only [Turn.said, haction, hreq]
    rfl

end

/-! ### The shell -/

/-- **What is typed is what is read.**  On a volume in order without deleted entries, with a device
that does not fail and a timer that does not read zero, take a file `target` that is neither the
ledger nor the trades, and what the volume has under this name.  Whatever else is typed, listed,
executed or captured in a run of the shell whose requests are admitted and find room, each line that
reads the name is answered with the data of the first line before it that wrote the name, or with
what the volume had. -/
theorem typed_file_read (fmtValue : Value → List Char) {kernel : KernelState} {count : ℕ}
    {root : List ℕ} (h : kernel.fs.Orderly count root)
    (hkept : ∀ i < 16, kernel.fs.rootDir (32 * i) ≠ 0xE5) {w : WatcherState}
    (hw : kernel.watcher = watcherInit w) (hticks : ∀ n, kernel.timer n ≠ 0) {target : List UInt8}
    (hledger : Service.ledgerName ≠ target) (htrades : formatFatName fileTrades ≠ target)
    {log : Option (List UInt8)} (hlog : kernel.fs.asStore.Tells target log) (inputs : List Input)
    (hok : StepsMeet (shellStep fmtValue) (Admitted Roomy) (shellStart kernel) inputs) :
    Truthful target log (run (shellStep fmtValue) (shellStart kernel) inputs).said := by
  obtain ⟨moves, hadm, hsaid, -⟩ := shell_dialogue fmtValue Roomy h hw hticks inputs hok
  have hstart : Tells target log [] (.start (service kernel)) :=
    ⟨truthful_nil, Nat.zero_le _, hlog, behind_of_kept h hkept⟩
  have hrun := answers_invariant (Tells.step hledger htrades) hstart hadm
  rw [hsaid]
  exact hrun.truthful

/-- A turn for a line. -/
def turnOf (line : String) (h : ∀ c ∈ ascii line ++ [10], c ≠ 0) : Turn := .atOnce 1 (ascii line) h

/-- `B` is read, written twice, and read again. -/
def readAndWritten : List Turn :=
  [turnOf "s.read B" (forall_mem_of_all (by decide)), turnOf "s.write B yo" (forall_mem_of_all (by decide)),
    turnOf "s.write B no" (forall_mem_of_all (by decide)), turnOf "s.read B" (forall_mem_of_all (by decide))]

/-- What is said to these lines. -/
def readAndWrittenSaid : List Said :=
  saidTyping (ascii "s.read B") ++ [kernelAnswer .fsReadResp (ascii "File not found.\n")] ++
    (saidTyping (ascii "s.write B yo") ++ [kernelAnswer .fsWriteResp writeCommitted]) ++
    (saidTyping (ascii "s.write B no") ++ [kernelAnswer .fsWriteResp writeCommitted]) ++
    (saidTyping (ascii "s.read B") ++ [kernelAnswer .fsReadResp (ascii "yo")])

theorem readAndWritten_said {sv : Service} (h : Filed sv.store (formatFatName (ascii "B")) none)
    (hroom : sv.store.HasRoom) :
    StepsMeet (next (Turn.said fun _ => [])) (Turn.Comes Roomy) sv readAndWritten ∧
      (answers (Turn.said fun _ => []) sv readAndWritten).flatten = readAndWrittenSaid := by
  have hread {sv : Service} {log : Option (List UInt8)}
      (h : Filed sv.store (formatFatName (ascii "B")) log) :=
    @Filed.reads (fun _ => []) sv (turnOf "s.read B" (forall_mem_of_all (by decide))) _ log (ascii "B") h
      (Turn.typed_atOnce _ Nat.one_pos ⟨by decide, by decide, forall_mem_of_all (by decide)⟩)
      ⟨by decide, by decide, forall_mem_of_all (by decide)⟩ (by decide) (by decide) rfl
  obtain ⟨hc₁, sv₁, hs₁, hstore₁⟩ := hread h
  obtain ⟨hc₂, sv₂, hs₂, h₂⟩ := @Filed.writes (fun _ => []) sv₁
    (turnOf "s.write B yo" (forall_mem_of_all (by decide))) _ _ (ascii "B") (ascii "yo")
    (hstore₁.symm ▸ h) (Turn.typed_atOnce _ Nat.one_pos ⟨by decide, by decide, forall_mem_of_all (by decide)⟩)
    ⟨by decide, by decide, forall_mem_of_all (by decide)⟩ (by decide) (by decide) (fun _ => hstore₁.symm ▸ hroom)
  rw [if_pos rfl] at h₂
  obtain ⟨hc₃, sv₃, hs₃, h₃⟩ := @Filed.writes (fun _ => []) sv₂
    (turnOf "s.write B no" (forall_mem_of_all (by decide))) _ _ (ascii "B") (ascii "no")
    h₂ (Turn.typed_atOnce _ Nat.one_pos ⟨by decide, by decide, forall_mem_of_all (by decide)⟩)
    ⟨by decide, by decide, forall_mem_of_all (by decide)⟩ (by decide) (by decide) fun hnone => by
      obtain ⟨f, hf, -⟩ := h₂.tells
      rw [hf] at hnone
      cases hnone
  rw [if_pos rfl] at h₃
  obtain ⟨hc₄, sv₄, hs₄, -⟩ := hread h₃
  simp only [readAndWritten, stepsMeet_cons, answers_cons, next, hs₁, hs₂, hs₃, hs₄]
  exact ⟨⟨hc₁, hc₂, hc₃, hc₄, trivial⟩, rfl⟩

theorem first_write_read :
    let said := (run (shellStep fun _ => [])
      (shellStart (kernelOn (oneFileVolume (ascii "A") (ascii "hi")))) (readAndWritten.flatMap Turn.inputs)).said
    Truthful (formatFatName (ascii "B")) none said ∧ said = readAndWrittenSaid := by
  have hvolume : (oneFileVolume (ascii "A") (ascii "hi")).Consistent 126 [2] :=
    oneFileVolume_consistent (by decide)
  have horderly : (kernelOn (oneFileVolume (ascii "A") (ascii "hi"))).fs.Orderly 126 [2] :=
    hvolume.orderly fun _ => rfl
  have hticks (n : ℕ) : (kernelOn (oneFileVolume (ascii "A") (ascii "hi"))).timer n ≠ 0 :=
    (by decide : (1 : UInt64) ≠ 0)
  have hkept : ∀ i < 16, (oneFileVolume (ascii "A") (ascii "hi")).rootDir (32 * i) ≠ 0xE5 := by
    decide +kernel
  have hnone : (oneFileVolume (ascii "A") (ascii "hi")).asStore.Tells (formatFatName (ascii "B"))
      none := Option.isNone_iff_eq_none.1 (by decide +kernel)
  have hroom : (oneFileVolume (ascii "A") (ascii "hi")).asStore.HasRoom := by
    unfold Store.HasRoom
    decide +kernel
  obtain ⟨hok, hsaid⟩ := @readAndWritten_said
    (service (kernelOn (oneFileVolume (ascii "A") (ascii "hi")))) ⟨hnone, behind_of_kept horderly hkept⟩ hroom
  have hleads := script_answered (fun _ => []) (prompt_start horderly rfl hticks) readAndWritten hok
  have htruthful := typed_file_read (fun _ => []) horderly hkept rfl hticks (by decide) (by decide) hnone
    (readAndWritten.flatMap Turn.inputs) hleads.admitted
  exact ⟨htruthful, hleads.said.trans hsaid⟩

end Shell
end AiOsExchange
