/-
# The whitelist of the agent

`phase9_daemon.py` asks a language model for the next command, keeps the lines of its answer that are
of an allowed form, and types the one it has chosen.  The filter's lines end at `'\n'`.  The shell's
also end at `'\r'`, are edited by `'\b'` and have at most 255 characters, so what it executes is
the command exactly if the command has nothing of these (`agent_obeyed_iff`).

| source | here |
| --- | --- |
| `str.strip`, `str.replace`, `str.split` | `pyStrip`, `pyReplace`, `pySplit` |
| `query_local_llm`, behind the request | `queryLocalLlm` of the response |
| `inject_command` | `injectCommand`, the characters it writes |

The pipe takes the text as UTF-8 to the UART.  A NUL ends a drain and is no character.
-/

import AiOsExchange.Shell.Editing

namespace AiOsExchange
namespace Daemon

open CMemory Autarky Kernel Runs Shell

/-! ### Strings of Python -/

/-- `str.isspace` of a character. -/
def isSpace (c : Char) : Bool :=
  (9 ≤ c.toNat && c.toNat ≤ 13) || (0x1C ≤ c.toNat && c.toNat ≤ 0x20) || c.toNat == 0x85 ||
    c.toNat == 0xA0 || c.toNat == 0x1680 || (0x2000 ≤ c.toNat && c.toNat ≤ 0x200A) ||
    c.toNat == 0x2028 || c.toNat == 0x2029 || c.toNat == 0x202F || c.toNat == 0x205F ||
    c.toNat == 0x3000

/-- `s.strip()`. -/
def pyStrip (s : Word) : Word := ((s.dropWhile isSpace).reverse.dropWhile isSpace).reverse

/-- `s.split(sep)`. -/
def pySplit (sep : Char) : Word → List Word
  | [] => [[]]
  | c :: s =>
      if c = sep then [] :: pySplit sep s
      else
        match pySplit sep s with
        | [] => [[c]]
        | line :: lines => (c :: line) :: lines

/-- `s.replace(old, new)`, with `skip` characters of an occurrence still to pass. -/
def replaceFrom (old new : Word) : ℕ → Word → Word
  | _, [] => []
  | skip + 1, _ :: s => replaceFrom old new skip s
  | 0, c :: s =>
      if old.isPrefixOf (c :: s) then new ++ replaceFrom old new (old.length - 1) s
      else c :: replaceFrom old new 0 s

def pyReplace (old new s : Word) : Word := replaceFrom old new 0 s

/-- `s.startswith(form)`. -/
def startsWith (s : Word) (form : String) : Bool := form.toList.isPrefixOf s

/-! ### The daemon -/

/-- The line as it is tested. -/
def cleanLine (line : Word) : Word :=
  pyStrip (pyReplace "bash".toList [] (pyReplace "```".toList [] (pyStrip line)))

/-- The allowed forms. -/
def accepts (line : Word) : Bool :=
  line = "clear".toList || line = "s.list".toList || startsWith line "s.write MARKET" ||
    startsWith line "atk.run MARKET" || startsWith line "s.read MARKET"

/-- The loop of `query_local_llm` over the lines. -/
def chooseCommand : Option Word → List Word → Option Word
  | cleanCmd, [] => cleanCmd
  | cleanCmd, line :: lines =>
      if accepts (cleanLine line) then
        if startsWith (cleanLine line) "s.write" || startsWith (cleanLine line) "atk.run" then
          some (cleanLine line)
        else chooseCommand (some (cleanLine line)) lines
      else chooseCommand cleanCmd lines

/-- `query_local_llm`: the command, of the text that the model returns. -/
def queryLocalLlm (response : Word) : Option Word :=
  chooseCommand none (pySplit '\n' (pyStrip response))

/-- `full_key`. -/
def fullKey : Word := "#SIG:ATK_COMPILER_V1_8f9b2c".toList

/-- The command with `$KEY` expanded. -/
def expandKey (cmd : Word) : Word := pyReplace "$KEY".toList fullKey cmd

/-- `inject_command`: the characters it writes. -/
def injectCommand (cmd : Word) : Word := expandKey cmd ++ ['\n']

/-- A text as its bytes. -/
def utf8 (s : Word) : List UInt8 := s.flatMap String.utf8EncodeChar

/-- The key presses that the drains make of bytes on the UART. -/
def drained (bytes : List UInt8) : List UInt8 := (bytes.filter (· ≠ 0)).map uartChar

/-- The line has one of the allowed forms. -/
def AllowedForm (line : List UInt8) : Prop :=
  line = ascii "clear" ∨ line = ascii "s.list" ∨ ascii "s.write MARKET" <+: line ∨
    ascii "atk.run MARKET" <+: line ∨ ascii "s.read MARKET" <+: line

/-- **The command is obeyed**: in every run in which the line editor has acted on the key presses it
is typed with, or the first of them, each line executed is the command. -/
def Obeyed (fmtValue : Value → List Char) (s : ShellState) (cmd : Word) : Prop :=
  ∀ inputs, typedOf (run (shellStep fmtValue) s inputs).log <+: drained (utf8 (injectCommand cmd)) →
    ∀ line ∈ executedOf (run (shellStep fmtValue) s inputs).log,
      line = utf8 (expandKey cmd) ∧ AllowedForm line

/-- A line that the editor leaves alone. -/
def Plain (line : List UInt8) : Prop := line.length ≤ 255 ∧ ∀ b ∈ line, b ≠ 0 ∧ b ≠ 8 ∧ b ≠ 13

instance (line : List UInt8) : Decidable (Plain line) := inferInstanceAs (Decidable (_ ∧ _))

/-! ### Accepted commands -/

section
variable {c : Char} {s line cmd old new : Word}

theorem mem_pyStrip (h : c ∈ pyStrip s) : c ∈ s := by
  have h1 := (List.dropWhile_sublist _).mem (List.mem_reverse.1 h)
  exact (List.dropWhile_sublist _).mem (List.mem_reverse.1 h1)

theorem mem_replaceFrom {skip : ℕ} (h : c ∈ replaceFrom old new skip s) : c ∈ s ∨ c ∈ new := by
  induction s generalizing skip with
  | nil => exact .inl h
  | cons d s ih =>
      cases skip with
      | succ skip => exact (ih h).imp_left (List.mem_cons_of_mem _)
      | zero =>
          rw [replaceFrom] at h
          split_ifs at h
          · rcases List.mem_append.1 h with h | h
            · exact .inr h
            · exact (ih h).imp_left (List.mem_cons_of_mem _)
          · rcases List.mem_cons.1 h with rfl | h
            · exact .inl List.mem_cons_self
            · exact (ih h).imp_left (List.mem_cons_of_mem _)

theorem mem_cleanLine (h : c ∈ cleanLine line) : c ∈ line := by
  rcases mem_replaceFrom (mem_pyStrip h) with h | h
  · rcases mem_replaceFrom h with h | h
    · exact mem_pyStrip h
    · cases h
  · cases h

/-- The lines of a text do not have the separator. -/
theorem not_mem_pySplit (sep : Char) (s : Word) : ∀ line ∈ pySplit sep s, sep ∉ line := by
  induction s with
  | nil => simp [pySplit]
  | cons c s ih =>
      rw [pySplit]
      split_ifs with hc
      · exact List.forall_mem_cons.2 ⟨List.not_mem_nil, ih⟩
      · have hc' := Ne.symm hc
        split
        · simpa using hc'
        · rename_i line lines hsplit
          rw [hsplit, List.forall_mem_cons] at ih
          refine List.forall_mem_cons.2 ⟨fun h => ?_, ih.2⟩
          rcases List.mem_cons.1 h with h | h
          · exact hc' h
          · exact ih.1 h

/-- **An accepted command** has an allowed form and is one line. -/
theorem accepts_of_query {response : Word} (h : queryLocalLlm response = some cmd) :
    accepts cmd = true ∧ '\n' ∉ cmd := by
  have hchoose (lines : List Word) (cleanCmd : Option Word)
      (hlines : ∀ line ∈ lines, '\n' ∉ line)
      (hclean : ∀ line ∈ cleanCmd, accepts line = true ∧ '\n' ∉ line)
      (h : chooseCommand cleanCmd lines = some cmd) : accepts cmd = true ∧ '\n' ∉ cmd := by
    induction lines generalizing cleanCmd with
    | nil => exact hclean cmd h
    | cons line lines ih =>
        obtain ⟨hline, hrest⟩ := List.forall_mem_cons.1 hlines
        rw [chooseCommand] at h
        split_ifs at h with hacc hlast
        · obtain rfl := Option.some.inj h
          exact ⟨hacc, fun hn => hline (mem_cleanLine hn)⟩
        · refine ih _ hrest (fun line' hl => ?_) h
          obtain rfl := Option.some.inj hl
          exact ⟨hacc, fun hn => hline (mem_cleanLine hn)⟩
        · exact ih _ hrest hclean h
  exact hchoose _ none (not_mem_pySplit '\n' _) nofun h

/-- What is before the first `$` stays. -/
theorem prefix_expandKey {form : Word} (hform : '$' ∉ form) (h : form <+: s) :
    form <+: expandKey s := by
  obtain ⟨rest, rfl⟩ := h
  refine ⟨expandKey rest, ?_⟩
  induction form with
  | nil => rfl
  | cons c form ih =>
      rw [List.mem_cons, not_or] at hform
      have hkey : "$KEY".toList.isPrefixOf (c :: (form ++ rest)) = false := by
        have hne : ('$' == c) = false := beq_false_of_ne hform.1
        exact congrArg (· && _) hne
      rw [List.cons_append, ih hform.2]
      simp only [expandKey, pyReplace, List.cons_append, replaceFrom, hkey, Bool.false_eq_true,
        if_false]

theorem utf8_append (s s' : Word) : utf8 (s ++ s') = utf8 s ++ utf8 s' := List.flatMap_append

/-- **What is typed for an accepted command has an allowed form.** -/
theorem allowedForm_of_accepts (h : accepts cmd = true) : AllowedForm (utf8 (expandKey cmd)) := by
  have hstarts (form : String) (hform : '$' ∉ form.toList) (h : startsWith cmd form = true) :
      utf8 form.toList <+: utf8 (expandKey cmd) := by
    obtain ⟨rest, hrest⟩ := prefix_expandKey hform (List.isPrefixOf_iff_prefix.1 h)
    exact ⟨utf8 rest, by rw [← utf8_append, hrest]⟩
  simp only [accepts, Bool.or_eq_true, decide_eq_true_eq] at h
  rcases h with (((rfl | rfl) | h) | h) | h
  · exact .inl (by decide)
  · exact .inr (.inl (by decide))
  · exact .inr (.inr (.inl (hstarts _ (by decide) h)))
  · exact .inr (.inr (.inr (.inl (hstarts _ (by decide) h))))
  · exact .inr (.inr (.inr (.inr (hstarts _ (by decide) h))))

end

/-! ### Key presses -/

/-- A byte below 128 is a character of its own. -/
theorem toNat_of_mem_utf8EncodeChar {c : Char} {b : UInt8} (h : b ∈ String.utf8EncodeChar c)
    (hb : b.toNat < 128) : b.toNat = c.toNat := by
  unfold String.utf8EncodeChar at h
  simp only at h
  have hval : c.val.toNat = c.toNat := rfl
  split_ifs at h <;> simp only [List.mem_cons, List.not_mem_nil, or_false] at h
  · rw [h, UInt8.toNat_ofNat', hval]
    omega
  · rcases h with h | h <;> rw [h, UInt8.toNat_ofNat'] at hb <;> omega
  · rcases h with h | h | h <;> rw [h, UInt8.toNat_ofNat'] at hb <;> omega
  · rcases h with h | h | h | h <;> rw [h, UInt8.toNat_ofNat'] at hb <;> omega

theorem newline_not_mem_utf8 {s : Word} (h : '\n' ∉ s) : 10 ∉ utf8 s := by
  intro hmem
  obtain ⟨c, hc, hb⟩ := List.mem_flatMap.1 hmem
  have hc10 : c.toNat = 10 := (toNat_of_mem_utf8EncodeChar hb (by decide)).symm
  have hnl : c = '\n' := Char.toNat_inj.1 hc10
  exact h (hnl ▸ hc)

theorem utf8_injectCommand (cmd : Word) : utf8 (injectCommand cmd) = utf8 (expandKey cmd) ++ [10] :=
  utf8_append _ _

/-- A plain line is drained, edited and executed as it is. -/
theorem edited_of_plain {line : List UInt8} (h : Plain line) (h10 : 10 ∉ line) (hne : line ≠ []) :
    (edited (drained (line ++ [10]))).1 = [line] := by
  have hfilter : (line ++ [10]).filter (· ≠ 0) = line ++ [10] := by
    refine List.filter_eq_self.2 fun b hb => ?_
    rcases List.mem_append.1 hb with hb | hb
    · simpa using (h.2 b hb).1
    · rw [List.mem_singleton.1 hb]
      rfl
  have hmap : (line ++ [10]).map uartChar = line ++ [10] := by
    have hline : line.map uartChar = line := by
      refine (List.map_congr_left fun b hb => ?_).trans line.map_id
      rw [uartChar, if_neg (h.2 b hb).2.2, id]
    rw [List.map_append, hline]
    rfl
  have hedit := edited_plain h.1 fun b hb =>
    ⟨(h.2 b hb).2.1, fun hb10 => h10 (hb10 ▸ hb), (h.2 b hb).2.2⟩
  rw [drained, hfilter, hmap, edited_concat, hedit, editStep, if_pos (.inl rfl), if_neg hne]
  rfl

theorem drained_ne_zero {bytes : List UInt8} : ∀ b ∈ drained bytes, b ≠ 0 := by
  intro b hb
  obtain ⟨b', hb', rfl⟩ := List.mem_map.1 hb
  exact uartChar_ne_zero (by simpa using (List.mem_filter.1 hb').2)

/-- **The agent's commands are obeyed** if they are plain with the key expanded, or if backspaces
erase every line that is typed, and not otherwise. -/
theorem agent_obeyed_iff (fmtValue : Value → List Char) (s : ShellState) (hs : Idle s)
    (response cmd : Word) (h : queryLocalLlm response = some cmd) :
    Obeyed fmtValue s cmd ↔
      Plain (utf8 (expandKey cmd)) ∨ (edited (drained (utf8 (injectCommand cmd)))).1 = [] := by
  obtain ⟨hacc, hnl⟩ := accepts_of_query h
  have hallowed := allowedForm_of_accepts hacc
  constructor
  · intro hobeyed
    refine or_iff_not_imp_right.2 fun hsome => ?_
    -- the first line executed when the key presses come one by one
    obtain ⟨pre, c, line, hpre, hnone, hone⟩ := exists_first_line hsome
    have hchars := List.prefix_iff_eq_take.1 hpre
    rw [drained, ← List.map_take] at hchars
    have hzero : ∀ b ∈ pre ++ [c], b ≠ 0 := fun b hb => drained_ne_zero b (hpre.subset hb)
    obtain ⟨inputs, htyped, -⟩ := @exists_typing fmtValue s hs
      (((utf8 (injectCommand cmd)).filter (· ≠ 0)).take (pre ++ [c]).length)
      (fun b hb => by simpa using (List.mem_filter.1 (List.mem_of_mem_take hb)).2)
      (fun pre' c' hpre' => by
        have hmap := hpre'.map uartChar
        rw [← hchars, List.map_append] at hmap
        have hshort : pre'.map uartChar <+: pre :=
          (List.prefix_concat_iff.1 ((List.prefix_append ..).trans hmap)).resolve_left fun heq => by
            have hlen := congrArg List.length heq
            have hlen' := hmap.length_le
            rw [List.length_append] at hlen'
            simp only [List.length_map, List.length_append, List.length_singleton] at hlen hlen'
            omega
        obtain ⟨more, rfl⟩ := hshort
        exact List.prefix_nil.1 (hnone ▸ edited_append_lines _ more))
    rw [← hchars] at htyped
    have hexec := (@edits_run fmtValue s hs.edits inputs (by rw [htyped]; exact hzero)).executed
    rw [htyped, hone] at hexec
    obtain ⟨rfl, -⟩ := hobeyed inputs (by rw [htyped]; exact hpre) line
      (by rw [hexec]; exact List.mem_cons_self)
    obtain ⟨hlen, hmem⟩ := (editable_edited (pre ++ [c])).1 _ (by rw [hone]; exact List.mem_cons_self)
    exact ⟨hlen, fun b hb => ⟨hzero b (hmem b hb).1, (hmem b hb).2.1, (hmem b hb).2.2.2⟩⟩
  · intro hcond inputs htyped line hline
    have hexec := (@edits_run fmtValue s hs.edits inputs fun b hb =>
      drained_ne_zero b (htyped.subset hb)).executed
    obtain ⟨more, hmore⟩ := htyped
    rw [hexec] at hline
    have hall := (edited_append_lines _ more).subset hline
    rw [hmore] at hall
    rcases hcond with hplain | hnone
    · have hne : utf8 (expandKey cmd) ≠ [] := by
        intro hnil
        rw [hnil, AllowedForm] at hallowed
        revert hallowed
        simp [List.prefix_nil, ascii]
      have h10 : 10 ∉ utf8 (expandKey cmd) := by
        refine newline_not_mem_utf8 fun hn => ?_
        rcases mem_replaceFrom hn with hn | hn
        · exact hnl hn
        · revert hn
          decide
      rw [utf8_injectCommand, edited_of_plain hplain h10 hne] at hall
      rw [List.mem_singleton.1 hall]
      exact ⟨rfl, hallowed⟩
    · rw [hnone] at hall
      cases hall

/-- A signed write, in an answer with other lines. -/
def signedAnswer : Word := "Run:\n```bash\ns.write MARKET.ATK $KEY HALT\n```\n".toList

theorem idle_idleShell : Idle idleShell :=
  ⟨⟨rfl, (mailboxSound_start _).valid, Rings.between_self _ _ _⟩, rfl, rfl⟩

theorem signed_write_obeyed :
    Obeyed (fun _ => []) idleShell "s.write MARKET.ATK $KEY HALT".toList :=
  (agent_obeyed_iff (fun _ => []) idleShell idle_idleShell signedAnswer
    "s.write MARKET.ATK $KEY HALT".toList (by decide +kernel)).2 (.inl (by decide +kernel))

/-- An answer with a carriage return in its line. -/
def twoLines : Word := "s.write MARKET\rledger.sync".toList

/-- **A carriage return passes the filter** and starts a command of no allowed form. -/
theorem carriage_return_bypasses :
    queryLocalLlm twoLines = some twoLines ∧
      ∃ inputs, typedOf (run (shellStep fun _ => []) idleShell inputs).log =
          drained (utf8 (injectCommand twoLines)) ∧
        ascii "ledger.sync" ∈ executedOf (run (shellStep fun _ => []) idleShell inputs).log ∧
        ¬ AllowedForm (ascii "ledger.sync") := by
  refine ⟨by decide +kernel, bringing (utf8 (injectCommand twoLines))
    (forall_mem_of_all (by decide +kernel)) :: List.replicate 54 quiet, by decide +kernel,
    by decide +kernel, ?_⟩
  rw [AllowedForm]
  decide +kernel

end Daemon
end AiOsExchange
