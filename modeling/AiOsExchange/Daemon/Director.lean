/-
# The director

`director.py` asks a language model for a contract, keeps an operator and two words of its answer,
or takes a contract of its own, and types two command lines: one that writes the contract to `AI.ATK`
and one that executes this file.

| source | here |
| --- | --- |
| `str.split`, `str.lower` | `pyWords`, `pyLower` |
| `VALID_OPS` | `validOps` |
| `ask_ai_to_write_contract`, behind the request | `askAiToWriteContract` of the response |
| `write_cmd`, `run_cmd` | `writeCmd`, `runCmd` |

Nothing in them ends a line early, and a file is never written again.  So however often the director
is run, if each command is typed when the one before is done, each run executes the contract of the
first, and if this is an operator and two integers, the shell shows its value
(`first_contract_executed`).
-/

import AiOsExchange.Autarky.Print
import AiOsExchange.Autarky.Utf8
import AiOsExchange.Autarky.Wall
import AiOsExchange.Daemon.Whitelist
import AiOsExchange.Shell.Script
import AiOsExchange.Shell.Transcript

namespace AiOsExchange
namespace Daemon

open Computations CMemory Autarky Fat32 Kernel Runs Shell

/-! ### The script -/

/-- `s.split()`. -/
def pyWords (s : Word) : List Word := (s.splitOnP isSpace).filter (· ≠ [])

/-- `s.lower()`.  Outside ASCII no character has a letter of an operator for its lower case. -/
def pyLower (s : Word) : Word := s.map Char.toLower

/-- `VALID_OPS`. -/
def validOps : List Word :=
  ["add", "sub", "mul", "div", "eq", "gt", "lt", "ge", "le", "pair"].map String.toList

/-- The contract that is taken where there is none. -/
def defaultCode : Word := "add 800 200@".toList

/-- `clean_code` of three words. -/
def cleanCode (op left right : Word) : Word := op ++ ' ' :: left ++ ' ' :: right ++ ['@']

/-- `ask_ai_to_write_contract`, of the response, if there is one. -/
def askAiToWriteContract : Option Word → Word
  | none => defaultCode
  | some response =>
      match pyWords (pyStrip response) with
      | op :: left :: right :: _ =>
          if validOps.contains (pyLower op) then cleanCode (pyLower op) left right else defaultCode
      | _ => defaultCode

/-- `file_name`. -/
def fileName : Word := "AI.ATK".toList

/-- `write_cmd`. -/
def writeCmd (code : Word) : Word := "s.write ".toList ++ fileName ++ ' ' :: code ++ ['\n']

/-- `run_cmd`. -/
def runCmd : Word := "atk.run ".toList ++ fileName ++ ['\n']

/-! ### Contracts -/

/-- An operator and two integers; no operator is a pair. -/
structure Contract where
  op : Option BinOp
  left : Int64
  right : Int64

namespace Contract

/-- The word of the operator. -/
def word (c : Contract) : Word := c.op.elim "pair".toList BinOp.word

/-- The contract as the director types it. -/
def code (c : Contract) : Word := cleanCode c.word (numeral c.left) (numeral c.right)

/-- The expression. -/
def expr (c : Contract) : Expr :=
  match c.op with
  | some op => .bin op (.intLiteral c.left) (.intLiteral c.right)
  | none => .pair (.intLiteral c.left) (.intLiteral c.right)

/-- What the contract comes to: sums, differences and products modulo `2^64`, quotients truncated
toward zero. -/
def outcome (c : Contract) : Except String Value :=
  let a := c.left.toInt
  let b := c.right.toInt
  match c.op with
  | none => .ok (.pair (.int c.left) (.int c.right))
  | some .add => .ok (.int (.ofInt (a + b)))
  | some .sub => .ok (.int (.ofInt (a - b)))
  | some .mul => .ok (.int (.ofInt (a * b)))
  | some .div => if b = 0 then .error "Div by zero" else .ok (.int (.ofInt (a.tdiv b)))
  | some .eq => .ok (verdict (a = b))
  | some .gt => .ok (verdict (b < a))
  | some .lt => .ok (verdict (a < b))
  | some .ge => .ok (verdict (b ≤ a))
  | some .le => .ok (verdict (a ≤ b))

/-- It does not divide the least integer by `-1`. -/
def Sound (c : Contract) : Prop := ¬ (c.op = some .div ∧ divOverflows c.left c.right)

/-- How its evaluation ends. -/
def out (c : Contract) : Out Value :=
  match c.outcome with
  | .ok v => .ok v
  | .error msg => .err msg

/-- The text that is shown of the outcome. -/
def shown (fmtValue : Value → List Char) (c : Contract) : List UInt8 :=
  match c.outcome with
  | .ok v => ((matchedBytes fmtValue v).take 255).takeWhile (· ≠ 0)
  | .error msg => ((faultBytes msg).take 255).takeWhile (· ≠ 0)

end Contract

section
variable {c : Contract} {fuel : ℕ} {env : Env} {net : Net}

/-- The text of the expression, and an `@`. -/
theorem Contract.code_eq : c.code = c.expr.text ++ ['@'] := by
  obtain ⟨_ | op, l, r⟩ := c <;> simp [code, cleanCode, word, expr]

theorem Contract.expr_printable : c.expr.Printable := by
  obtain ⟨_ | op, l, r⟩ := c <;> exact ⟨trivial, trivial⟩

/-- **A contract compiles.** -/
theorem compile_code (c : Contract) : compile c.code = .ok c.expr := by
  have hparse := @parse_text _ c.expr_printable [] [] rfl
  rw [List.nil_append, List.append_nil, utf8Len_nil, Nat.zero_add] at hparse
  have hat : At [] ⟨c.expr.text, utf8Len c.expr.text⟩ := ⟨c.expr.text, (List.append_nil _).symm, rfl⟩
  obtain ⟨p, heof, -⟩ := Parser.isEof_at hat
  obtain ⟨h1, h2⟩ := parse_wall [] c.expr.text
  rw [← Contract.code_eq, Parser.new, Parser.new, hparse] at h1 h2
  rw [heof] at h2
  rw [compile, Parser.new]
  rcases hp : parse ⟨c.code, 0⟩ with ⟨o, q⟩
  rw [hp] at h1 h2
  obtain rfl : o = .ok c.expr := h1
  simp only [h2]
  rfl

/-- Its integers are operated on in 64-bit words. -/
theorem Contract.apply_eq {op : BinOp} {l r : Int64} (h : (⟨some op, l, r⟩ : Contract).Sound) :
    op.apply netMachine l r net = ((⟨some op, l, r⟩ : Contract).out, net) := by
  have hadd : Int64.ofInt (l.toInt + r.toInt) = l + r := by simp [Int64.ofInt_add]
  have hsub : Int64.ofInt (l.toInt - r.toInt) = l - r := by simp [Int64.ofInt_sub]
  have hmul : Int64.ofInt (l.toInt * r.toInt) = l * r := by simp [Int64.ofInt_mul]
  have heq : l = r ↔ l.toInt = r.toInt := Int64.toInt_inj.symm
  cases op with
  | div =>
      have hzero : r = 0 ↔ r.toInt = 0 := by
        rw [← Int64.toInt_inj]
        rfl
      have hquot : Int64.ofInt (l.toInt.tdiv r.toInt) = l / r := by
        rw [← Int64.toInt_inj, Int64.toInt_div, Int64.toInt_ofInt]
      have hno : ¬ divOverflows l r := fun hover => h ⟨rfl, hover⟩
      simp only [BinOp.apply, out, outcome, netMachine, hquot, ← hzero]
      by_cases h0 : r = 0
      · simp only [if_pos h0]
        rfl
      · rw [if_neg h0, if_neg h0, if_neg (by tauto)]
        rfl
  | _ =>
      simp only [BinOp.apply, out, outcome, hadd, hsub, hmul, heq, Int64.lt_iff_toInt_lt,
        Int64.le_iff_toInt_le]
      rfl

/-- **A contract is evaluated** to what it comes to. -/
theorem evaluate_contract (c : Contract) (h : c.Sound) (hfuel : 2 ≤ fuel) :
    evaluate fuel env (eraseProofs c.expr) net = (c.out, net) := by
  obtain ⟨fuel, rfl⟩ : ∃ n, fuel = n + 2 := ⟨fuel - 2, by omega⟩
  obtain ⟨_ | op, l, r⟩ := c
  · rfl
  · exact Contract.apply_eq h

/-- **A contract is executed**: the service answers with what it comes to. -/
theorem execute_contract {fmtValue : Value → List Char} {sv : Service} (h : c.Sound)
    (hfuel : 2 ≤ fuel) (outBuf : Buf) :
    Service.Ends fuel c.code sv.net ∧
      Service.outText outBuf (sv.execute fmtValue fuel c.code).1 = c.shown fmtValue := by
  have heval := @evaluate_contract fuel seededEnv sv.net c h hfuel
  constructor
  · intro ast hast
    obtain rfl := Out.ok.inj ((compile_code c).symm.trans hast)
    rw [heval, Contract.out]
    cases c.outcome with
    | ok v => exact .inl ⟨v, rfl⟩
    | error msg => exact .inr ⟨msg, rfl⟩
  · rw [Service.execute_of_compile (compile_code c), heval, Contract.out, Contract.shown]
    cases c.outcome <;> rfl

end

/-- The source of a contract is the contract. -/
theorem trimmed_code (c : Contract) : trimmed (utf8 c.code) = c.code := by
  have hops : validOps.all (fun w => w.head?.all fun d => !isWhitespace d) = true := by decide
  have hmem : c.word ∈ validOps := by
    obtain ⟨_ | op, l, r⟩ := c
    · simp [Contract.word, validOps]
    · cases op <;> simp [Contract.word, BinOp.word, validOps]
  have hhead : c.code.head? = c.word.head? := by
    have hne : c.word ≠ [] := by
      intro hnil
      rw [hnil] at hmem
      revert hmem
      decide
    obtain ⟨d, ds, hw⟩ := List.exists_cons_of_ne_nil hne
    rw [Contract.code, hw]
    rfl
  refine trimmed_utf8Bytes (fun d hd => ?_) fun d hd => ?_
  · have hfirst := List.all_eq_true.1 hops _ hmem
    rw [← hhead, show c.code.head? = some d from hd] at hfirst
    simpa using hfirst
  · rw [Contract.code, cleanCode, List.getLast?_concat] at hd
    obtain rfl := Option.some.inj hd
    decide

/-! ### What is typed -/

/-- Words have no white space. -/
theorem not_space_of_mem_pyWords (s : Word) : ∀ w ∈ pyWords s, ∀ c ∈ w, isSpace c = false := by
  have hsplit : ∀ w ∈ s.splitOnP isSpace, ∀ c ∈ w, isSpace c = false := by
    induction s with
    | nil => simp
    | cons c s ih =>
        rw [List.splitOnP_cons_eq_if_modifyHead]
        split_ifs with hc
        · exact List.forall_mem_cons.2 ⟨fun _ h => absurd h List.not_mem_nil, ih⟩
        · cases hs : s.splitOnP isSpace with
          | nil => simp
          | cons w ws =>
              rw [hs, List.forall_mem_cons] at ih
              rw [List.modifyHead_cons, List.forall_mem_cons]
              exact ⟨List.forall_mem_cons.2 ⟨by simpa using hc, ih.1⟩, ih.2⟩
  exact fun w h => hsplit w (List.mem_filter.1 h).1

/-- **The contract is one line**: nothing in it ends a line. -/
theorem one_line (r : Option Word) : ∀ c ∈ askAiToWriteContract r, c ≠ '\n' ∧ c ≠ '\r' := by
  have hdefault : ∀ c ∈ defaultCode, c ≠ '\n' ∧ c ≠ '\r' := forall_mem_of_all (by decide)
  have hops : validOps.all (fun op => op.all fun c => decide (c ≠ '\n' ∧ c ≠ '\r')) = true := by decide
  have hspace {c : Char} (h : isSpace c = false) : c ≠ '\n' ∧ c ≠ '\r' := by
    constructor <;> rintro rfl <;> revert h <;> decide
  cases r with
  | none => exact hdefault
  | some response =>
      rw [askAiToWriteContract]
      split
      · rename_i op left right more hwords
        have hword := not_space_of_mem_pyWords (pyStrip response)
        rw [hwords] at hword
        split_ifs with hop
        · rw [List.contains_iff_mem] at hop
          intro c hc
          simp only [cleanCode, List.mem_append, List.mem_cons, List.not_mem_nil, or_false] at hc
          rcases hc with ((h | rfl | h) | rfl | h) | rfl
          · exact of_decide_eq_true (List.all_eq_true.1 (List.all_eq_true.1 hops _ hop) c h)
          · decide
          · exact hspace (hword left (by simp) c h)
          · decide
          · exact hspace (hword right (by simp) c h)
          · decide
        · exact hdefault
      · exact hdefault

/-! ### Visits -/

/-- A contract that is typed as it is, behind the name of the file. -/
structure Sendable (code : Word) : Prop where
  short : (utf8 code).length ≤ 239
  plain : ∀ b ∈ utf8 code, b ≠ 0 ∧ b ≠ 8

/-- A run of the script: the response, and the turns of its two command lines. -/
structure Visit where
  response : Option Word
  write : Turn
  run : Turn

namespace Visit

/-- The contract that is typed. -/
def code (d : Visit) : Word := askAiToWriteContract d.response

/-- The steps of the shell. -/
def inputs (d : Visit) : List Input := d.write.inputs ++ d.run.inputs

/-- The two commands are typed, and the second has fuel. -/
structure Typed (d : Visit) : Prop where
  sendable : Sendable d.code
  writeLine : d.write.line ++ [10] = utf8 (writeCmd d.code)
  runLine : d.run.line ++ [10] = utf8 runCmd
  write : d.write.Typed
  run : d.run.Typed
  fuel : 2 ≤ d.run.serve.fuel

/-- What is said if `c` is the contract in the file. -/
def said (fmtValue : Value → List Char) (c : Contract) (d : Visit) : List Said :=
  saidTyping d.write.line ++ [kernelAnswer .fsWriteResp writeCommitted] ++
    (saidTyping d.run.line ++ [kernelAnswer .atkExecResp (c.shown fmtValue)])

end Visit

/-- The name of the file on the volume. -/
def aiName : List UInt8 := formatFatName (utf8 fileName)

section
variable {fmtValue : Value → List Char} {sv : Service} {d : Visit} {t : Turn} {code : Word}
  {log : Option (List UInt8)} {c : Contract}

/-- The bytes of a text in ASCII. -/
theorem utf8_ascii {s : String} (h : ∀ c ∈ s.toList, c.toNat < 128) : utf8 s.toList = ascii s := by
  have hchar : ∀ c ∈ s.toList, String.utf8EncodeChar c = [UInt8.ofNat c.toNat] := by
    intro c hc
    have hlt := h c hc
    have hval : c.val.toNat = c.toNat := rfl
    unfold String.utf8EncodeChar
    simp only [hval]
    rw [if_pos (by omega)]
  rw [utf8, ascii, List.flatMap_congr hchar, List.map_eq_flatMap]

theorem line_of_write {line : List UInt8} (h : line ++ [10] = utf8 (writeCmd code)) :
    line = ascii "s.write AI.ATK" ++ 32 :: utf8 code := by
  have htext : "s.write AI.ATK".toList = "s.write ".toList ++ fileName := rfl
  have hfirst : utf8 ("s.write ".toList ++ fileName) = ascii "s.write AI.ATK" :=
    htext ▸ utf8_ascii (forall_mem_of_all (by decide))
  have hline : utf8 ("s.write ".toList ++ fileName ++ ' ' :: code) =
      ascii "s.write AI.ATK" ++ 32 :: utf8 code := hfirst ▸ utf8_append _ _
  have hcmd : utf8 (writeCmd code) = ascii "s.write AI.ATK" ++ 32 :: utf8 code ++ [10] :=
    hline ▸ utf8_append _ _
  exact List.append_cancel_right (h.trans hcmd)

theorem line_of_run {line : List UInt8} (h : line ++ [10] = utf8 runCmd) :
    line = ascii "atk.run AI.ATK" := by
  have htext : "atk.run AI.ATK".toList = "atk.run ".toList ++ fileName := rfl
  have hline : utf8 ("atk.run ".toList ++ fileName) = ascii "atk.run AI.ATK" :=
    htext ▸ utf8_ascii (forall_mem_of_all (by decide))
  have hcmd : utf8 runCmd = ascii "atk.run AI.ATK" ++ [10] := hline ▸ utf8_append _ _
  exact List.append_cancel_right (h.trans hcmd)

theorem utf8_fileName : utf8 fileName = ascii "AI.ATK" := utf8_ascii (forall_mem_of_all (by decide))

/-- The line of a contract can be typed. -/
theorem typeable_write (hd : d.Typed) : Typeable d.write.line := by
  have hfirst : ∀ b ∈ ascii "s.write AI.ATK", b ∉ [0, 8, 10, 13] := forall_mem_of_all (by decide)
  have hlen : (ascii "s.write AI.ATK").length = 14 := rfl
  have hcode : ∀ b ∈ utf8 d.code, b ∉ [0, 8, 10, 13] := by
    intro b hb
    have hplain := hd.sendable.plain b hb
    obtain ⟨c, hc, hbc⟩ := List.mem_flatMap.1 hb
    have hline := one_line d.response c hc
    have hno {n : UInt8} (hn : n.toNat < 128) (hne : c.toNat ≠ n.toNat) : b ≠ n := by
      rintro rfl
      exact hne (toNat_of_mem_utf8EncodeChar hbc hn).symm
    have h10 : b ≠ 10 := hno (by decide) fun heq => hline.1 (Char.toNat_inj.1 heq)
    have h13 : b ≠ 13 := hno (by decide) fun heq => hline.2 (Char.toNat_inj.1 heq)
    simp [hplain, h10, h13]
  rw [line_of_write hd.writeLine]
  refine ⟨by simp [ascii], ?_, fun b hb => ?_⟩
  · have hshort := hd.sendable.short
    rw [List.length_append, List.length_cons, hlen]
    omega
  · rcases List.mem_append.1 hb with hb | hb
    · exact hfirst b hb
    · rcases List.mem_cons.1 hb with rfl | hb
      · decide
      · exact hcode b hb

theorem formatFatName_file : formatFatName (ascii "AI.ATK") = aiName := by rw [aiName, utf8_fileName]

/-- **The contract is written**, unless there is one. -/
theorem write_turn (h : Filed sv.store aiName log) (hroom : log = none → sv.store.HasRoom)
    (hd : d.Typed) : d.write.Comes Roomy sv ∧ ∃ sv',
      d.write.said fmtValue sv =
        (saidTyping d.write.line ++ [kernelAnswer .fsWriteResp writeCommitted], sv') ∧
      Filed sv'.store aiName (some (log.getD (utf8 d.code))) := by
  have hline : writeOf d.write.line = some (ascii "AI.ATK", utf8 d.code) := by
    refine writeOf_of_writeLine ⟨ascii "s", .inr rfl, by decide, ?_⟩
    rw [line_of_write hd.writeLine]
    rfl
  have hnew (hnone : sv.store.find (formatFatName (ascii "AI.ATK")) = none) : sv.store.HasRoom := by
    rw [formatFatName_file] at hnone
    refine hroom ?_
    cases log with
    | none => rfl
    | some log =>
        obtain ⟨f, hf, -⟩ := h.tells
        rw [hf] at hnone
        cases hnone
  have hwrites := @Filed.writes fmtValue _ _ _ _ _ _ h hd.write (typeable_write hd) hline (by decide) hnew
  rwa [if_pos formatFatName_file] at hwrites

/-- The request to execute the file. -/
theorem request_run {fuel : ℕ} {loc : Locals} {req : OsMessage} (hc : c.Sound)
    (hsend : Sendable c.code) (hfuel : 2 ≤ fuel) (ht : req.type = .atkExecReq)
    (hstring : stringAt req.payload = ascii "AI.ATK")
    (h : Filed sv.store aiName (some (utf8 c.code))) :
    sv.AdmitsRequest fuel req ∧ ∃ sv',
      sv.request fmtValue fuel loc req = (some (answerTo req .atkExecResp (c.shown fmtValue)), sv') ∧
        Filed sv'.store aiName (some (utf8 c.code)) := by
  have hshown : shownLog (utf8 c.code) 256 = utf8 c.code := by
    have hshort := hsend.short
    rw [shownLog_of_le (by omega), List.take_of_length_le (by omega), List.takeWhile_eq_self_iff]
    exact fun b hb => by simpa using (hsend.plain b hb).1
  have hsource : sv.source req = c.code := by
    rw [Service.source, hstring, formatFatName_file, h.tells.read_eq (by omega)]
    simp only [Option.map_some, Option.getD_some, hshown, trimmed_code]
  obtain ⟨hends, htext⟩ := @execute_contract c fuel fmtValue
    (sv.logged .fsRead req.senderId (text req.payload 63)) hc hfuel loc.outBuf
  have hreq := @Service.request_exec fmtValue fuel loc req sv ht
  have hfiled := @Filed.ofRequest fmtValue fuel loc sv aiName _ req h (by decide) (by simp [ht])
  rw [hsource, htext] at hreq
  rw [hreq] at hfiled
  refine ⟨?_, _, hreq, hfiled⟩
  rw [Service.AdmitsRequest, ht]
  refine ⟨?_, ?_, ?_⟩
  · rw [hstring]
    decide
  · rw [hstring, formatFatName_file]
    exact h.tells.not_foreign
  · rw [hsource]
    exact hends

/-- **The contract in the file is executed.** -/
theorem run_turn (h : Filed sv.store aiName (some (utf8 c.code))) (hc : c.Sound)
    (hsend : Sendable c.code) (hd : d.Typed) : d.run.Comes Roomy sv ∧ ∃ sv',
      d.run.said fmtValue sv =
        (saidTyping d.run.line ++ [kernelAnswer .atkExecResp (c.shown fmtValue)], sv') ∧
      Filed sv'.store aiName (some (utf8 c.code)) := by
  have hline := line_of_run hd.runLine
  have htypeable : Typeable d.run.line := hline ▸ ⟨by decide, by decide, forall_mem_of_all (by decide)⟩
  have haction : d.run.action = .request (execRequest d.run.enter.pay (ascii "AI.ATK")) := by
    rw [Turn.action, hline]
    rfl
  have hstring : stringAt (execRequest d.run.enter.pay (ascii "AI.ATK")).payload = ascii "AI.ATK" :=
    stringAt_nameRequest .atkExecReq (by decide) (by decide)
  obtain ⟨hadm, sv', hreq, hfiled⟩ := @request_run fmtValue sv c d.run.serve.fuel d.run.serve.loc _ hc
    hsend hd.fuel rfl hstring h
  refine ⟨⟨htypeable, hd.run.types, ?_⟩, sv', ?_, hfiled⟩
  · rw [haction]
    exact ⟨hd.run.quiet, hd.run.fuel, hadm, fun ht => absurd ht (by simp [execRequest, nameRequest, requestOf])⟩
  · simp only [Turn.said, haction, hreq]
    rfl

/-- **A visit** after which the file has the contract `c`. -/
theorem visit_leads {count : ℕ} {root : List ℕ} {s : ShellState} (hp : Prompt count root s sv)
    (h : Filed sv.store aiName log) (hroom : log = none → sv.store.HasRoom) (hd : d.Typed)
    (hlog : log.getD (utf8 d.code) = utf8 c.code) (hc : c.Sound) (hsend : Sendable c.code) :
    Leads fmtValue Roomy s d.inputs (d.said fmtValue c) fun s' => ∃ sv', Prompt count root s' sv' ∧
      Filed sv'.store aiName (some (utf8 c.code)) := by
  obtain ⟨hwrite, sv₁, hsaid₁, h₁⟩ := @write_turn fmtValue _ _ _ h hroom hd
  rw [hlog] at h₁
  obtain ⟨hrun, sv₂, hsaid₂, h₂⟩ := @run_turn fmtValue _ _ _ h₁ hc hsend hd
  have hleads₁ := @Turn.leads fmtValue _ _ _ _ Roomy _ hp hwrite
  rw [hsaid₁] at hleads₁
  refine hleads₁.append fun s₁ hp₁ => ?_
  have hleads₂ := @Turn.leads fmtValue _ _ _ _ Roomy _ hp₁ hrun
  rw [hsaid₂] at hleads₂
  exact ⟨hleads₂.admitted, hleads₂.said, sv₂, hleads₂.arrives, h₂⟩

end

/-- **The first contract is executed, however often the director is run.**  On a volume that has room
and no `AI.ATK`, let the first response make a contract that does not divide the least integer by
`-1`.  Each command is typed when the one before is done, in whatever batches its characters come.
Whatever the other responses are, as long as they can be typed, all command lines are executed, each
write is acknowledged, and each execution is answered with what the first contract comes to. -/
theorem first_contract_executed (fmtValue : Value → List Char) {count : ℕ} {root : List ℕ}
    {s : ShellState} {sv : Service} (hp : Prompt count root s sv) (hnew : Filed sv.store aiName none)
    (hroom : sv.store.HasRoom) {c : Contract} (hc : c.Sound) (first : Visit) (later : List Visit)
    (hfirst : first.code = c.code) (hok : ∀ d ∈ first :: later, d.Typed) :
    Leads fmtValue Roomy s ((first :: later).flatMap Visit.inputs)
      ((first :: later).flatMap (Visit.said fmtValue c)) fun s' => ∃ sv', Prompt count root s' sv' := by
  have hsend : Sendable c.code := hfirst ▸ (hok first List.mem_cons_self).sendable
  have hlater {s : ShellState} {sv : Service} (hp : Prompt count root s sv)
      (h : Filed sv.store aiName (some (utf8 c.code))) (visits : List Visit)
      (hok : ∀ d ∈ visits, d.Typed) :
      Leads fmtValue Roomy s (visits.flatMap Visit.inputs) (visits.flatMap (Visit.said fmtValue c))
        fun s' => ∃ sv', Prompt count root s' sv' := by
    induction visits generalizing s sv with
    | nil => exact ⟨trivial, (List.append_nil _).symm, sv, hp⟩
    | cons d visits ih =>
        have hd := hok d List.mem_cons_self
        refine (visit_leads hp h (fun hnone => absurd hnone (by simp)) hd rfl hc hsend).append ?_
        rintro s' ⟨sv', hp', h'⟩
        exact ih hp' h' fun d hd => hok d (List.mem_cons_of_mem _ hd)
  have hd := hok first List.mem_cons_self
  refine (visit_leads hp hnew (fun _ => hroom) hd (congrArg utf8 hfirst) hc hsend).append ?_
  rintro s' ⟨sv', hp', h'⟩
  exact hlater hp' h' later fun d hd => hok d (List.mem_cons_of_mem _ hd)

/-- The derived `Debug` text of an integer. -/
def debugInt : Value → List Char
  | .int n => "Int(".toList ++ numeral n ++ [')']
  | _ => []

/-- A visit whose commands come at once. -/
def visitOf (response : Option Word) (line : String) (h : ∀ c ∈ ascii line ++ [10], c ≠ 0) : Visit where
  response := response
  write := .atOnce 1 (ascii line) h
  run := .atOnce 2 (ascii "atk.run AI.ATK") (forall_mem_of_all (by decide))

/-- A sum, and then a product. -/
def sumVisit : Visit :=
  visitOf (some "ADD 800 200\nThis adds.".toList) "s.write AI.ATK add 800 200@"
    (forall_mem_of_all (by decide))

def productVisit : Visit :=
  visitOf (some "mul 6 7".toList) "s.write AI.ATK mul 6 7@" (forall_mem_of_all (by decide))

theorem sumVisit_typed : sumVisit.Typed where
  sendable := ⟨by decide +kernel, forall_mem_of_all (by decide +kernel)⟩
  writeLine := by decide +kernel
  runLine := by decide +kernel
  write := Turn.typed_atOnce _ Nat.one_pos ⟨by decide, by decide, forall_mem_of_all (by decide)⟩
  run := Turn.typed_atOnce _ Nat.two_pos ⟨by decide, by decide, forall_mem_of_all (by decide)⟩
  fuel := Nat.le_refl 2

theorem productVisit_typed : productVisit.Typed where
  sendable := ⟨by decide +kernel, forall_mem_of_all (by decide +kernel)⟩
  writeLine := by decide +kernel
  runLine := by decide +kernel
  write := Turn.typed_atOnce _ Nat.one_pos ⟨by decide, by decide, forall_mem_of_all (by decide)⟩
  run := Turn.typed_atOnce _ Nat.two_pos ⟨by decide, by decide, forall_mem_of_all (by decide)⟩
  fuel := Nat.le_refl 2

theorem sum_executed_twice :
    (run (shellStep debugInt) (shellStart (kernelOn (oneFileVolume (ascii "A") (ascii "hi"))))
        ([sumVisit, productVisit].flatMap Visit.inputs)).said =
      saidTyping (ascii "s.write AI.ATK add 800 200@") ++ [kernelAnswer .fsWriteResp writeCommitted] ++
        (saidTyping (ascii "atk.run AI.ATK") ++
          [kernelAnswer .atkExecResp (ascii "ATK MATCHED: Int(1000)\n")]) ++
        (saidTyping (ascii "s.write AI.ATK mul 6 7@") ++ [kernelAnswer .fsWriteResp writeCommitted] ++
          (saidTyping (ascii "atk.run AI.ATK") ++
            [kernelAnswer .atkExecResp (ascii "ATK MATCHED: Int(1000)\n")])) := by
  have hvolume : (oneFileVolume (ascii "A") (ascii "hi")).Consistent 126 [2] :=
    oneFileVolume_consistent (by decide)
  have horderly : (kernelOn (oneFileVolume (ascii "A") (ascii "hi"))).fs.Orderly 126 [2] :=
    hvolume.orderly fun _ => rfl
  have hticks (n : ℕ) : (kernelOn (oneFileVolume (ascii "A") (ascii "hi"))).timer n ≠ 0 :=
    (by decide : (1 : UInt64) ≠ 0)
  have hkept : ∀ i < 16, (oneFileVolume (ascii "A") (ascii "hi")).rootDir (32 * i) ≠ 0xE5 := by
    decide +kernel
  have hnone : (oneFileVolume (ascii "A") (ascii "hi")).asStore.Tells aiName none :=
    Option.isNone_iff_eq_none.1 (by decide +kernel)
  have hroom : (oneFileVolume (ascii "A") (ascii "hi")).asStore.HasRoom := by
    unfold Store.HasRoom
    decide +kernel
  have hfirst : sumVisit.code = (⟨some .add, 800, 200⟩ : Contract).code := by decide +kernel
  have hshown : (⟨some .add, 800, 200⟩ : Contract).shown debugInt = ascii "ATK MATCHED: Int(1000)\n" := by
    decide +kernel
  have hsound : (⟨some .add, 800, 200⟩ : Contract).Sound := fun h => absurd h.1 (by decide)
  have hok : ∀ d ∈ [sumVisit, productVisit], d.Typed := by
    simp [sumVisit_typed, productVisit_typed]
  refine (first_contract_executed debugInt (prompt_start horderly rfl hticks)
    ⟨hnone, behind_of_kept horderly hkept⟩ hroom hsound sumVisit [productVisit] hfirst hok).said.trans ?_
  simp only [List.flatMap_cons, List.flatMap_nil, Visit.said, hshown]
  rfl

end Daemon
end AiOsExchange
