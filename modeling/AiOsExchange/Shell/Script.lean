/-
# A script is carried out

A script is a list of command lines.  Where each is typed when the shell is at its prompt and nothing
else is typed until it is done, every line is executed, every request is answered, and the shell is
at its prompt again: what the shell says is what the service says to the lines one after the other,
however fast or slowly their characters come (`script_answered`).

| steps of a turn | what happens |
| --- | --- |
| two for each character, or none | a drain gets what was typed meanwhile, and a character is received |
| the last of them | the newline is received, and the line is executed |
| 3, if it is a request | it is sent, its answer is received, and a drain gets nothing |
-/

import AiOsExchange.Shell.Dialogue
import AiOsExchange.Shell.Typed

namespace AiOsExchange
namespace Shell

open CMemory Computations Watcher Autarky Fat32 Kernel Rings Runs

/-! ### Lines -/

/-- A line that can be typed and is not erased; with its newline it fits the mailbox. -/
structure Typeable (line : List UInt8) : Prop where
  ne_nil : line ≠ []
  short : line.length ≤ 254
  plain : ∀ b ∈ line, b ∉ [0, 8, 10, 13]

/-- What is said when a line is typed. -/
def saidTyping (line : List UInt8) : List Said := (line ++ [10]).map .typed ++ [.executed line]

/-- In these steps a line is typed.  A drain and a `receive` take turns; `cs` is in the mailbox, and
the drains bring `rest` behind it, in any batches.  The newline is received by the last step. -/
inductive Types (last : Input) : List UInt8 → List UInt8 → List Input → Prop
  | nothing {rest : List UInt8} {d r : Input} {inputs : List Input} : d.batch.chars = [] →
      Types last [] rest inputs → Types last [] rest (d :: r :: inputs)
  | char {cs cs' rest : List UInt8} {c : UInt8} {d r : Input} {inputs : List Input} :
      cs ++ d.batch.chars = c :: cs' → c ≠ 10 → Types last cs' rest inputs →
      Types last cs (d.batch.chars ++ rest) (d :: r :: inputs)
  | newline {cs : List UInt8} {d : Input} : cs ++ d.batch.chars = [10] →
      Types last cs d.batch.chars [d, last]

/-- A command line and the steps that it takes: those in which it is typed, the last of them, and
those of its request. -/
structure Turn where
  line : List UInt8
  typing : List Input
  enter : Input
  serve : Input
  receive : Input
  settle : Input

namespace Turn

/-- What the line asks for. -/
def action (t : Turn) : Action := command t.enter.pay t.line

/-- The steps of a turn. -/
def inputs (t : Turn) : List Input :=
  t.typing ++
    match t.action with
    | .request _ => [t.serve, t.receive, t.settle]
    | _ => []

/-- A turn of the service, with what is said. -/
def said (fmtValue : Value → List Char) (sv : Service) (t : Turn) : List Said × Service :=
  match t.action with
  | .request req =>
      match sv.request fmtValue t.serve.fuel t.serve.loc req with
      | (some letter, sv') => (saidTyping t.line ++ [.answered letter], sv')
      | (none, sv') => (saidTyping t.line, sv')
  | _ => (saidTyping t.line, sv)

/-- The shell comes back from the turn; `more` holds of what it sends. -/
def Comes (more : Store → OsMessage → Prop) (sv : Service) (t : Turn) : Prop :=
  Typeable t.line ∧ Types t.enter [] (t.line ++ [10]) t.typing ∧
    match t.action with
    | .request req =>
        t.settle.batch.chars = [] ∧ 0 < t.serve.fuel ∧ sv.AdmitsRequest t.serve.fuel req ∧
          more sv.store req
    | .listen => False
    | .print => True

/-- The line is typed in its steps, and nothing else until the turn is done. -/
structure Typed (t : Turn) : Prop where
  types : Types t.enter [] (t.line ++ [10]) t.typing
  quiet : t.settle.batch.chars = []
  fuel : 0 < t.serve.fuel

end Turn

/-! ### At the prompt -/

/-- The mailbox has these key presses. -/
structure Keys (ms : List OsMessage) (cs : List UInt8) : Prop where
  keyPress : ∀ m ∈ ms, KeyPress m
  pending : pendingOf ms = cs

/-- The shell is at this place of its loop, with this buffer, and `cs` are to be received. -/
structure Stands (count : ℕ) (root : List ℕ) (control : Control) (s : ShellState) (sv : Service)
    (buffer cs : List UInt8) : Prop where
  serves : s.kernel.Serves count root { sv with inbox := letters s.kernel.ipc }
  control : s.control = control
  line : s.cmdBuffer = buffer
  keys : Keys s.kernel.ipc.messages cs

/-- The shell is at its prompt. -/
def Prompt (count : ℕ) (root : List ℕ) (s : ShellState) (sv : Service) : Prop :=
  Stands count root .drain s sv [] []

section
variable {fmtValue : Value → List Char} {count : ℕ} {root : List ℕ} {s : ShellState} {sv : Service}
  {i : Input} {buffer cs line : List UInt8} {c : UInt8}

theorem keys_batch (b : Batch) : Keys b.messages b.chars :=
  ⟨fun _ => keyPress_of_mem_batch, pendingOf_batch b⟩

theorem Keys.cons {m : OsMessage} {ms : List OsMessage} (h : Keys (m :: ms) (c :: cs)) :
    KeyPress m ∧ m.payload 0 = c ∧ Keys ms cs := by
  have hkey := h.keyPress m List.mem_cons_self
  have hpending := h.pending
  rw [pendingOf_cons hkey.1] at hpending
  obtain ⟨hc, hcs⟩ := List.cons.inj hpending
  exact ⟨hkey, hc, fun m hm => h.keyPress m (List.mem_cons_of_mem _ hm), hcs⟩

/-- A key press is received. -/
theorem Keys.uncons {ms : List OsMessage} (h : Keys ms (c :: cs)) :
    ∃ m ms', ms = m :: ms' ∧ KeyPress m ∧ m.payload 0 = c ∧ Keys ms' cs := by
  cases ms with
  | nil => cases h.pending
  | cons m ms => exact ⟨m, ms, rfl, h.cons⟩

theorem Keys.nil {ms : List OsMessage} (h : Keys ms []) : ms = [] := by
  cases ms with
  | nil => rfl
  | cons m ms =>
      have hpending := h.pending
      rw [pendingOf_cons (h.keyPress m List.mem_cons_self).1] at hpending
      cases hpending

/-- A drain that fits the mailbox. -/
theorem drained_keys {b : Batch} {q : Mailbox} (hq : q.Valid) (h : Keys q.messages cs)
    (hfits : cs.length + b.chars.length ≤ 255) :
    (drainHardwareQueues b q).Valid ∧ Keys (drainHardwareQueues b q).messages (cs ++ b.chars) := by
  have hlen {ms : List OsMessage} {cs : List UInt8} (h : Keys ms cs) : ms.length = cs.length := by
    induction ms generalizing cs with
    | nil => rw [← h.pending]; rfl
    | cons m ms ih =>
        cases cs with
        | nil => cases h.nil
        | cons c cs => rw [List.length_cons, List.length_cons, ih h.cons.2.2]
  have hfits : q.messages.length + b.messages.length ≤ 255 := by
    rwa [hlen h, hlen (keys_batch b)]
  have hdrained := drained_of_fits hq hfits
  refine ⟨(mem_drained hq).1, ?_, ?_⟩
  · rw [drainHardwareQueues, hdrained]
    intro m hm
    rcases List.mem_append.1 hm with hm | hm
    · exact h.keyPress m hm
    · exact keyPress_of_mem_batch hm
  · rw [drainHardwareQueues, hdrained, pendingOf_append, h.pending, pendingOf_batch]

/-! ### Typing -/

/-- The steps are admitted, say this, and lead to a state of `P`. -/
structure Leads (fmtValue : Value → List Char) (more : Store → OsMessage → Prop) (s : ShellState)
    (inputs : List Input) (said : List Said) (P : ShellState → Prop) : Prop where
  admitted : StepsMeet (shellStep fmtValue) (Admitted more) s inputs
  said : (run (shellStep fmtValue) s inputs).said = s.said ++ said
  arrives : P (run (shellStep fmtValue) s inputs)

variable {more : Store → OsMessage → Prop}

theorem Leads.append {inputs inputs' : List Input} {said said' : List Said}
    {P P' : ShellState → Prop} (h : Leads fmtValue more s inputs said P)
    (h' : ∀ s', P s' → Leads fmtValue more s' inputs' said' P') :
    Leads fmtValue more s (inputs ++ inputs') (said ++ said') P' := by
  obtain ⟨hadmitted, hsaid, harrives⟩ := h' _ h.arrives
  rw [h.said, List.append_assoc] at hsaid
  exact ⟨stepsMeet_append.2 ⟨h.admitted, hadmitted⟩, by rw [run_append, hsaid], by rwa [run_append]⟩

/-- A step that says nothing. -/
theorem Leads.skip {i : Input} {inputs : List Input} {said : List Said} {P P' : ShellState → Prop}
    (h : Leads fmtValue more s [i] [] P) (h' : ∀ s', P s' → Leads fmtValue more s' inputs said P') :
    Leads fmtValue more s (i :: inputs) said P' := h.append h'

/-- A step that says something. -/
theorem Leads.say {i : Input} {inputs : List Input} {x : Said} {said : List Said}
    {P P' : ShellState → Prop} (h : Leads fmtValue more s [i] [x] P)
    (h' : ∀ s', P s' → Leads fmtValue more s' inputs said P') :
    Leads fmtValue more s (i :: inputs) (x :: said) P' := h.append h'

/-- One step, which sends nothing. -/
theorem Leads.one {said : List Said} {P : ShellState → Prop} (hsends : s.control.sends = false)
    (hsaid : (shellStep fmtValue s i).said = s.said ++ said) (hP : P (shellStep fmtValue s i)) :
    Leads fmtValue more s [i] said P := by
  refine ⟨⟨?_, trivial⟩, hsaid, hP⟩
  rw [Admitted]
  cases hc : s.control with
  | send req listening =>
      rw [hc] at hsends
      cases hsends
  | _ => trivial

/-- A drain. -/
theorem Stands.drain (h : Stands count root .drain s sv buffer cs)
    (hfits : cs.length + i.batch.chars.length ≤ 255) :
    Leads fmtValue more s [i] []
      fun s' => Stands count root .receive s' sv buffer (cs ++ i.batch.chars) := by
  obtain ⟨hvalid, hdrained⟩ := drained_keys h.serves.valid h.keys hfits
  have hstep : shellStep fmtValue s i = { drainStep i.batch s with control := .receive } := by
    simp only [shellStep, h.control]
  refine .one (by rw [h.control]; rfl) ?_ ?_
  · rw [hstep, List.append_nil]
    exact said_input _ _
  · rw [hstep]
    exact ⟨serves_withIpc h.serves hvalid, rfl, h.line, hdrained⟩

/-- A key press is received by the line editor. -/
theorem Stands.receive (h : Stands count root .receive s sv buffer (c :: cs)) :
    ∃ ipc, ipc.Valid ∧ Keys ipc.messages cs ∧ shellStep fmtValue s i =
      typeChar i.pay c { s with kernel := { s.kernel with ipc := ipc } } := by
  obtain ⟨m, ms, hms, hkey, rfl, hkeys⟩ := h.keys.uncons
  obtain ⟨ipc, hvalid, hrest, hstep⟩ :=
    @receive_key fmtValue s i m ms h.serves.valid h.control hms hkey
  exact ⟨ipc, hvalid, hrest.symm ▸ hkeys, hstep⟩

/-- A character is received. -/
theorem Stands.char (h : Stands count root .receive s sv buffer (c :: cs))
    (hplain : c ∉ [0, 8, 10, 13]) (hbuffer : buffer.length < 255) :
    Leads fmtValue more s [i] [.typed c]
      fun s' => Stands count root .drain s' sv (buffer ++ [c]) cs := by
  obtain ⟨ipc, hvalid, hkeys, hstep⟩ := @Stands.receive fmtValue _ _ _ _ i _ _ _ h
  simp only [List.mem_cons, List.not_mem_nil, or_false, not_or] at hplain
  have htype : typeChar i.pay c { s with kernel := { s.kernel with ipc := ipc } } =
      { s with
        kernel := { s.kernel with ipc := ipc }
        log := s.log ++ [.typed c]
        cmdBuffer := buffer ++ [c]
        control := .drain } := by
    unfold typeChar
    simp only [h.line]
    rw [if_neg (by tauto), if_neg hplain.2.1, if_pos (by simpa [cmdMaxLen] using hbuffer)]
  rw [htype] at hstep
  refine .one (by rw [h.control]; rfl) ?_ ?_
  · rw [hstep]
    exact List.filterMap_append
  · rw [hstep]
    exact ⟨serves_withIpc h.serves hvalid, rfl, rfl, hkeys⟩

/-- Nothing is received. -/
theorem Stands.nothing (h : Stands count root .receive s sv buffer []) :
    Leads fmtValue more s [i] [] fun s' => Stands count root .drain s' sv buffer [] := by
  have hstep : shellStep fmtValue s i = { s with control := .drain } :=
    receive_nothing h.serves.valid h.control h.keys.nil
  refine .one (by rw [h.control]; rfl) ?_ ?_
  · rw [hstep, List.append_nil]
    rfl
  · rw [hstep]
    exact ⟨h.serves, rfl, h.line, h.keys⟩

/-! ### Executing -/

/-- Where the end of a line leads. -/
def controlOf : Action → Control
  | .request req => .send req false
  | .listen => .listen [] 0
  | .print => .drain

/-- **The newline.** -/
theorem Stands.enter (h : Stands count root .receive s sv line [10]) (hne : line ≠ [])
    (h0 : (0 : UInt8) ∉ line) :
    Leads fmtValue more s [i] [.typed 10, .executed line]
      fun s' => Stands count root (controlOf (command i.pay line)) s' sv [] [] := by
  obtain ⟨ipc, hvalid, hkeys, hstep⟩ := @Stands.receive fmtValue _ _ _ _ i _ _ _ h
  have hline : line.takeWhile (· ≠ 0) = line := by
    refine List.takeWhile_eq_self_iff.2 fun b hb => ?_
    simpa using fun hb0 : b = 0 => h0 (hb0 ▸ hb)
  have htype : typeChar i.pay 10 { s with kernel := { s.kernel with ipc := ipc } } =
      { s with
        kernel := { s.kernel with ipc := ipc }
        log := s.log ++ [.typed 10] ++ [.executed line]
        cmdBuffer := []
        control := controlOf (command i.pay line) } := by
    unfold typeChar enterLine
    simp only [h.line, hline]
    rw [if_pos (.inl trivial), if_neg hne]
    rfl
  rw [htype] at hstep
  refine .one (by rw [h.control]; rfl) ?_ ?_
  · rw [hstep]
    simp [ShellState.said, Event.said]
  · rw [hstep]
    exact ⟨serves_withIpc h.serves hvalid, rfl, rfl, hkeys⟩

/-- **The rest of a line** is typed, in any batches, and the line is executed. -/
theorem Types.leads {last : Input} {rest more' : List UInt8} {inputs : List Input}
    (htypes : Types last cs rest inputs) (h : Stands count root .drain s sv buffer cs)
    (hok : Typeable line) (hbuffer : buffer ++ more' = line) (hrest : cs ++ rest = more' ++ [10]) :
    Leads fmtValue more s inputs (more'.map .typed ++ [.typed 10, .executed line])
      fun s' => Stands count root (controlOf (command last.pay line)) s' sv [] [] := by
  induction htypes generalizing s buffer more' with
  | @nothing rest d r inputs hd _ ih =>
      refine (h.drain (by simp [hd])).skip fun s₁ h₁ => ?_
      rw [hd] at h₁
      exact h₁.nothing.skip fun s₂ h₂ => ih h₂ hbuffer hrest
  | @char cs cs' rest c d r inputs hd hc _ ih =>
      have hlen : cs.length + d.batch.chars.length + rest.length = more'.length + 1 := by
        simpa [Nat.add_assoc] using congrArg List.length hrest
      have hshort : buffer.length + more'.length ≤ 254 := by
        rw [← List.length_append, hbuffer]
        exact hok.short
      rw [← List.append_assoc, hd] at hrest
      cases more' with
      | nil => exact absurd (List.cons.inj hrest).1 hc
      | cons b more' =>
          obtain ⟨rfl, hbehind⟩ := List.cons.inj hrest
          have hplain : c ∉ [0, 8, 10, 13] := hok.plain c (hbuffer ▸ by simp)
          refine (h.drain (by omega)).skip fun s₁ h₁ => ?_
          rw [hd] at h₁
          refine (h₁.char hplain (by omega)).say fun s₂ h₂ => ?_
          exact ih h₂ (by simpa using hbuffer) hbehind
  | @newline cs d hd =>
      rw [hd] at hrest
      obtain rfl : more' = [] := by
        cases more' with
        | nil => rfl
        | cons b more' => simp at hrest
      obtain rfl : buffer = line := by rwa [List.append_nil] at hbuffer
      have hfits : cs.length + d.batch.chars.length ≤ 255 := by
        rw [← List.length_append, hd]
        simp
      refine (h.drain hfits).skip fun s₁ h₁ => ?_
      rw [hd] at h₁
      exact h₁.enter hok.ne_nil fun hmem => hok.plain 0 hmem (by simp)

/-- What the service admits, and what `more` holds of, is admitted. -/
theorem admitted_of_send {req : OsMessage} {listening : Bool} (hc : s.control = .send req listening)
    {inbox : List Letter} (h : s.kernel.Serves count root { sv with inbox := inbox })
    (hfuel : 0 < i.fuel) (hok : sv.AdmitsRequest i.fuel req) (hmore : more sv.store req) :
    Admitted more s i := by
  have hstore : s.kernel.fs.asStore = sv.store := h.store
  rw [Admitted, hc]
  exact ⟨hfuel, admitsRequest_congr hstore h.net hok, hstore ▸ hmore⟩

/-- **A request is answered**, and the shell is at its prompt again. -/
theorem Stands.answered {req : OsMessage} {j k : Input}
    (h : Stands count root (.send req false) s sv [] []) (hreq : IsRequest req) (hfuel : 0 < i.fuel)
    (hok : sv.AdmitsRequest i.fuel req) (hmore : more sv.store req) (hk : k.batch.chars = []) :
    ∃ letter sv', sv.request fmtValue i.fuel i.loc req = (some letter, sv') ∧
      Leads fmtValue more s [i, j, k] [.answered letter] fun s' => Prompt count root s' sv' := by
  have hnone : s.kernel.ipc.messages = [] := h.keys.nil
  have hsound : MailboxSound s := by
    refine ⟨h.serves.valid, ?_⟩
    rw [h.control, hnone]
    exact ⟨hreq, Nat.zero_le _, fun m hm => absurd hm List.not_mem_nil⟩
  obtain ⟨k', m, sv', hanswer, hvalid, hmessages, htype, hserves, hstep⟩ :=
    @shell_send fmtValue _ _ _ i _ _ _ hsound h.serves h.control hfuel hok
  rw [hnone, List.nil_append] at hmessages
  obtain ⟨ipc, hipc, hrest, hreply⟩ := @waiting_reply fmtValue
    { s with kernel := k', control := .waiting (respType req.type) false } j _ _ m [] hvalid rfl hmessages
    htype
  have hempty : Keys ipc.messages [] := by
    rw [hrest]
    exact ⟨fun m hm => absurd hm List.not_mem_nil, rfl⟩
  obtain ⟨hdrained, hkeys⟩ := @drained_keys _ k.batch ipc hipc hempty (by simp [hk])
  rw [hk] at hkeys
  have hadmitted : Admitted more s i := admitted_of_send h.control h.serves hfuel hok hmore
  refine ⟨m.letter, sv', hanswer, ⟨hadmitted, ?_, ?_, trivial⟩, ?_, ?_⟩
  · rw [hstep]
    trivial
  · rw [hstep, hreply]
    trivial
  all_goals
    rw [run_cons, hstep, run_cons, hreply, run_cons, run_nil]
    simp only [shellStep]
  · refine (said_input _ _).trans ?_
    exact List.filterMap_append
  · exact ⟨serves_withIpc (serves_withIpc hserves hipc) hdrained, rfl, h.line, hkeys⟩

/-- The service answers every request. -/
theorem request_answered {fuel : ℕ} {loc : Locals} {req : OsMessage} (h : IsRequest req) :
    ∃ letter sv', sv.request fmtValue fuel loc req = (some letter, sv') := by
  obtain ⟨-, h⟩ := h
  simp only [List.mem_cons, List.not_mem_nil, or_false] at h
  rcases h with ht | ht | ht | ht | ht | ht
  · exact ⟨_, _, Service.request_list ht⟩
  · exact ⟨_, _, Service.request_read ht⟩
  · exact ⟨_, _, Service.request_write ht⟩
  · exact ⟨_, _, Service.request_exec ht⟩
  · exact ⟨_, _, Service.request_dump ht⟩
  · exact ⟨_, _, Service.request_sync ht⟩

/-- **A turn**: a line is typed, executed and answered. -/
theorem Turn.leads {t : Turn} (h : Prompt count root s sv) (hok : t.Comes more sv) :
    Leads fmtValue more s t.inputs (t.said fmtValue sv).1
      fun s' => Prompt count root s' (t.said fmtValue sv).2 := by
  obtain ⟨htypeable, htypes, hcomes⟩ := hok
  have htyped : Leads fmtValue more s t.typing (saidTyping t.line)
      fun s' => Stands count root (controlOf t.action) s' sv [] [] := by
    have hleads := @Types.leads fmtValue _ _ _ _ _ _ t.line more _ _ _ _ htypes h htypeable rfl rfl
    rwa [saidTyping, List.map_append, List.append_assoc]
  cases hc : t.action with
  | request req =>
      rw [hc] at hcomes htyped
      obtain ⟨hquiet, hfuel, hadmitted, hmore⟩ := hcomes
      have hreq : IsRequest req := isRequest_of_command hc
      obtain ⟨letter, sv', hanswer⟩ := @request_answered fmtValue sv t.serve.fuel t.serve.loc req hreq
      have hsaid : t.said fmtValue sv = (saidTyping t.line ++ [.answered letter], sv') := by
        simp only [Turn.said, hc, hanswer]
      simp only [Turn.inputs, hc, hsaid]
      refine htyped.append fun s' h' => ?_
      obtain ⟨letter', sv'', hanswer', hleads⟩ := @Stands.answered fmtValue _ _ _ _ t.serve more _
        t.receive t.settle h' hreq hfuel hadmitted hmore hquiet
      obtain ⟨hletter, rfl⟩ := Prod.mk.inj (hanswer.symm.trans hanswer')
      obtain rfl := Option.some.inj hletter
      exact hleads
  | listen =>
      rw [hc] at hcomes
      exact hcomes.elim
  | print =>
      rw [hc] at htyped
      simp only [Turn.inputs, Turn.said, hc, List.append_nil]
      exact htyped

end

/-! ### Scripts -/

/-- **A script is carried out.**  From the prompt, where each line is typed when the one before is
done, every line is executed and every request is answered: the shell says what the service says
to the lines, and is at its prompt again. -/
theorem script_answered (fmtValue : Value → List Char) {more : Store → OsMessage → Prop} {count : ℕ}
    {root : List ℕ} {s : ShellState} {sv : Service} (h : Prompt count root s sv) (script : List Turn)
    (hok : StepsMeet (next (Turn.said fmtValue)) (Turn.Comes more) sv script) :
    Leads fmtValue more s (script.flatMap Turn.inputs) (answers (Turn.said fmtValue) sv script).flatten
      fun s' => Prompt count root s' (run (next (Turn.said fmtValue)) sv script) := by
  induction script generalizing s sv with
  | nil => exact ⟨trivial, (List.append_nil _).symm, h⟩
  | cons t script ih => exact (Turn.leads h hok.1).append fun s' h' => ih h' hok.2

/-- A shell that starts is at its prompt. -/
theorem prompt_start {kernel : KernelState} {count : ℕ} {root : List ℕ}
    (h : kernel.fs.Orderly count root) {w : WatcherState} (hw : kernel.watcher = watcherInit w)
    (hticks : ∀ n, kernel.timer n ≠ 0) : Prompt count root (shellStart kernel) (service kernel) where
  serves := (shows_start h hw hticks).serves
  control := rfl
  line := rfl
  keys := by
    have hnone : (shellStart kernel).kernel.ipc.messages = [] := Rings.between_self _ _ _
    rw [hnone]
    exact ⟨fun m hm => absurd hm List.not_mem_nil, rfl⟩

/-! ### Lines that come at once -/

/-- A step to which the hardware brings nothing, with as much fuel. -/
def idle (fuel : ℕ) : Input := { quiet with fuel := fuel }

/-- The turn of a line that comes in one batch. -/
def Turn.atOnce (fuel : ℕ) (line : List UInt8) (nonzero : ∀ c ∈ line ++ [10], c ≠ 0) : Turn where
  line := line
  typing := bringing (line ++ [10]) nonzero :: List.replicate (2 * line.length + 1) (idle fuel)
  enter := idle fuel
  serve := idle fuel
  receive := idle fuel
  settle := idle fuel

/-- What is in the mailbox is received. -/
theorem types_pending {fuel : ℕ} {line : List UInt8} (h : (10 : UInt8) ∉ line) :
    Types (idle fuel) (line ++ [10]) [] (List.replicate (2 * line.length + 2) (idle fuel)) := by
  induction line with
  | nil => exact @Types.newline (idle fuel) [10] (idle fuel) rfl
  | cons c line ih =>
      rw [List.mem_cons, not_or] at h
      have hbatch : (c :: line ++ [10]) ++ (idle fuel).batch.chars = c :: (line ++ [10]) := by
        simp [idle, quiet, bringing, Batch.chars]
      exact @Types.char (idle fuel) _ _ [] c _ (idle fuel) _ hbatch (Ne.symm h.1) (ih h.2)

/-- A line is typed so. -/
theorem Turn.typed_atOnce {fuel : ℕ} {line : List UInt8} (nonzero : ∀ c ∈ line ++ [10], c ≠ 0)
    (hfuel : 0 < fuel) (h : Typeable line) : (Turn.atOnce fuel line nonzero).Typed := by
  refine ⟨?_, rfl, hfuel⟩
  have hno (b : UInt8) (hb : b ∈ [0, 8, 10, 13]) : b ∉ line := fun hmem => h.plain b hmem hb
  have hchars : (bringing (line ++ [10]) nonzero).batch.chars = line ++ [10] := by
    have hmap : (line ++ [10]).map uartChar = line ++ [10] := by
      refine (List.map_congr_left fun b hb => ?_).trans (List.map_id _)
      have hb13 : b ≠ 13 := by
        rintro rfl
        exact hno 13 (by simp) (by simpa using hb)
      rw [uartChar, if_neg hb13, id]
    exact hmap
  obtain ⟨c, line, rfl⟩ := List.exists_cons_of_ne_nil h.ne_nil
  have hc : c ≠ 10 := by
    rintro rfl
    exact hno 10 (by simp) List.mem_cons_self
  have hpending := @types_pending fuel line fun hmem => hno 10 (by simp) (List.mem_cons_of_mem _ hmem)
  have htypes := @Types.char (idle fuel) [] (line ++ [10]) [] c
    (bringing (c :: line ++ [10]) nonzero) (idle fuel) _ (hchars.trans List.cons_append) hc hpending
  rw [hchars, List.append_nil] at htypes
  exact htypes

/-- The file `A` is read. -/
def readTurn : Turn := .atOnce 1 (ascii "s.read A") (forall_mem_of_all (by decide))

theorem script_reads :
    (run (shellStep fun _ => []) (shellStart (kernelOn (oneFileVolume (ascii "A") (ascii "hi"))))
        ([readTurn].flatMap Turn.inputs)).said =
      saidTyping (ascii "s.read A") ++
        [.answered ⟨sysModKernel, sysModGuiShell, .fsReadResp, 3, ascii "hi"⟩] := by
  have hvolume : (oneFileVolume (ascii "A") (ascii "hi")).Consistent 126 [2] :=
    oneFileVolume_consistent (by decide)
  have hprompt : Prompt 126 [2] (shellStart (kernelOn (oneFileVolume (ascii "A") (ascii "hi"))))
      (service (kernelOn (oneFileVolume (ascii "A") (ascii "hi")))) :=
    prompt_start (hvolume.orderly fun _ => rfl) rfl fun _ => (by decide : (1 : UInt64) ≠ 0)
  have htypeable : Typeable (ascii "s.read A") := ⟨by decide, by decide, forall_mem_of_all (by decide)⟩
  have htyped : readTurn.Typed := Turn.typed_atOnce _ Nat.one_pos htypeable
  have haction : readTurn.action = .request (readRequest (fun _ => 0) (ascii "A")) := rfl
  have hstring : stringAt (readRequest (fun _ => 0) (ascii "A")).payload = ascii "A" :=
    stringAt_nameRequest .fsReadReq (by decide) (by decide)
  have hread : (oneFileVolume (ascii "A") (ascii "hi")).asStore.read (formatFatName (ascii "A")) 255 =
      ascii "hi" := by decide +kernel
  have hforeign : ¬ (oneFileVolume (ascii "A") (ascii "hi")).asStore.Foreign
      (formatFatName (ascii "A")) := by decide +kernel
  have hok : readTurn.Comes (fun _ _ => True)
      (service (kernelOn (oneFileVolume (ascii "A") (ascii "hi")))) := by
    refine ⟨htypeable, htyped.types, ?_⟩
    rw [haction]
    refine ⟨rfl, Nat.one_pos, ⟨?_, ?_⟩, trivial⟩
    · rw [hstring]
      decide
    · rw [hstring]
      exact hforeign
  refine (script_answered (fun _ => []) hprompt [readTurn] ⟨hok, trivial⟩).said.trans ?_
  have hreq := @Service.request_read (fun _ => []) readTurn.serve.fuel readTurn.serve.loc
    (readRequest (fun _ => 0) (ascii "A"))
    (service (kernelOn (oneFileVolume (ascii "A") (ascii "hi")))) rfl
  rw [hstring, show (service (kernelOn (oneFileVolume (ascii "A") (ascii "hi")))).store.read
    (formatFatName (ascii "A")) 255 = ascii "hi" from hread] at hreq
  simp only [answers, Turn.said, haction, hreq]
  rfl

end Shell
end AiOsExchange
