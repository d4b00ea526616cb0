/-
# A dialogue at the prompt

What `shell_main` of `modules/shell_gui/main.c` is for, apart from the mailbox, the messages and
the kernel behind them.  A dialogue has the service of the kernel, the line that is being typed, and
a phase.

| phase | move | what is said |
| --- | --- | --- |
| `idle` | a character is acted on | it was typed, and at the end of a line the line is executed |
| `asked` | the service is asked | |
| `owed` | its answer comes | the answer |
| `listening` | a line of trades is captured | |

What the shell keeps in its log, apart from what the hardware gave to the drains, is what a dialogue
says (`shell_dialogue`): for every run of the shell on a volume in order, with a device that does
not fail and requests that are admitted.
-/

import AiOsExchange.Kernel.Serves
import AiOsExchange.Shell.Answered
import AiOsExchange.Shell.Typed

namespace AiOsExchange
namespace Shell

open CMemory Computations Watcher Autarky Fat32 Kernel Rings Runs

/-! ### Dialogues -/

/-- What the user sees. -/
inductive Said
  | typed (c : UInt8)
  | executed (line : List UInt8)
  | answered (letter : Letter)
  deriving DecidableEq

/-- Where a dialogue is. -/
inductive Phase
  | idle
  | asked (req : OsMessage) (listening : Bool)
  | owed (letter : Letter) (listening : Bool)
  | listening

/-- The service, the line that is being typed, and the phase. -/
structure Dialogue where
  service : Service
  line : List UInt8
  phase : Phase

/-- A move, with what was in a message before and what is on the kernel's stack. -/
inductive Move
  | key (c : UInt8) (pay : Buf)
  | serve (loc : Locals) (fuel : ℕ)
  | come
  | capture (pay : Buf) (line : List UInt8)

namespace Dialogue

/-- Where a command leads. -/
def phaseOf : Action → Phase
  | .request req => .asked req false
  | .listen => .listening
  | .print => .idle

/-- The end of a line. -/
def enter (pay : Buf) (t : Dialogue) : List Said × Dialogue :=
  if t.line = [] then ([], t)
  else
    let line := t.line.takeWhile (· ≠ 0)
    ([.executed line], { t with line := [], phase := phaseOf (command pay line) })

/-- A character. -/
def key (pay : Buf) (c : UInt8) (t : Dialogue) : List Said × Dialogue :=
  if c = 10 ∨ c = 13 then (.typed c :: (t.enter pay).1, (t.enter pay).2)
  else
    ([.typed c],
      { t with
        line :=
          if c = 8 then t.line.dropLast
          else if t.line.length < cmdMaxLen - 1 then t.line ++ [c]
          else t.line })

/-- A move, with what is said. -/
def step (fmtValue : Value → List Char) (t : Dialogue) (m : Move) : List Said × Dialogue :=
  match t.phase, m with
  | .idle, .key c pay => t.key pay c
  | .asked req listening, .serve loc fuel =>
      match t.service.request fmtValue fuel loc req with
      | (some letter, service) => ([], { t with service := service, phase := .owed letter listening })
      | (none, _) => ([], t)
  | .owed letter listening, .come =>
      ([.answered letter], { t with phase := if listening then .listening else .idle })
  | .listening, .capture pay line => ([], { t with phase := .asked (tradeRequest pay line) true })
  | _, _ => ([], t)

/-- A request is admitted by the service, and `more` holds of it and of the files. -/
def Admits (more : Store → OsMessage → Prop) (t : Dialogue) : Move → Prop
  | .serve _ fuel => ∀ req listening, t.phase = .asked req listening →
      t.service.AdmitsRequest fuel req ∧ more t.service.store req
  | _ => True

/-- A dialogue that begins. -/
def start (service : Service) : Dialogue := ⟨service, [], .idle⟩

end Dialogue

/-! ### What the shell says -/

/-- An event, but for the input of the hardware. -/
def Event.said : Event → Option Said
  | .input _ => none
  | .typed c => some (.typed c)
  | .executed line => some (.executed line)
  | .replied reply => some (.answered reply.letter)

/-- What is in the log. -/
def ShellState.said (s : ShellState) : List Said := s.log.filterMap Event.said

/-- The service that the kernel is, but for its trail and its inbox. -/
def service (k : KernelState) : Service := .boot k.fs.asStore k.net k.timer

/-- A request is sent that the service admits, and `more` holds of it and of the files. -/
def Admitted (more : Store → OsMessage → Prop) (s : ShellState) (i : Input) : Prop :=
  match s.control with
  | .send req _ =>
      0 < i.fuel ∧ (service s.kernel).AdmitsRequest i.fuel req ∧ more s.kernel.fs.asStore req
  | _ => True

/-- The letters in the mailbox. -/
def letters (q : Mailbox) : List Letter := q.messages.map OsMessage.letter

/-- The place of the loop and the phase of the dialogue. -/
def Matches : Control → List Letter → Phase → Prop
  | .drain, _, .idle => True
  | .receive, _, .idle => True
  | .drained, _, .idle => True
  | .send req listening, _, .asked req' listening' => req = req' ∧ listening = listening'
  | .waiting _ listening, ls, .owed letter listening' =>
      listening = listening' ∧ ls.getLast? = some letter
  | .listen _ _, _, .listening => True
  | _, _, _ => False

section
variable {control : Control} {ls : List Letter} {phase : Phase}

theorem Matches.eq_idle (h : Matches control ls phase)
    (hcontrol : control = .drain ∨ control = .receive ∨ control = .drained) : phase = .idle := by
  cases phase with
  | idle => rfl
  | _ => rcases hcontrol with rfl | rfl | rfl <;> exact h.elim

theorem Matches.eq_asked {req : OsMessage} {listening : Bool}
    (h : Matches (.send req listening) ls phase) : phase = .asked req listening := by
  cases phase with
  | asked req' listening' =>
      obtain ⟨rfl, rfl⟩ := h
      rfl
  | _ => exact h.elim

theorem Matches.eq_owed {type : IpcMsg} {listening : Bool} (h : Matches (.waiting type listening) ls phase) :
    ∃ letter, phase = .owed letter listening ∧ ls.getLast? = some letter := by
  cases phase with
  | owed letter listening' =>
      obtain ⟨rfl, hlast⟩ := h
      exact ⟨letter, rfl, hlast⟩
  | _ => exact h.elim

theorem Matches.eq_listening {tradePayload : List UInt8} {timeoutCounter : ℕ}
    (h : Matches (.listen tradePayload timeoutCounter) ls phase) : phase = .listening := by
  cases phase with
  | listening => rfl
  | _ => exact h.elim

end

/-- **The shell is in the state of the dialogue.** -/
structure Shows (count : ℕ) (root : List ℕ) (s : ShellState) (t : Dialogue) : Prop where
  sound : MailboxSound s
  serves : s.kernel.Serves count root { t.service with inbox := letters s.kernel.ipc }
  line : s.cmdBuffer = t.line
  phase : Matches s.control (letters s.kernel.ipc) t.phase

section
variable {fmtValue : Value → List Char} {count : ℕ} {root : List ℕ} {s : ShellState} {t : Dialogue}
  {i : Input} {more : Store → OsMessage → Prop}

/-- The kernel after a change of the mailbox. -/
theorem serves_withIpc {k : KernelState} {sv : Service} {inbox : List Letter} {q : Mailbox}
    (h : k.Serves count root { sv with inbox := inbox }) (hq : q.Valid) :
    ({ k with ipc := q }).Serves count root { sv with inbox := letters q } where
  orderly := h.orderly
  store := h.store
  valid := hq
  inbox := rfl
  recorded := h.recorded
  net := h.net
  timer := h.timer
  ticks := h.ticks

/-- What the hardware gives is not said. -/
theorem said_input (log : List Event) (cs : List UInt8) :
    (log ++ cs.map Event.input).filterMap Event.said = log.filterMap Event.said := by
  have hnone : (cs.map Event.input).filterMap Event.said = [] := by
    rw [List.filterMap_map]
    exact List.filterMap_eq_nil_iff.2 fun c _ => rfl
  rw [List.filterMap_append, hnone, List.append_nil]

/-- A drain is not noticed. -/
theorem shows_drain (h : Shows count root s t) (hidle : t.phase = .idle) {control : Control}
    (hstep : shellStep fmtValue s i = { drainStep i.batch s with control := control })
    (hcontrol : control = .drain ∨ control = .receive) :
    Accounts ShellState.said (Dialogue.step fmtValue) (Dialogue.Admits more) (Shows count root) s t
      (shellStep fmtValue s i) := by
  have hsound : MailboxSound (shellStep fmtValue s i) := mailboxSound_step h.sound
  rw [hstep] at hsound ⊢
  refine .stay (said_input _ _) ⟨hsound, serves_withIpc h.serves hsound.valid, h.line, ?_⟩
  rw [hidle]
  rcases hcontrol with rfl | rfl <;> trivial

/-- The line editor makes the move of the dialogue. -/
structure Moves (s' : ShellState) (said : List Said) (t' : Dialogue) : Prop where
  said : s'.said = said
  line : s'.cmdBuffer = t'.line
  phase : ∀ ls, Matches s'.control ls t'.phase

theorem matches_phaseOf (a : Action) (ls : List Letter) :
    Matches (match a with
      | .request req => .send req false
      | .listen => .listen [] 0
      | .print => .drain) ls (Dialogue.phaseOf a) := by
  cases a with
  | request req => exact ⟨rfl, rfl⟩
  | listen => trivial
  | print => trivial

theorem moves_enterLine {pay : Buf} (hline : s.cmdBuffer = t.line) (hidle : t.phase = .idle) :
    Moves (enterLine pay s) (s.said ++ (t.enter pay).1) (t.enter pay).2 := by
  unfold enterLine Dialogue.enter
  rw [hline]
  split_ifs with hnil
  · exact ⟨(List.append_nil _).symm, rfl, fun _ => by rw [hidle]; trivial⟩
  · exact ⟨List.filterMap_append, rfl, fun ls => matches_phaseOf _ ls⟩

theorem moves_typeChar {pay : Buf} {c : UInt8} (hline : s.cmdBuffer = t.line)
    (hidle : t.phase = .idle) :
    Moves (typeChar pay c s) (s.said ++ (t.key pay c).1) (t.key pay c).2 := by
  have htyped : (s.log ++ [Event.typed c]).filterMap Event.said = s.said ++ [.typed c] :=
    List.filterMap_append
  unfold typeChar Dialogue.key
  simp only [hline]
  split_ifs with hnl hbs hlen
  · have henter := @moves_enterLine { s with cmdBuffer := t.line, log := s.log ++ [.typed c] } t pay
      rfl hidle
    refine ⟨henter.said.trans ?_, henter.line, henter.phase⟩
    rw [ShellState.said, htyped, List.append_assoc, List.singleton_append]
  all_goals exact ⟨htyped, rfl, fun _ => by simp only [hidle]; trivial⟩

/-- **A character that is received** is a move of the dialogue. -/
theorem shows_key {ipc : Mailbox} {c : UInt8} {pay : Buf} (h : Shows count root s t)
    (hidle : t.phase = .idle) (hipc : ipc.Valid)
    (hstep : shellStep fmtValue s i = typeChar pay c { s with kernel := { s.kernel with ipc := ipc } }) :
    Accounts ShellState.said (Dialogue.step fmtValue) (Dialogue.Admits more) (Shows count root) s t
      (shellStep fmtValue s i) := by
  have hsound : MailboxSound (shellStep fmtValue s i) := mailboxSound_step h.sound
  have hmove : Dialogue.step fmtValue t (.key c pay) = t.key pay c := by simp only [Dialogue.step, hidle]
  have hmoves := @moves_typeChar { s with kernel := { s.kernel with ipc := ipc } } t pay c h.line hidle
  have hkernel := (typeChar_control pay c { s with kernel := { s.kernel with ipc := ipc } }).1
  have hservice : (t.key pay c).2.service = t.service := by
    unfold Dialogue.key Dialogue.enter
    split_ifs <;> rfl
  rw [hstep] at hsound ⊢
  refine .one (.key c pay) trivial ?_ ?_
  · rw [hmove]
    exact hmoves.said
  · rw [hmove]
    refine ⟨hsound, ?_, hmoves.line, hmoves.phase _⟩
    rw [hkernel, hservice]
    exact serves_withIpc h.serves hipc

/-- A character of the UART leads to the next, or to the request of a line. -/
theorem captureChar_line (pay : Buf) (c : UInt8) (tradePayload : List UInt8) (timeoutCounter : ℕ) :
    (∃ tradePayload' timeoutCounter',
      captureChar pay c tradePayload timeoutCounter = .listen tradePayload' timeoutCounter') ∨
      ∃ line, captureChar pay c tradePayload timeoutCounter = .send (tradeRequest pay line) true := by
  have hline (line : List UInt8) :
      (∃ tradePayload' timeoutCounter', captureLine pay line = .listen tradePayload' timeoutCounter') ∨
        ∃ line', captureLine pay line = .send (tradeRequest pay line') true := by
    unfold captureLine
    split_ifs
    · exact .inr ⟨line, rfl⟩
    · exact .inl ⟨_, _, rfl⟩
  unfold captureChar
  split_ifs
  · exact .inl ⟨_, _, rfl⟩
  · exact .inl ⟨_, _, rfl⟩
  · exact hline _
  · exact .inl ⟨_, _, rfl⟩
  · exact hline _

/-- What a request is admitted for. -/
theorem admitsRequest_congr {sv sv' : Service} {fuel : ℕ} {req : OsMessage}
    (hstore : sv.store = sv'.store) (hnet : sv.net = sv'.net) (hok : sv'.AdmitsRequest fuel req) :
    sv.AdmitsRequest fuel req := by
  have hsource : sv.source req = sv'.source req := by rw [Service.source, Service.source, hstore]
  rw [Service.AdmitsRequest, ← hstore, ← hnet, ← hsource] at hok
  exact hok

/-- **A request is answered** by the service, and its answer is the last message of the mailbox. -/
theorem shell_send {req : OsMessage} {listening : Bool} {sv : Service} (hsound : MailboxSound s)
    (hserves : s.kernel.Serves count root { sv with inbox := letters s.kernel.ipc })
    (hc : s.control = .send req listening) (hfuel : 0 < i.fuel)
    (hok : sv.AdmitsRequest i.fuel req) :
    ∃ k' m sv', sv.request fmtValue i.fuel i.loc req = (some m.letter, sv') ∧
      k'.ipc.Valid ∧ k'.ipc.messages = s.kernel.ipc.messages ++ [m] ∧ m.type = respType req.type ∧
      k'.Serves count root { sv' with inbox := letters k'.ipc } ∧
      shellStep fmtValue s i =
        { s with kernel := k', control := .waiting (respType req.type) listening } := by
  have hexp := hsound.expected
  rw [hc] at hexp
  obtain ⟨hreq, hlen, -⟩ := hexp
  have hrequest : ({ sv with inbox := letters s.kernel.ipc }).AdmitsRequest i.fuel req := hok
  obtain ⟨reply, k', hreply, hletter, hafter⟩ :=
    @KernelState.Serves.handles fmtValue i.fuel i.loc req _ _ _ _ hserves hfuel hrequest
  obtain ⟨m, rfl, htype, hipc⟩ := handleRequest_reply hreq hreply
  have hsend : sysIpcSend fmtValue i.fuel i.loc req s.kernel =
      (.ok (), { k' with ipc := ipcKernelSend m k'.ipc }) := by
    rw [sysIpcSend, if_pos hreq.1, Comp.bind_of_ok hreply]
    rfl
  have hvalid : (ipcKernelSend m k'.ipc).Valid := by
    rw [hipc]
    exact valid_ipcKernelSend m hsound.valid
  rw [Service.request_inbox, Option.map_some] at hletter
  rw [Service.request_inbox] at hafter
  refine ⟨{ k' with ipc := ipcKernelSend m k'.ipc }, m,
    (sv.request fmtValue i.fuel i.loc req).2, Prod.ext hletter.symm rfl, hvalid, ?_, htype,
    serves_withIpc hafter hvalid, ?_⟩
  · rw [hipc, messages_ipcKernelSend m hsound.valid, if_pos (by omega)]
  · simp only [shellStep, hc, hsend]

/-- **A request** is a move too. -/
theorem shows_send {req : OsMessage} {listening : Bool} (h : Shows count root s t)
    (hc : s.control = .send req listening) (hasked : t.phase = .asked req listening)
    (hok : Admitted more s i) :
    Accounts ShellState.said (Dialogue.step fmtValue) (Dialogue.Admits more) (Shows count root) s t
      (shellStep fmtValue s i) := by
  rw [Admitted, hc] at hok
  have hrequest : t.service.AdmitsRequest i.fuel req :=
    admitsRequest_congr h.serves.store.symm h.serves.net.symm hok.2.1
  obtain ⟨k', m, sv', hanswer, -, hmessages, -, hserves, hstep⟩ :=
    @shell_send fmtValue _ _ _ i _ _ _ h.sound h.serves hc hok.1 hrequest
  have hsound : MailboxSound (shellStep fmtValue s i) := mailboxSound_step h.sound
  have hmove : Dialogue.step fmtValue t (.serve i.loc i.fuel) =
      ([], { t with service := sv', phase := .owed m.letter listening }) := by
    simp only [Dialogue.step, hasked]
    rw [hanswer]
  have hadm : t.Admits more (.serve i.loc i.fuel) := by
    intro req' listening' hasked'
    obtain ⟨rfl, rfl⟩ := Phase.asked.inj (hasked.symm.trans hasked')
    have hstore : s.kernel.fs.asStore = t.service.store := h.serves.store
    exact ⟨hrequest, hstore ▸ hok.2.2⟩
  rw [hstep] at hsound ⊢
  refine .one (.serve i.loc i.fuel) hadm ?_ ?_
  · rw [hmove]
    exact (List.append_nil _).symm
  · rw [hmove]
    refine ⟨hsound, hserves, h.line, rfl, ?_⟩
    rw [letters, hmessages, List.map_append, List.getLast?_append]
    rfl

/-- **The answer comes**, behind key presses that are passed over. -/
theorem shows_waiting {type : IpcMsg} {listening : Bool} {letter : Letter} (h : Shows count root s t)
    (hc : s.control = .waiting type listening) (howed : t.phase = .owed letter listening)
    (hlast : (letters s.kernel.ipc).getLast? = some letter) :
    Accounts ShellState.said (Dialogue.step fmtValue) (Dialogue.Admits more) (Shows count root) s t
      (shellStep fmtValue s i) := by
  have hsound : MailboxSound (shellStep fmtValue s i) := mailboxSound_step h.sound
  have hexp := h.sound.expected
  rw [hc] at hexp
  obtain ⟨hne, keys, reply, hms, htype, hkeys⟩ := hexp
  have hletter : reply.letter = letter := by
    rw [letters, hms, List.map_append, List.getLast?_append] at hlast
    exact Option.some.inj hlast
  cases keys with
  | nil =>
      obtain ⟨ipc, hvalid, hrest, hstep⟩ := @waiting_reply fmtValue s i _ _ _ _ h.sound.valid hc hms htype
      have hmove : Dialogue.step fmtValue t .come = ([.answered letter],
          { t with phase := if listening then .listening else .idle }) := by
        simp only [Dialogue.step, howed]
      rw [hstep] at hsound ⊢
      refine .one .come trivial ?_ ?_
      · rw [hmove, ← hletter]
        exact List.filterMap_append
      · rw [hmove]
        refine ⟨hsound, serves_withIpc h.serves hvalid, h.line, ?_⟩
        cases listening <;> trivial
  | cons m keys =>
      have hkey := hkeys m List.mem_cons_self
      obtain ⟨ipc, hvalid, hrest, hstep⟩ := @waiting_key fmtValue s i _ _ _ _ h.sound.valid hc hms
        (fun heq => hne (heq.symm.trans hkey.1))
      rw [hstep] at hsound ⊢
      refine .stay rfl ⟨hsound, serves_withIpc h.serves hvalid, h.line, ?_⟩
      simp only [hc, howed]
      refine ⟨rfl, ?_⟩
      have hmessages : ipc.messages = keys ++ [reply] := hrest
      rw [letters, hmessages, List.map_append, List.getLast?_append, ← hletter]
      rfl

/-- **A captured line** is a move, its characters are none. -/
theorem shows_listen {tradePayload : List UInt8} {timeoutCounter : ℕ} (h : Shows count root s t)
    (hc : s.control = .listen tradePayload timeoutCounter) (hphase : t.phase = .listening) :
    Accounts ShellState.said (Dialogue.step fmtValue) (Dialogue.Admits more) (Shows count root) s t
      (shellStep fmtValue s i) := by
  have hsound : MailboxSound (shellStep fmtValue s i) := mailboxSound_step h.sound
  have hstep : shellStep fmtValue s i =
      { s with control := captureChar i.pay i.uart tradePayload timeoutCounter } := by
    simp only [shellStep, hc]
  rw [hstep] at hsound ⊢
  obtain ⟨payload', timeout', hl⟩ | ⟨line, hs⟩ :=
    captureChar_line i.pay i.uart tradePayload timeoutCounter
  · refine .stay rfl ⟨hsound, h.serves, h.line, ?_⟩
    simp only [hl, hphase]
    trivial
  · have hmove : Dialogue.step fmtValue t (.capture i.pay line) =
        ([], { t with phase := .asked (tradeRequest i.pay line) true }) := by
      simp only [Dialogue.step, hphase]
    refine .one (.capture i.pay line) trivial ?_ ?_
    · rw [hmove]
      exact (List.append_nil _).symm
    · rw [hmove]
      refine ⟨hsound, h.serves, h.line, ?_⟩
      simp only [hs]
      exact ⟨rfl, rfl⟩

/-- A step in a dialogue that is idle. -/
theorem shows_receive (h : Shows count root s t) (hc : s.control = .receive)
    (hidle : t.phase = .idle) :
    Accounts ShellState.said (Dialogue.step fmtValue) (Dialogue.Admits more) (Shows count root) s t
      (shellStep fmtValue s i) := by
  have hsound : MailboxSound (shellStep fmtValue s i) := mailboxSound_step h.sound
  cases hms : s.kernel.ipc.messages with
  | nil =>
      have hstep : shellStep fmtValue s i = { s with control := .drain } :=
        receive_nothing h.sound.valid hc hms
      rw [hstep] at hsound ⊢
      refine .stay rfl ⟨hsound, h.serves, h.line, ?_⟩
      rw [hidle]
      trivial
  | cons m ms =>
      have hexp := h.sound.expected
      rw [hc, hms] at hexp
      obtain ⟨ipc, hvalid, -, hstep⟩ :=
        @receive_key fmtValue s i m ms h.sound.valid hc hms (hexp m List.mem_cons_self)
      exact shows_key h hidle hvalid hstep

end

/-! ### Runs -/

/-- **Every step of the shell is a move of the dialogue, or none.** -/
theorem shell_stutters (fmtValue : Value → List Char) (more : Store → OsMessage → Prop) (count : ℕ)
    (root : List ℕ) :
    Stuttering (shellStep fmtValue) (Admitted more) ShellState.said (Dialogue.step fmtValue)
      (Dialogue.Admits more) (Shows count root) := by
  intro s t i h hok
  have hphase := h.phase
  cases hc : s.control with
  | drain =>
      have hp := hphase.eq_idle (.inl hc)
      exact shows_drain h hp (by simp only [shellStep, hc]) (.inr rfl)
  | receive => exact shows_receive h hc (hphase.eq_idle (.inr (.inl hc)))
  | send req listening =>
      rw [hc] at hphase
      exact shows_send h hc hphase.eq_asked hok
  | waiting type listening =>
      rw [hc] at hphase
      obtain ⟨letter, hp, hlast⟩ := hphase.eq_owed
      exact shows_waiting h hc hp hlast
  | drained =>
      have hp := hphase.eq_idle (.inr (.inr hc))
      exact shows_drain h hp (by simp only [shellStep, hc]) (.inl rfl)
  | listen tradePayload timeoutCounter =>
      rw [hc] at hphase
      exact shows_listen h hc hphase.eq_listening

/-- The shell that starts on a kernel that has been booted. -/
theorem shows_start {kernel : KernelState} {count : ℕ} {root : List ℕ}
    (h : kernel.fs.Orderly count root) {w : WatcherState} (hw : kernel.watcher = watcherInit w)
    (hticks : ∀ n, kernel.timer n ≠ 0) :
    Shows count root (shellStart kernel) (.start (service kernel)) where
  sound := mailboxSound_start kernel
  serves := by
    have hserves : (shellStart kernel).kernel.Serves count root (service kernel) :=
      KernelState.serves_boot h hw rfl rfl hticks
    have hnone : letters (shellStart kernel).kernel.ipc = [] := by
      rw [letters, hserves.inbox]
      rfl
    rw [hnone]
    exact hserves
  line := rfl
  phase := trivial

/-- **What the shell says is a dialogue.**  On a volume in order, with a device that does not fail, a
timer that does not read zero and requests that the service admits, a run of the shell says what
moves of a dialogue say, which begins with the files of the volume. -/
theorem shell_dialogue (fmtValue : Value → List Char) (more : Store → OsMessage → Prop)
    {kernel : KernelState} {count : ℕ} {root : List ℕ} (h : kernel.fs.Orderly count root) {w : WatcherState}
    (hw : kernel.watcher = watcherInit w) (hticks : ∀ n, kernel.timer n ≠ 0) (inputs : List Input)
    (hok : StepsMeet (shellStep fmtValue) (Admitted more) (shellStart kernel) inputs) :
    ∃ moves, StepsMeet (next (Dialogue.step fmtValue)) (Dialogue.Admits more) (.start (service kernel))
        moves ∧
      (run (shellStep fmtValue) (shellStart kernel) inputs).said =
        (answers (Dialogue.step fmtValue) (.start (service kernel)) moves).flatten ∧
      Shows count root (run (shellStep fmtValue) (shellStart kernel) inputs)
        (run (next (Dialogue.step fmtValue)) (.start (service kernel)) moves) := by
  obtain ⟨moves, hadm, hsaid, hshows⟩ := (shell_stutters fmtValue more count root).run (shows_start h hw hticks) hok
  exact ⟨moves, hadm, hsaid, hshows⟩

/-- A listing. -/
def listingInputs : List Input :=
  bringing (ascii "s.list\n") (forall_mem_of_all (by decide)) ::
    List.replicate 16 { quiet with fuel := 1 }

/-- A listing is all that is sent. -/
def listsAlone (s : ShellState) (i : Input) : Bool :=
  match s.control with
  | .send req _ => decide (0 < i.fuel) && decide (req.type = .fsListReq)
  | _ => true

theorem admitted_of_listsAlone {s : ShellState} {i : Input} (h : listsAlone s i = true) :
    Admitted (fun _ _ => True) s i := by
  unfold listsAlone at h
  unfold Admitted
  split at h
  · simp only [Bool.and_eq_true, decide_eq_true_eq] at h
    refine ⟨h.1, ?_, trivial⟩
    rw [Service.AdmitsRequest, h.2]
    trivial
  · trivial

/-- A line is typed, and the volume is listed. -/
theorem listing_said :
    ∃ moves, StepsMeet (next (Dialogue.step fun _ => [])) (Dialogue.Admits fun _ _ => True)
        (.start (service (kernelOn (oneFileVolume (ascii "A") (ascii "hi"))))) moves ∧
      (answers (Dialogue.step fun _ => [])
          (.start (service (kernelOn (oneFileVolume (ascii "A") (ascii "hi"))))) moves).flatten =
        (ascii "s.list\n").map .typed ++
          [.executed (ascii "s.list"),
            .answered ⟨sysModKernel, sysModGuiShell, .fsListResp, 3, ascii "A\n"⟩] := by
  have hvolume : (oneFileVolume (ascii "A") (ascii "hi")).Consistent 126 [2] :=
    oneFileVolume_consistent (by decide)
  have hlists : StepsMeet (shellStep fun _ => []) (fun s i => listsAlone s i = true)
      (shellStart (kernelOn (oneFileVolume (ascii "A") (ascii "hi")))) listingInputs := by
    decide +kernel
  obtain ⟨moves, hadm, hsaid, -⟩ := shell_dialogue (fun _ => []) (fun _ _ => True)
    (hvolume.orderly fun _ => rfl) rfl (fun _ => (by decide : (1 : UInt64) ≠ 0)) listingInputs
    (hlists.mono fun _ _ => admitted_of_listsAlone)
  refine ⟨moves, hadm, hsaid.symm.trans ?_⟩
  decide +kernel

end Shell
end AiOsExchange
