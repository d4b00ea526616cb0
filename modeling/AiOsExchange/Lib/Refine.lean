/-
# Refinement of a system that answers

A system is a function `step : σ → ι → ο × σ` that takes an operation and gives an answer.
`answers` are those to a run of operations.  A system is compared with one that says what it is
for, along a relation between their states: related states give the same answer and lead to related
states (`Simulation`).  Then a run gives the same answers (`Simulation.run`), as long as the
operations are such as the other system admits.  Where the states of the other system can be
computed from those of an invariant, the relation is a function (`Refinement`).

Where an operation is one of the other system, or none, and which one can be read off the state it
is taken from, the answers are those to the operations read off the run (`Reading`).

Where a step is no operation of the other system, or some of them, the system keeps what it has
said in its state.  Then there is a run of the other system whose answers are what was said
(`Stuttering`).
-/

import AiOsExchange.Lib.Run

namespace Runs

variable {σ τ ι ο : Type*}

/-- The state after an operation. -/
def next (step : σ → ι → ο × σ) (s : σ) (i : ι) : σ := (step s i).2

/-- The answers to a run. -/
def answers (step : σ → ι → ο × σ) : σ → List ι → List ο
  | _, [] => []
  | s, i :: ops => (step s i).1 :: answers step (next step s i) ops

@[simp] theorem answers_cons (step : σ → ι → ο × σ) (s : σ) (i : ι) (ops : List ι) :
    answers step s (i :: ops) = (step s i).1 :: answers step (next step s i) ops := rfl

section
variable {step : σ → ι → ο × σ} {spec : τ → ι → ο × τ} {ok : τ → ι → Prop}

/-! ### Along a relation -/

/-- States that are related by `R` answer an operation that `ok` admits alike, and lead to related
states. -/
structure Simulation (step : σ → ι → ο × σ) (spec : τ → ι → ο × τ) (ok : τ → ι → Prop)
    (R : σ → τ → Prop) : Prop where
  answer : ∀ s t i, R s t → ok t i → (step s i).1 = (spec t i).1
  next : ∀ s t i, R s t → ok t i → R (next step s i) (Runs.next spec t i)

/-- **A simulation answers as its specification** along every run that is admitted there. -/
theorem Simulation.run {R : σ → τ → Prop} (h : Simulation step spec ok R) {s : σ} {t : τ}
    {ops : List ι} (h0 : R s t) (hok : StepsMeet (Runs.next spec) ok t ops) :
    answers step s ops = answers spec t ops ∧
      R (Runs.run (Runs.next step) s ops) (Runs.run (Runs.next spec) t ops) := by
  induction ops generalizing s t with
  | nil => exact ⟨rfl, h0⟩
  | cons i ops ih =>
      obtain ⟨hanswers, hrel⟩ := ih (h.next s t i h0 hok.1) hok.2
      rw [answers_cons, answers_cons, h.answer s t i h0 hok.1, hanswers]
      exact ⟨rfl, hrel⟩

/-! ### Along a function -/

/-- `abs` takes the states of `Inv` to states of the system `spec`, and a step that `ok` admits
there does as `spec` does. -/
structure Refinement (step : σ → ι → ο × σ) (spec : τ → ι → ο × τ) (ok : τ → ι → Prop)
    (Inv : σ → Prop) (abs : σ → τ) : Prop where
  keeps : ∀ s i, Inv s → ok (abs s) i → Inv (next step s i)
  answer : ∀ s i, Inv s → ok (abs s) i → (step s i).1 = (spec (abs s) i).1
  next : ∀ s i, Inv s → ok (abs s) i → abs (next step s i) = Runs.next spec (abs s) i

variable {Inv : σ → Prop} {abs : σ → τ}

/-- The function is a relation. -/
theorem Refinement.simulation (h : Refinement step spec ok Inv abs) :
    Simulation step spec ok fun s t => Inv s ∧ abs s = t where
  answer s t i hr hok := by
    obtain ⟨hinv, rfl⟩ := hr
    exact h.answer s i hinv hok
  next s t i hr hok := by
    obtain ⟨hinv, rfl⟩ := hr
    exact ⟨h.keeps s i hinv hok, h.next s i hinv hok⟩

/-- **A refinement answers as its specification** along every run that is admitted there. -/
theorem Refinement.run (h : Refinement step spec ok Inv abs) {s : σ} {ops : List ι} (h0 : Inv s)
    (hok : StepsMeet (Runs.next spec) ok (abs s) ops) :
    answers step s ops = answers spec (abs s) ops ∧ Inv (Runs.run (Runs.next step) s ops) ∧
      abs (Runs.run (Runs.next step) s ops) = Runs.run (Runs.next spec) (abs s) ops :=
  h.simulation.run ⟨h0, rfl⟩ hok

end

/-! ### Operations that are read off the run -/

section
variable {κ : Type*} {step : σ → ι → List ο × σ} {spec : τ → κ → List ο × τ} {ok : σ → ι → Prop}
  {read : σ → ι → Option κ} {Inv : σ → Prop} {abs : σ → τ}

/-- The operations of the other system in a run. -/
def readOff (step : σ → ι → List ο × σ) (read : σ → ι → Option κ) : σ → List ι → List κ
  | _, [] => []
  | s, i :: ops => (read s i).toList ++ readOff step read (next step s i) ops

/-- A step that `ok` admits says and does what the operation does that `read` finds in it, and nothing
where it finds none. -/
structure Reading (step : σ → ι → List ο × σ) (spec : τ → κ → List ο × τ) (ok : σ → ι → Prop)
    (read : σ → ι → Option κ) (Inv : σ → Prop) (abs : σ → τ) : Prop where
  keeps : ∀ s i, Inv s → ok s i → Inv (next step s i)
  some : ∀ s i k, Inv s → ok s i → read s i = some k →
    (step s i).1 = (spec (abs s) k).1 ∧ abs (next step s i) = next spec (abs s) k
  none : ∀ s i, Inv s → ok s i → read s i = none → (step s i).1 = [] ∧ abs (next step s i) = abs s

/-- **A run says and does what the operations do that are read off it.** -/
theorem Reading.run (h : Reading step spec ok read Inv abs) {s : σ} {ops : List ι} (h0 : Inv s)
    (hok : StepsMeet (Runs.next step) ok s ops) :
    (answers step s ops).flatten = (answers spec (abs s) (readOff step read s ops)).flatten ∧
      abs (Runs.run (Runs.next step) s ops) =
        Runs.run (Runs.next spec) (abs s) (readOff step read s ops) := by
  induction ops generalizing s with
  | nil => exact ⟨rfl, rfl⟩
  | cons i ops ih =>
      obtain ⟨hanswers, hrun⟩ := ih (h.keeps s i h0 hok.1) hok.2
      rw [answers_cons, List.flatten_cons, hanswers, run_cons, hrun, readOff]
      cases hread : read s i with
      | none =>
          obtain ⟨hsaid, habs⟩ := h.none s i h0 hok.1 hread
          rw [hsaid, habs]
          exact ⟨rfl, rfl⟩
      | some k =>
          obtain ⟨hsaid, habs⟩ := h.some s i k h0 hok.1 hread
          rw [hsaid, habs]
          exact ⟨rfl, rfl⟩

end

/-! ### With stuttering -/

section
variable {κ : Type*} {step : σ → ι → σ} {said : σ → List ο} {spec : τ → κ → List ο × τ}
  {ok : σ → ι → Prop} {adm : τ → κ → Prop} {R : σ → τ → Prop}

theorem answers_append (spec : τ → κ → ο × τ) (t : τ) (ops more : List κ) :
    answers spec t (ops ++ more) = answers spec t ops ++ answers spec (run (next spec) t ops) more := by
  induction ops generalizing t with
  | nil => rfl
  | cons i ops ih => rw [List.cons_append, answers_cons, answers_cons, ih, run_cons, List.cons_append]

/-- `s` has said more than `s₀`: what operations from `t₀` answer, which are admitted and lead to a
related state. -/
def Accounts (said : σ → List ο) (spec : τ → κ → List ο × τ) (adm : τ → κ → Prop) (R : σ → τ → Prop)
    (s₀ : σ) (t₀ : τ) (s : σ) : Prop :=
  ∃ ops, StepsMeet (next spec) adm t₀ ops ∧ said s = said s₀ ++ (answers spec t₀ ops).flatten ∧
    R s (run (next spec) t₀ ops)

/-- A step that `ok` admits is accounted for by operations that `adm` admits. -/
def Stuttering (step : σ → ι → σ) (ok : σ → ι → Prop) (said : σ → List ο)
    (spec : τ → κ → List ο × τ) (adm : τ → κ → Prop) (R : σ → τ → Prop) : Prop :=
  ∀ s t i, R s t → ok s i → Accounts said spec adm R s t (step s i)

/-- Nothing happens. -/
theorem Accounts.stay {s s' : σ} {t : τ} (hsaid : said s' = said s) (h : R s' t) :
    Accounts said spec adm R s t s' :=
  ⟨[], trivial, by rw [hsaid]; exact (List.append_nil _).symm, h⟩

/-- One operation. -/
theorem Accounts.one {s s' : σ} {t : τ} (op : κ) (hop : adm t op)
    (hsaid : said s' = said s ++ (spec t op).1) (h : R s' (spec t op).2) :
    Accounts said spec adm R s t s' :=
  ⟨[op], ⟨hop, trivial⟩, by rw [hsaid]; exact congrArg _ (List.append_nil _).symm, h⟩

/-- **A run is accounted for.** -/
theorem Stuttering.run (h : Stuttering step ok said spec adm R) {s : σ} {t : τ} {inputs : List ι}
    (h0 : R s t) (hok : StepsMeet step ok s inputs) :
    Accounts said spec adm R s t (Runs.run step s inputs) := by
  induction inputs generalizing s t with
  | nil => exact .stay rfl h0
  | cons i inputs ih =>
      obtain ⟨ops, hadm, hsaid, hrel⟩ := h s t i h0 hok.1
      obtain ⟨more, hmoreAdm, hmore, hfinal⟩ := ih hrel hok.2
      refine ⟨ops ++ more, stepsMeet_append.2 ⟨hadm, hmoreAdm⟩, ?_, ?_⟩
      · rw [run_cons, hmore, hsaid, answers_append, List.flatten_append, List.append_assoc]
      · rwa [run_append]

/-- **Induction over what has been answered.** -/
theorem answers_invariant {Inv : List ο → τ → Prop}
    (hstep : ∀ said t op, Inv said t → adm t op → Inv (said ++ (spec t op).1) (spec t op).2)
    {said : List ο} {t : τ} {ops : List κ} (h0 : Inv said t) (hok : StepsMeet (next spec) adm t ops) :
    Inv (said ++ (answers spec t ops).flatten) (run (next spec) t ops) := by
  induction ops generalizing said t with
  | nil =>
      rw [show (answers spec t []).flatten = [] from rfl, List.append_nil]
      exact h0
  | cons op ops ih =>
      have hnext := ih (hstep said t op h0 hok.1) hok.2
      rw [List.append_assoc] at hnext
      exact hnext

end

end Runs
