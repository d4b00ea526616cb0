/-
# Binding a function again by `let rec`

`let rec g = e in b` beside `let g = e in b`, where `e` does not use `g`.  The two differ in the
name that a function carries: `let rec` writes `g` over the name of whatever function `e`
returns, and the machine binds the name that it finds when the function is applied.

| the function of `e` | under `let rec g` |
| --- | --- |
| was named by another `let rec` and reads that name | no longer finds itself |
| reads a `g` of its own, from the place it was made | finds itself in its place |
| reads neither, or was named `g` | does what it does under `let g` |

In the third case only the names `strays` are bound differently, where that function runs, and
nothing reads them (`Alike`, `EnvAlike`), unless the body of a `let rec` reads its own name and a
later `let rec` takes that name away (`unnames`).  `misnamed` says that one of these happens in an
evaluation; where it does not, both programs end alike (`rebinding_kept`).
-/

import AiOsExchange.Autarky.Scope

namespace AiOsExchange
namespace Autarky

open Computations

/-! ### The names that a function reads -/

/-- The name is looked up in the environment; `POLL` is not. -/
def IrNode.reads (x : Word) (node : IrNode) : Bool := x ≠ "POLL".toList && node.mentions x

theorem IrNode.reads_var {x : Word} (h : x ≠ "POLL".toList) : (IrNode.var x).reads x := by
  rw [reads, mentions, decide_eq_true h, decide_eq_true rfl]
  rfl

theorem IrNode.reads_mono {x : Word} {part node : IrNode}
    (hm : part.mentions x → node.mentions x) (h : part.reads x) : node.reads x := by
  rw [reads, Bool.and_eq_true] at h ⊢
  exact ⟨h.1, hm h.2⟩

/-- A `let rec` gives the function a name that it reads, or takes one from it. -/
def misnames (g : Word) : Value → Bool
  | .closure _ body _ recName =>
      recName ≠ some g && (body.reads g || recName.any fun f => body.reads f)
  | _ => false

/-- The names bound differently where the function runs, once a `let rec` has named it. -/
def strays (g : Word) : Value → List Word
  | .closure _ _ _ recName => if recName = some g then [] else g :: recName.toList
  | _ => []

/-- A `let rec` takes one of these names from a function that reads it. -/
def unnames (names : List Word) (var : Word) (_val : IrNode) : Value → Bool
  | .closure param body _ (some f) => f ∈ names && f ≠ var && f ≠ param && body.reads f
  | _ => false

/-- In the evaluation of `let rec g = e in b` a function is misnamed: the one that `e` returns, or
later another one that reads a name bound differently. -/
def misnamed : ℕ → Env → Word → IrNode → IrNode → Net → Bool
  | 0, _, _, _, _, _ => false
  | fuel + 1, env, g, e, b, net =>
      match evaluate fuel env e net with
      | (.ok v, net') =>
          misnames g v || (flaggedWith (unnames (strays g v)) netMachine fuel
            (env.insert g (tagRec g v)) b (net', false)).2.2
      | _ => false

/-! ### Related values -/

mutual

/-- Values of two runs that may bind `names` differently: a function is named alike, or one of
these names that it does not read. -/
inductive Alike (names : List Word) : Value → Value → Prop
  | int (n : Int64) : Alike names (.int n) (.int n)
  | float (f : F64) : Alike names (.float f) (.float f)
  | pair {l l' r r' : Value} (hl : Alike names l l') (hr : Alike names r r') :
      Alike names (.pair l r) (.pair l' r')
  | left {v v' : Value} (hv : Alike names v v') : Alike names (.left v) (.left v')
  | right {v v' : Value} (hv : Alike names v v') : Alike names (.right v) (.right v')
  | closure {param : Word} {body : IrNode} {env env' : Env} {recName recName' : Option Word}
      (hname : recName = recName' ∨
        ∀ f, recName = some f ∨ recName' = some f → f ∈ names ∧ body.reads f = false)
      (henv : EnvAlike names (fun x => body.reads x ∧ x ≠ param ∧ recName ≠ some x) env env') :
      Alike names (.closure param body env recName) (.closure param body env' recName')

/-- Environments that bind alike whatever is read, and all but `names`. -/
inductive EnvAlike (names : List Word) : (Word → Prop) → Env → Env → Prop
  | intro {P : Word → Prop} {env env' : Env}
      (unbound : ∀ x, x ∉ names ∨ P x → (env.get x = none ↔ env'.get x = none))
      (bound : ∀ x v v', x ∉ names ∨ P x → env.get x = some v → env'.get x = some v' →
        Alike names v v') :
      EnvAlike names P env env'

end

section
variable {names : List Word} {P Q : Word → Prop} {env env' : Env} {a x : Word} {v v' : Value}

theorem EnvAlike.mono (h : EnvAlike names P env env') (hpq : ∀ x, x ∈ names → Q x → P x) :
    EnvAlike names Q env env' := by
  obtain ⟨unbound, bound⟩ := h
  have hle (x : Word) (hx : x ∉ names ∨ Q x) : x ∉ names ∨ P x := by
    by_cases hmem : x ∈ names
    · exact .inr (hpq x hmem (hx.resolve_left (not_not_intro hmem)))
    · exact .inl hmem
  exact .intro (fun x hx => unbound x (hle x hx)) fun x v v' hx => bound x v v' (hle x hx)

/-- **Under a binder environments stay alike.** -/
theorem EnvAlike.insert (h : EnvAlike names (fun x => P x ∧ x ≠ a) env env')
    (hv : Alike names v v') : EnvAlike names P (env.insert a v) (env'.insert a v') := by
  obtain ⟨unbound, bound⟩ := h
  refine .intro (fun x hx => ?_) fun x w w' hx hw hw' => ?_
  · rw [Env.get_insert, Env.get_insert]
    split_ifs with hxa
    · exact iff_of_false (by simp) (by simp)
    · exact unbound x (hx.imp_right fun hp => ⟨hp, hxa⟩)
  · rw [Env.get_insert] at hw hw'
    split_ifs at hw hw' with hxa
    · obtain rfl := Option.some.inj hw
      obtain rfl := Option.some.inj hw'
      exact hv
    · exact bound x w w' (hx.imp_right fun hp => ⟨hp, hxa⟩) hw hw'

theorem Env.get_insert_unread (hmem : a ∈ names) (ha : ¬ P a) (hx : x ∉ names ∨ P x) :
    (Env.insert a v env).get x = env.get x := by
  rw [Env.get_insert, if_neg]
  rintro rfl
  exact hx.elim (fun hx => hx hmem) ha

/-- A name that is not read may be bound on either side. -/
theorem EnvAlike.insert_left (h : EnvAlike names P env env') (hmem : a ∈ names) (ha : ¬ P a) :
    EnvAlike names P (env.insert a v) env' := by
  obtain ⟨unbound, bound⟩ := h
  refine .intro (fun x hx => ?_) fun x w w' hx hw => ?_
  · rw [Env.get_insert_unread hmem ha hx]
    exact unbound x hx
  · rw [Env.get_insert_unread hmem ha hx] at hw
    exact bound x w w' hx hw

theorem EnvAlike.insert_right (h : EnvAlike names P env env') (hmem : a ∈ names) (ha : ¬ P a) :
    EnvAlike names P env (env'.insert a v) := by
  obtain ⟨unbound, bound⟩ := h
  refine .intro (fun x hx => ?_) fun x w w' hx hw hw' => ?_
  · rw [Env.get_insert_unread hmem ha hx]
    exact unbound x hx
  · rw [Env.get_insert_unread hmem ha hx] at hw'
    exact bound x w w' hx hw hw'

/-- A value is smaller than an environment that has it. -/
theorem Env.sizeOf_get (h : env.get x = some v) : sizeOf v < sizeOf env := by
  obtain ⟨env₁, env₂, rfl, -⟩ := List.lookup_eq_some_iff.1 h
  have hmem : (x, v) ∈ env₁ ++ (x, v) :: env₂ := List.mem_append_right env₁ List.mem_cons_self
  have hlt := List.sizeOf_lt_of_mem hmem
  simp only [Prod.mk.sizeOf_spec] at hlt
  omega

/-- Every value is like itself. -/
theorem Alike.refl : ∀ v : Value, Alike names v v
  | .int n => .int n
  | .float f => .float f
  | .pair l r => .pair (.refl l) (.refl r)
  | .left v => .left (.refl v)
  | .right v => .right (.refl v)
  | .closure param body env recName => by
      refine .closure (.inl rfl) (.intro (fun _ _ => Iff.rfl) fun x v v' _ hv hv' => ?_)
      obtain rfl := Option.some.inj (hv.symm.trans hv')
      have hlt := Env.sizeOf_get hv
      exact .refl v
  termination_by v => sizeOf v

theorem EnvAlike.refl (env : Env) : EnvAlike names P env env := by
  refine .intro (fun _ _ => Iff.rfl) fun x v v' _ hv hv' => ?_
  obtain rfl := Option.some.inj (hv.symm.trans hv')
  exact .refl v

/-- A part of a program reads what the program reads. -/
theorem EnvAlike.part {part node : IrNode} (h : EnvAlike names (fun x => node.reads x) env env')
    (hm : ∀ x, part.mentions x → node.mentions x) :
    EnvAlike names (fun x => part.reads x) env env' :=
  h.mono fun x _ => IrNode.reads_mono (hm x)

/-- Under a binder it reads one name more. -/
theorem EnvAlike.under {part node : IrNode} (h : EnvAlike names (fun x => node.reads x) env env')
    (hm : ∀ x, x ≠ a → part.mentions x → node.mentions x) (hv : Alike names v v') :
    EnvAlike names (fun x => part.reads x) (env.insert a v) (env'.insert a v') := by
  refine .insert (h.mono ?_) hv
  rintro x - ⟨hread, hxa⟩
  exact IrNode.reads_mono (hm x hxa) hread

/-- **The function of a `let rec` is like the one that a `let` binds**, unless it is misnamed. -/
theorem alike_tagRec {g : Word} (h : misnames g v = false) : Alike (strays g v) (tagRec g v) v := by
  cases v with
  | closure param body env recName =>
      refine .closure ?_ (.refl env)
      by_cases hg : recName = some g
      · exact .inl hg.symm
      · simp only [misnames, decide_eq_true hg, Bool.true_and, Bool.or_eq_false_iff] at h
        obtain ⟨hbody, hrec⟩ := h
        refine .inr fun f hf => ?_
        rw [strays, if_neg hg]
        obtain hf | rfl := hf
        · obtain rfl := Option.some.inj hf
          exact ⟨List.mem_cons_self, hbody⟩
        · exact ⟨List.mem_cons_of_mem _ (by simp), hrec⟩
  | _ => exact .refl _

/-- A later `let rec` keeps functions alike. -/
theorem Alike.tagRec {val : IrNode} (h : Alike names v v') (hx : unnames names x val v = false) :
    Alike names (tagRec x v) (tagRec x v') := by
  cases h with
  | @closure param body env env' recName recName' hname henv =>
      refine .closure (.inl rfl) (henv.mono ?_)
      rintro y hy ⟨hread, hparam, hyx⟩
      refine ⟨hread, hparam, ?_⟩
      rintro rfl
      rw [Ne, Option.some.injEq] at hyx
      simp [unnames, hy, hread, hparam, Ne.symm hyx] at hx
  | int n => exact .int n
  | float f => exact .float f
  | pair hl hr => exact .pair hl hr
  | left hv => exact .left hv
  | right hv => exact .right hv

/-- The function of a lambda under `let rec`. -/
theorem EnvAlike.recLambda {param : Word} {body : IrNode}
    (h : EnvAlike names (fun y => body.reads y ∧ y ≠ param ∧ y ≠ x) env env') :
    Alike names (Autarky.tagRec x (.closure param body env none))
      (Autarky.tagRec x (.closure param body env' none)) := by
  refine .closure (.inl rfl) (h.mono ?_)
  rintro y - ⟨hread, hparam, hyx⟩
  refine ⟨hread, hparam, ?_⟩
  rintro rfl
  exact hyx rfl

/-- **Functions that are alike have their bodies evaluated in environments that are alike.** -/
theorem Alike.applyEnv {param : Word} {body : IrNode} {recName recName' : Option Word}
    (h : Alike names (.closure param body env recName) (.closure param body env' recName'))
    {a a' : Value} (ha : Alike names a a') :
    EnvAlike names (fun y => body.reads y)
      (Autarky.applyEnv (.closure param body env recName) a param env recName)
      (Autarky.applyEnv (.closure param body env' recName') a' param env' recName') := by
  have hself := h
  cases h with
  | closure hname henv =>
      have harg : EnvAlike names (fun y => body.reads y ∧ recName ≠ some y)
          (env.insert param a) (env'.insert param a') := by
        refine .insert (henv.mono ?_) ha
        rintro y - ⟨⟨hread, hrec⟩, hparam⟩
        exact ⟨hread, hparam, hrec⟩
      obtain rfl | hname := hname
      · cases recName with
        | none => exact harg.mono fun y _ hread => ⟨hread, nofun⟩
        | some f =>
            refine .insert (harg.mono ?_) hself
            rintro y - ⟨hread, hyf⟩
            exact ⟨hread, fun hfy => hyf (Option.some.inj hfy).symm⟩
      · -- neither name is read
        have hunread {f : Word} (hf : recName = some f ∨ recName' = some f) :
            ¬ body.reads f = true := by
          rw [(hname f hf).2]
          nofun
        have hall : EnvAlike names (fun y => body.reads y) (env.insert param a)
            (env'.insert param a') :=
          harg.mono fun y _ hread => ⟨hread, fun hy => hunread (.inl hy) hread⟩
        have hleft : EnvAlike names (fun y => body.reads y)
            (Autarky.applyEnv (.closure param body env recName) a param env recName)
            (env'.insert param a') := by
          cases recName with
          | none => exact hall
          | some f => exact hall.insert_left (hname f (.inl rfl)).1 (hunread (.inl rfl))
        cases recName' with
        | none => exact hleft
        | some f => exact hleft.insert_right (hname f (.inr rfl)).1 (hunread (.inr rfl))

end

/-! ### The two runs -/

section
variable {σ : Type} {M : Machine σ} {names : List Word}

theorem evaluateWith_stays (fuel : ℕ) (env : Env) (node : IrNode) :
    Stays (evaluateWith M.beside fuel env node) := by
  induction fuel generalizing env node with
  | zero => exact fun _ => rfl
  | succ fuel ih => exact (Stays.beside _).bind fun _ => evaluateStep_stays ih env node

/-- An operator takes values that are alike alike. -/
theorem BinOp.onValues_alike (op : BinOp) {v v' w w' : Value} (hv : Alike names v v')
    (hw : Alike names w w') :
    SimUnless (Alike names) (op.onValues M.beside v w) (op.onValues M.beside v' w') := by
  cases hv with
  | int a =>
      cases hw with
      | int b => exact op.apply_self .int (fun _ => .refl _) a b
      | _ => exact .err _ _
  | _ => exact .err _ _

/-- A lambda takes its environment along. -/
theorem lambda_alike (fuel : ℕ) {F : Word → IrNode → Value → Bool} {env env' : Env} {param : Word}
    {body : IrNode} :
    SimUnless (fun v v' => v = .closure param body env none ∧ v' = .closure param body env' none)
      (flaggedWith F M fuel env (.lambda param body))
      (evaluateWith M.beside fuel env' (.lambda param body)) := by
  cases fuel with
  | zero => exact .more
  | succ fuel =>
      exact (SimUnless.of_beside (R := Eq) (fun _ => rfl) M.call).bind (fun _ _ => rfl)
        (fun _ _ => rfl) fun _ _ _ => .pure ⟨rfl, rfl⟩

section
variable {rec rec' : Env → IrNode → Comp (σ × Bool) Value} {env env' : Env}

/-- A name that is read is looked up alike. -/
theorem var_alike {x : Word} (henv : EnvAlike names (fun y => (IrNode.var x).reads y) env env') :
    SimUnless (Alike names) (evaluateStep M.beside rec env (.var x))
      (evaluateStep M.beside rec' env' (.var x)) := by
  simp only [evaluateStep]
  split_ifs with hx
  · refine (SimUnless.of_beside (R := Eq) (fun _ => rfl) M.poll).bind (fun _ _ => rfl)
      (fun _ _ => rfl) ?_
    rintro v _ rfl
    exact .pure (.int _)
  · obtain ⟨unbound, bound⟩ := henv
    have hread := Or.inr (a := x ∉ names) (IrNode.reads_var hx)
    cases hv : env.get x with
    | none =>
        rw [(unbound x hread).1 hv]
        exact .err _ _
    | some v =>
        cases hv' : env'.get x with
        | none =>
            rw [(unbound x hread).2 hv'] at hv
            cases hv
        | some v' => exact .pure (bound x v v' hread hv hv')

variable (hrec : ∀ env node, Stays (rec env node)) (hrec' : ∀ env node, Stays (rec' env node))
  (ih : ∀ {env env' : Env} {node : IrNode}, EnvAlike names (fun x => node.reads x) env env' →
    SimUnless (Alike names) (rec env node) (rec' env' node))
include hrec hrec' ih

/-- A `let rec`, which may raise the flag: the function of a lambda gets its name for the first
time, another one may lose a name. -/
theorem letRec_alike {x : Word} {val body : IrNode}
    (hlambda : ∀ {param : Word} {f : IrNode}, SimUnless
      (fun v v' => v = .closure param f env none ∧ v' = .closure param f env' none)
      (rec env (.lambda param f)) (rec' env' (.lambda param f)))
    (henv : EnvAlike names (fun y => (IrNode.letRec x val body).reads y) env env') :
    SimUnless (Alike names) (flaggedStep (unnames names) M rec env (.letRec x val body))
      (evaluateStep M.beside rec' env' (.letRec x val body)) := by
  have hunder {v v' : Value} (hv : Alike names v v') :
      EnvAlike names (fun y => body.reads y) (env.insert x v) (env'.insert x v') :=
    henv.under (fun z hz hm => by simp [IrNode.mentions, hz, hm]) hv
  cases hparam : val.parameter with
  | none =>
      have hval : EnvAlike names (fun y => val.reads y) env env' :=
        henv.part fun z hz => by simp [IrNode.mentions, hparam, hz]
      refine (ih hval).bind (fun v => (Stays.raise _).bind fun _ => hrec _ _)
        (fun v => hrec' _ _) fun v v' hv => ?_
      exact .raise_left (fun _ => hrec _ _) (hrec' _ _) fun hx => ih (hunder (hv.tagRec hx))
  | some param =>
      cases val with
      | lambda param f =>
          refine hlambda.bind (fun v => (Stays.raise _).bind fun _ => hrec _ _)
            (fun v => hrec' _ _) ?_
          rintro _ _ ⟨rfl, rfl⟩
          refine .raise_left (fun _ => hrec _ _) (hrec' _ _) fun _ => ih (hunder ?_)
          refine EnvAlike.recLambda (henv.mono ?_)
          rintro z - ⟨hread, hzp, hzx⟩
          exact IrNode.reads_mono (fun hz => by simp [IrNode.mentions, hz, hzp, hzx]) hread
      | _ => cases hparam

/-- **One level of both runs**, one case per constructor. -/
theorem flaggedStep_alike {node : IrNode}
    (hlambda : ∀ {param : Word} {f : IrNode}, SimUnless
      (fun v v' => v = .closure param f env none ∧ v' = .closure param f env' none)
      (rec env (.lambda param f)) (rec' env' (.lambda param f)))
    (henv : EnvAlike names (fun x => node.reads x) env env') :
    SimUnless (Alike names) (flaggedStep (unnames names) M rec env node)
      (evaluateStep M.beside rec' env' node) := by
  cases node with
  | intLiteral n => exact .pure (.int n)
  | floatLiteral f => exact .pure (.float f)
  | var x => exact @var_alike _ M names rec rec' env env' x henv
  | bin op l r =>
      have hl : EnvAlike names (fun x => l.reads x) env env' :=
        henv.part fun x hx => by simp [IrNode.mentions, hx]
      have hr : EnvAlike names (fun x => r.reads x) env env' :=
        henv.part fun x hx => by simp [IrNode.mentions, hx]
      refine (ih hl).bind (fun v => (hrec env r).bind fun w => op.onValues_stays v w)
        (fun v => (hrec' env' r).bind fun w => op.onValues_stays v w) fun v v' hv => ?_
      exact (ih hr).bind (op.onValues_stays v) (op.onValues_stays v') fun w w' hw =>
        op.onValues_alike hv hw
  | pair l r =>
      have hl : EnvAlike names (fun x => l.reads x) env env' :=
        henv.part fun x hx => by simp [IrNode.mentions, hx]
      have hr : EnvAlike names (fun x => r.reads x) env env' :=
        henv.part fun x hx => by simp [IrNode.mentions, hx]
      refine (ih hl).bind (fun v => (hrec env r).bind fun _ _ => rfl)
        (fun v => (hrec' env' r).bind fun _ _ => rfl) fun v v' hv => ?_
      exact (ih hr).bind (fun _ _ => rfl) (fun _ _ => rfl) fun w w' hw => .pure (.pair hv hw)
  | left v =>
      have hpart : EnvAlike names (fun x => v.reads x) env env' := henv.part fun _ hx => hx
      exact (ih hpart).bind (fun _ _ => rfl) (fun _ _ => rfl) fun v v' hv => .pure (.left hv)
  | right v =>
      have hpart : EnvAlike names (fun x => v.reads x) env env' := henv.part fun _ hx => hx
      exact (ih hpart).bind (fun _ _ => rfl) (fun _ _ => rfl) fun v v' hv => .pure (.right hv)
  | lambda param body =>
      refine .pure (.closure (.inl rfl) (henv.mono ?_))
      rintro x - ⟨hread, hparam, -⟩
      exact IrNode.reads_mono (fun hx => by simp [IrNode.mentions, hx, hparam]) hread
  | app func arg =>
      have hf : EnvAlike names (fun x => func.reads x) env env' :=
        henv.part fun x hx => by simp [IrNode.mentions, hx]
      have ha : EnvAlike names (fun x => arg.reads x) env env' :=
        henv.part fun x hx => by simp [IrNode.mentions, hx]
      refine (ih hf).bind (fun f => (hrec env arg).bind (app_stays hrec f))
        (fun f => (hrec' env' arg).bind (app_stays hrec' f)) fun f f' hff => ?_
      refine (ih ha).bind (app_stays hrec f) (app_stays hrec' f') fun a a' haa => ?_
      have hbody := hff
      cases hff with
      | closure hname he => exact ih (hbody.applyEnv haa)
      | _ => exact .err _ _
  | matchE expr x l y r =>
      have he : EnvAlike names (fun x => expr.reads x) env env' :=
        henv.part fun x hx => by simp [IrNode.mentions, hx]
      refine (ih he).bind (match_stays hrec env x y l r) (match_stays hrec' env' x y l r)
        fun v v' hv => ?_
      cases hv with
      | left hv => exact ih (henv.under (fun z hz hm => by simp [IrNode.mentions, hz, hm]) hv)
      | right hv => exact ih (henv.under (fun z hz hm => by simp [IrNode.mentions, hz, hm]) hv)
      | _ => exact .err _ _
  | letE x val body =>
      have hval : EnvAlike names (fun x => val.reads x) env env' :=
        henv.part fun x hx => by simp [IrNode.mentions, hx]
      exact (ih hval).bind (fun v => hrec _ _) (fun v => hrec' _ _) fun v v' hv =>
        ih (henv.under (fun z hz hm => by simp [IrNode.mentions, hz, hm]) hv)
  | letRec x val body => exact letRec_alike hrec hrec' ih hlambda henv
  | unpack a b pair body =>
      have hp : EnvAlike names (fun x => pair.reads x) env env' :=
        henv.part fun x hx => by simp [IrNode.mentions, hx]
      refine (ih hp).bind (unpack_stays hrec env a b body) (unpack_stays hrec' env' a b body)
        fun v v' hv => ?_
      cases hv with
      | pair hl hr =>
          refine ih (.insert (.insert (henv.mono ?_) hl) hr)
          rintro x - ⟨⟨hread, hxb⟩, hxa⟩
          exact IrNode.reads_mono (fun hx => by simp [IrNode.mentions, hx, hxa, hxb]) hread
      | _ => exact .err _ _

end

/-- **The runs go alike**, unless a `let rec` takes a name from a function that reads it.  By
induction on the depth; environments are alike in what the program reads. -/
theorem flaggedWith_alike (fuel : ℕ) {env env' : Env} {node : IrNode}
    (henv : EnvAlike names (fun x => node.reads x) env env') :
    SimUnless (Alike names) (flaggedWith (unnames names) M fuel env node)
      (evaluateWith M.beside fuel env' node) := by
  induction fuel generalizing env env' node with
  | zero => exact .more
  | succ fuel ih =>
      have hrec := @flaggedWith_stays _ M (unnames names) fuel
      have hrec' := @evaluateWith_stays _ M fuel
      refine (SimUnless.of_beside (R := Eq) (fun _ => rfl) M.call).bind
        (fun _ => flaggedStep_stays hrec env node) (fun _ => evaluateStep_stays hrec' env' node) ?_
      rintro a _ rfl
      exact flaggedStep_alike hrec hrec' ih (lambda_alike fuel) henv

/-- A machine beside a flag that nothing raises. -/
theorem evaluateWith_beside (M : Machine σ) (fuel : ℕ) (env : Env) (node : IrNode) :
    Sim (fun s (t : σ × Bool) => t = (s, false)) (evaluateWith M fuel env node)
      (evaluateWith M.beside fuel env node) := by
  have hbeside {α : Type} (x : Comp σ α) :
      Sim (fun s (t : σ × Bool) => t = (s, false)) x (Computations.beside x) := by
    rintro s _ rfl
    exact ⟨rfl, rfl⟩
  exact evaluateWith_sim ⟨hbeside _, hbeside _, fun _ _ _ => hbeside _⟩ fuel env node

end

theorem Alike.shape_eq {names : List Word} {v v' : Value} (h : Alike names v v') :
    v.shape = v'.shape := by
  cases h with
  | int n => rfl
  | float f => rfl
  | pair hl hr => rw [Value.shape, Value.shape, hl.shape_eq, hr.shape_eq]
  | left hv => rw [Value.shape, Value.shape, hv.shape_eq]
  | right hv => rw [Value.shape, Value.shape, hv.shape_eq]
  | closure hname henv => rfl

/-- An evaluation that neither panicked nor is unfinished. -/
theorem ended_of_ending {o : Out Value} (hp : ending o ≠ .panicked) (hm : ending o ≠ .unfinished) :
    o.Ended := by
  rw [Out.ended_iff]
  constructor
  · rintro rfl
    exact hp rfl
  · rintro rfl
    exact hm rfl

/-- The bodies of both programs, once `e` has returned. -/
theorem body_alike {fuel : ℕ} {env : Env} {g : Word} {b : IrNode} {v : Value} {net : Net}
    (hv : misnames g v = false)
    (hb : (flaggedWith (unnames (strays g v)) netMachine fuel (env.insert g (tagRec g v)) b
      (net, false)).2.2 = false) :
    ending (evaluate fuel (env.insert g (tagRec g v)) b net).1 =
        ending (evaluate fuel (env.insert g v) b net).1 ∧
      (evaluate fuel (env.insert g (tagRec g v)) b net).2 =
        (evaluate fuel (env.insert g v) b net).2 := by
  have henv : EnvAlike (strays g v) (fun x => b.reads x) (env.insert g (tagRec g v))
      (env.insert g v) := .insert (.refl env) (alike_tagRec hv)
  obtain ⟨h₁, h₂⟩ := flaggedWith_sim (F := unnames (strays g v)) fuel
    (env.insert g (tagRec g v)) b net (net, false) rfl
  obtain ⟨h₁', h₂'⟩ := evaluateWith_beside netMachine fuel (env.insert g v) b net _ rfl
  obtain ⟨hout, hnet⟩ := (flaggedWith_alike fuel henv).ends net hb (by rw [h₂'])
  constructor
  · rw [evaluate, evaluate, h₁, h₁']
    exact ending_of_outRel (fun _ _ => Alike.shape_eq) hout
  · rw [evaluate, evaluate, ← h₂, hnet, h₂']

/-- **Binding a function again.**  `let rec g = e in b` ends like `let g = e in b`, and leaves the
same polls to come, at every depth of the recursion, unless a function is misnamed. -/
theorem rebinding_kept {fuel : ℕ} {env : Env} {g : Word} {e b : IrNode} {net : Net}
    (h : misnamed fuel env g e b net = false) :
    ending (evaluate fuel env (.letRec g e b) net).1 =
        ending (evaluate fuel env (.letE g e b) net).1 ∧
      (evaluate fuel env (.letRec g e b) net).2 = (evaluate fuel env (.letE g e b) net).2 := by
  cases fuel with
  | zero => exact ⟨rfl, rfl⟩
  | succ fuel =>
      have hrec : evaluate (fuel + 1) env (.letRec g e b) =
          evaluate fuel env e >>= fun v => evaluate fuel (env.insert g (tagRec g v)) b := rfl
      have hlet : evaluate (fuel + 1) env (.letE g e b) =
          evaluate fuel env e >>= fun v => evaluate fuel (env.insert g v) b := rfl
      rw [hrec, hlet, Comp.bind_apply, Comp.bind_apply]
      rw [misnamed] at h
      rcases he : evaluate fuel env e net with ⟨o, net'⟩
      rw [he] at h
      cases o with
      | ok v =>
          rw [Bool.or_eq_false_iff] at h
          exact body_alike h.1 h.2
      | err msg => exact ⟨rfl, rfl⟩
      | panic => exact ⟨rfl, rfl⟩
      | more => exact ⟨rfl, rfl⟩

/-- `let rec f = \ n : Int . match gt n 0 { Left ( y ) => ( f sub n 1 ) , Right ( z ) => 0 } in f`,
for a name `f`. -/
def countdown (f : String) : IrNode :=
  .letRec f.toList
    (.lambda "n".toList
      (.matchE (.bin .gt (.var "n".toList) (.intLiteral 0))
        "y".toList (.app (.var f.toList) (.bin .sub (.var "n".toList) (.intLiteral 1)))
        "z".toList (.intLiteral 0)))
    (.var f.toList)

/-- `( g 1 )`. -/
def callG : IrNode := .app (.var "g".toList) (.intLiteral 1)

/-- Bound again under its own name, the function counts down. -/
theorem countdown_kept :
    ending (evaluate 9 seededEnv (.letRec "g".toList (countdown "g") callG) fun _ => 0).1 =
        ending (evaluate 9 seededEnv (.letE "g".toList (countdown "g") callG) fun _ => 0).1 ∧
      (evaluate 9 seededEnv (.letRec "g".toList (countdown "g") callG) fun _ => 0).2 =
        (evaluate 9 seededEnv (.letE "g".toList (countdown "g") callG) fun _ => 0).2 :=
  rebinding_kept (by decide +kernel)

/-- **A function that is bound again under another name no longer finds itself.**  Both programs
have ended: `let` with 0, `let rec` with the error that `f` is unbound. -/
theorem recursion_lost :
    ¬ ∀ (env : Env) (g : Word) (e b : IrNode) (net : Net) (fuel : ℕ), e.mentions g = false →
      (evaluate fuel env (.letRec g e b) net).1.Ended →
      (evaluate fuel env (.letE g e b) net).1.Ended →
        ending (evaluate fuel env (.letRec g e b) net).1 =
          ending (evaluate fuel env (.letE g e b) net).1 := by
  intro h
  have hrec : ending (evaluate 9 seededEnv (.letRec "g".toList (countdown "f") callG)
      fun _ => 0).1 = .error := by decide +kernel
  have hlet : ending (evaluate 9 seededEnv (.letE "g".toList (countdown "f") callG)
      fun _ => 0).1 = .value (.int 0) := by decide +kernel
  have hend := h seededEnv "g".toList (countdown "f") callG (fun _ => 0) 9 (by decide)
    (ended_of_ending (by rw [hrec]; nofun) (by rw [hrec]; nofun))
    (ended_of_ending (by rw [hlet]; nofun) (by rw [hlet]; nofun))
  rw [hrec, hlet] at hend
  cases hend

end Autarky
end AiOsExchange
