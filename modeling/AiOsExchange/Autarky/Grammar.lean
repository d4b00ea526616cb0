/-
# The grammar, strict and as it is read

`autarky_vm/src/parser.rs`.  `Form` is the grammar of the language over words, for a given
reading of the places of its fixed tokens:

| construct | words |
| --- | --- |
| `add` … `le`, `pair` | the word, two expressions |
| `Left`, `Right` | the word, `(`, an expression, `)` |
| `match` | the word, an expression, `{ Left ( x ) =>`, an expression, an optional comma, `Right ( y ) =>`, an expression, `}` |
| `let`, `let rec` | the words, a name, `=`, an expression, `in`, an expression |
| `unpack` | the word, two names, `=`, an expression, `in`, an expression |
| `\` | the word, a name, `:`, a type, `->`, an expression |
| application | `(`, two expressions, `)` |
| grouping | `(`, an expression, `)` |

Read strictly a fixed token stands at its place.  The parser drops whatever word it finds
there, or finds none because the text is over (`Dropped`); it accepts exactly the texts that
have a form in this sense (`accepts_iff_form`).
-/

import AiOsExchange.Autarky.Words

namespace AiOsExchange
namespace Autarky

open Computations

/-- The fixed token stands at its place. -/
def Strict (tok : Word) (ws rest : List Word) : Prop := ws = tok :: rest

/-- The word at the place of a fixed token is dropped, if there is one. -/
def Dropped (_tok : Word) (ws rest : List Word) : Prop := rest = ws.tail

section
variable (T : Word → List Word → List Word → Prop)

/-- The type `t` in the words `ws`, before `rest`. -/
inductive TyForm : Ty → List Word → List Word → Prop
  | int {rest} : TyForm .int ("Int".toList :: rest) rest
  | float {rest} : TyForm .float ("Float".toList :: rest) rest
  | any {rest} : TyForm .any ("Any".toList :: rest) rest
  | pair {t₁ t₂ ws w₁ w₂ w₃ w₄ rest} (lp : T "(".toList ws w₁) (h₁ : TyForm t₁ w₁ w₂)
      (comma : T ",".toList w₂ w₃) (h₂ : TyForm t₂ w₃ w₄) (rp : T ")".toList w₄ rest) :
      TyForm (.pair t₁ t₂) ("Pair".toList :: ws) rest
  | either {t₁ t₂ ws w₁ w₂ w₃ w₄ rest} (lp : T "(".toList ws w₁) (h₁ : TyForm t₁ w₁ w₂)
      (comma : T ",".toList w₂ w₃) (h₂ : TyForm t₂ w₃ w₄) (rp : T ")".toList w₄ rest) :
      TyForm (.either t₁ t₂) ("Either".toList :: ws) rest

/-- The `Right` of a match, after an optional comma. -/
def SecondArm (ws rest : List Word) : Prop :=
  (∃ w₁, ws = ",".toList :: w₁ ∧ T "Right".toList w₁ rest) ∨
    ws.head? ≠ some ",".toList ∧ T "Right".toList ws rest

/-- The expression `e` in the words `ws`, before `rest`. -/
inductive Form : Expr → List Word → List Word → Prop
  | bin {op l r w ws w₁ rest} (hw : keyword w = .bin op) (hl : Form l ws w₁)
      (hr : Form r w₁ rest) : Form (.bin op l r) (w :: ws) rest
  | pair {l r w ws w₁ rest} (hw : keyword w = .pair) (hl : Form l ws w₁) (hr : Form r w₁ rest) :
      Form (.pair l r) (w :: ws) rest
  | left {v w ws w₁ w₂ rest} (hw : keyword w = .left) (lp : T "(".toList ws w₁)
      (hv : Form v w₁ w₂) (rp : T ")".toList w₂ rest) : Form (.left v) (w :: ws) rest
  | right {v w ws w₁ w₂ rest} (hw : keyword w = .right) (lp : T "(".toList ws w₁)
      (hv : Form v w₁ w₂) (rp : T ")".toList w₂ rest) : Form (.right v) (w :: ws) rest
  | matchE {e x l y r w ws w₁ w₂ w₃ w₄ w₅ w₆ w₇ w₈ w₉ w₁₀ w₁₁ w₁₂ rest}
      (hw : keyword w = .matchE) (he : Form e ws w₁) (lb : T "\x7b".toList w₁ w₂)
      (arm₁ : T "Left".toList w₂ w₃) (lp₁ : T "(".toList w₃ (x :: w₄))
      (rp₁ : T ")".toList w₄ w₅) (to₁ : T "=>".toList w₅ w₆) (hl : Form l w₆ w₇)
      (arm₂ : SecondArm T w₇ w₈) (lp₂ : T "(".toList w₈ (y :: w₉)) (rp₂ : T ")".toList w₉ w₁₀)
      (to₂ : T "=>".toList w₁₀ w₁₁) (hr : Form r w₁₁ w₁₂) (rb : T "\x7d".toList w₁₂ rest) :
      Form (.matchE e x l y r) (w :: ws) rest
  | letE {x v b w ws w₁ w₂ w₃ rest} (hw : keyword w = .letE) (hx : x ≠ "rec".toList)
      (eq : T "=".toList ws w₁) (hv : Form v w₁ w₂) (kin : T "in".toList w₂ w₃)
      (hb : Form b w₃ rest) : Form (.letE x v b) (w :: x :: ws) rest
  | letRec {x v b w ws w₁ w₂ w₃ rest} (hw : keyword w = .letE) (eq : T "=".toList ws w₁)
      (hv : Form v w₁ w₂) (kin : T "in".toList w₂ w₃) (hb : Form b w₃ rest) :
      Form (.letRec x v b) (w :: "rec".toList :: x :: ws) rest
  | unpack {x y p b w ws w₁ w₂ w₃ rest} (hw : keyword w = .unpack) (eq : T "=".toList ws w₁)
      (hp : Form p w₁ w₂) (kin : T "in".toList w₂ w₃) (hb : Form b w₃ rest) :
      Form (.unpack x y p b) (w :: x :: y :: ws) rest
  | lambda {x t b w ws w₁ w₂ w₃ rest} (hw : keyword w = .lambda) (colon : T ":".toList ws w₁)
      (ht : TyForm T t w₁ w₂) (arrow : T "->".toList w₂ w₃) (hb : Form b w₃ rest) :
      Form (.lambda x t b) (w :: x :: ws) rest
  | group {e w ws rest} (hw : keyword w = .paren) (he : Form e ws (")".toList :: rest)) :
      Form e (w :: ws) rest
  | app {f a w ws w₁ w₂ rest} (hw : keyword w = .paren) (hf : Form f ws w₁)
      (hop : w₁.head? ≠ some ")".toList) (ha : Form a w₁ w₂) (rp : T ")".toList w₂ rest) :
      Form (.app f a false) (w :: ws) rest
  | word {e w rest} (hw : keyword w = .other) (he : literalOrVar w = e) : Form e (w :: rest) rest

end

/-! ### Soundness -/

theorem readWord_bind {α : Type} (f : Word → Comp (List Word) α) (ws : List Word) :
    (wordReader.readWord >>= f) ws = f (ws.head?.getD []) ws.tail := rfl

theorem readWord_bind_cons {α : Type} (f : Word → Comp (List Word) α) (w : Word)
    (ws : List Word) : (wordReader.readWord >>= f) (w :: ws) = f w ws := rfl

theorem isEof_bind {α : Type} (f : Bool → Comp (List Word) α) (ws : List Word) :
    (wordReader.isEof >>= f) ws = f ws.isEmpty ws := rfl

theorem closes_bind {α : Type} (f : Bool → Comp (List Word) α) (ws : List Word) :
    (wordReader.closes >>= f) ws = f (decide (ws.head? = some ")".toList)) ws := rfl

/-- There is no type at the end of the text. -/
theorem ne_nil_of_parseType {fuel : ℕ} {ws rest : List Word} {t : Ty}
    (h : parseTypeWith wordReader fuel ws = (.ok t, rest)) : ws ≠ [] := by
  rintro rfl
  cases fuel <;> cases h

/-- There is no expression at the end of the text. -/
theorem ne_nil_of_parse {fuel : ℕ} {ws rest : List Word} {e : Expr}
    (h : parseWith wordReader fuel ws = (.ok e, rest)) : ws ≠ [] := by
  rintro rfl
  cases fuel <;> cases h

theorem ne_nil_of_tail {ws : List Word} (h : ws.tail ≠ []) : ws ≠ [] := by
  rintro rfl
  exact h rfl

/-- A list that is not empty is the word read from it and the rest. -/
theorem eq_cons_of_ne_nil {ws : List Word} (h : ws ≠ []) : ws = ws.head?.getD [] :: ws.tail := by
  obtain ⟨w, ws, rfl⟩ := List.exists_cons_of_ne_nil h
  rfl

/-- **What `parse_type` accepts is a form of the type.** -/
theorem parseTypeWith_sound {fuel : ℕ} {ws rest : List Word} {t : Ty}
    (h : parseTypeWith wordReader fuel ws = (.ok t, rest)) : TyForm Dropped t ws rest := by
  induction fuel generalizing ws rest t with
  | zero => cases h
  | succ fuel ih =>
      obtain ⟨w, ws, rfl⟩ := List.exists_cons_of_ne_nil (ne_nil_of_parseType h)
      rw [parseTypeWith, readWord_bind_cons] at h
      simp only [Comp.ite_apply] at h
      split_ifs at h with h1 h2 h3 h4 h5
      · cases h
        exact h1 ▸ .int
      · cases h
        exact h2 ▸ .float
      · cases h
        exact h3 ▸ .any
      · simp only [readWord_bind, Comp.bind_eq_ok_iff, Comp.pure_apply] at h
        obtain ⟨t₁, w₂, ht₁, t₂, w₄, ht₂, h⟩ := h
        cases h
        exact h4 ▸ .pair rfl (ih ht₁) rfl (ih ht₂) rfl
      · simp only [readWord_bind, Comp.bind_eq_ok_iff, Comp.pure_apply] at h
        obtain ⟨t₁, w₂, ht₁, t₂, w₄, ht₂, h⟩ := h
        cases h
        exact h5 ▸ .either rfl (ih ht₁) rfl (ih ht₂) rfl
      · cases h

/-- What is read between the arms of a match: an optional comma and the place of `Right`. -/
theorem rToken_sound {ws rest : List Word} {t : Word}
    (h : rToken wordReader (ws.head?.getD []) ws.tail = (.ok t, rest)) :
    SecondArm Dropped ws rest := by
  rw [rToken, Comp.ite_apply] at h
  split_ifs at h with hcomma
  · cases ws with
    | nil => cases hcomma
    | cons w ws =>
        obtain rfl : w = ",".toList := hcomma
        cases h
        exact .inl ⟨ws, rfl, rfl⟩
  · cases h
    refine .inr ⟨?_, rfl⟩
    intro hc
    rw [hc] at hcomma
    exact hcomma rfl

/-- **What `parse` accepts is a form of the expression**, the words at the places of the fixed
tokens dropped. -/
theorem parseWith_sound {fuel : ℕ} {ws rest : List Word} {e : Expr}
    (h : parseWith wordReader fuel ws = (.ok e, rest)) : Form Dropped e ws rest := by
  induction fuel generalizing ws rest e with
  | zero => cases h
  | succ fuel ih =>
      obtain ⟨w, ws, rfl⟩ := List.exists_cons_of_ne_nil (ne_nil_of_parse h)
      rw [parseWith, isEof_bind, List.isEmpty_cons, if_neg Bool.false_ne_true,
        readWord_bind_cons] at h
      cases hw : keyword w with
      | bin op =>
          simp only [hw, Comp.bind_eq_ok_iff, Comp.pure_apply] at h
          obtain ⟨l, w₁, hl, r, w₂, hr, h⟩ := h
          cases h
          exact .bin hw (ih hl) (ih hr)
      | pair =>
          simp only [hw, Comp.bind_eq_ok_iff, Comp.pure_apply] at h
          obtain ⟨l, w₁, hl, r, w₂, hr, h⟩ := h
          cases h
          exact .pair hw (ih hl) (ih hr)
      | left =>
          simp only [hw, readWord_bind, Comp.bind_eq_ok_iff, Comp.pure_apply] at h
          obtain ⟨v, w₁, hv, h⟩ := h
          cases h
          exact .left hw rfl (ih hv) rfl
      | right =>
          simp only [hw, readWord_bind, Comp.bind_eq_ok_iff, Comp.pure_apply] at h
          obtain ⟨v, w₁, hv, h⟩ := h
          cases h
          exact .right hw rfl (ih hv) rfl
      | matchE =>
          simp only [hw, readWord_bind, Comp.bind_eq_ok_iff, Comp.pure_apply] at h
          obtain ⟨e₁, w₁, he, l, w₇, hl, next, w₈, hn, r, w₁₂, hr, h⟩ := h
          cases h
          have hx := ne_nil_of_tail (ne_nil_of_tail (ne_nil_of_tail (ne_nil_of_parse hl)))
          have hy := ne_nil_of_tail (ne_nil_of_tail (ne_nil_of_tail (ne_nil_of_parse hr)))
          exact .matchE hw (ih he) rfl rfl (eq_cons_of_ne_nil hx).symm rfl rfl (ih hl)
            (rToken_sound hn) (eq_cons_of_ne_nil hy).symm rfl rfl (ih hr) rfl
      | letE =>
          simp only [hw, readWord_bind] at h
          rw [Comp.ite_apply] at h
          split_ifs at h with hrec
          · simp only [readWord_bind, Comp.bind_eq_ok_iff, Comp.pure_apply] at h
            obtain ⟨v, w₁, hv, b, w₂, hb, h⟩ := h
            cases h
            have hx := ne_nil_of_tail (ne_nil_of_parse hv)
            obtain ⟨k, ws, rfl⟩ := List.exists_cons_of_ne_nil (ne_nil_of_tail (ne_nil_of_tail hx))
            obtain ⟨x, ws, rfl⟩ := List.exists_cons_of_ne_nil (ne_nil_of_tail hx)
            obtain rfl : k = "rec".toList := hrec
            exact .letRec hw rfl (ih hv) rfl (ih hb)
          · simp only [readWord_bind, Comp.bind_eq_ok_iff, Comp.pure_apply] at h
            obtain ⟨v, w₁, hv, b, w₂, hb, h⟩ := h
            cases h
            have hx := ne_nil_of_tail (ne_nil_of_parse hv)
            obtain ⟨x, ws, rfl⟩ := List.exists_cons_of_ne_nil (ne_nil_of_tail hx)
            exact .letE hw hrec rfl (ih hv) rfl (ih hb)
      | unpack =>
          simp only [hw, readWord_bind, Comp.bind_eq_ok_iff, Comp.pure_apply] at h
          obtain ⟨p, w₁, hp, b, w₂, hb, h⟩ := h
          cases h
          have hy := ne_nil_of_tail (ne_nil_of_parse hp)
          obtain ⟨x, ws, rfl⟩ := List.exists_cons_of_ne_nil (ne_nil_of_tail (ne_nil_of_tail hy))
          obtain ⟨y, ws, rfl⟩ := List.exists_cons_of_ne_nil (ne_nil_of_tail hy)
          exact .unpack hw rfl (ih hp) rfl (ih hb)
      | lambda =>
          simp only [hw, readWord_bind, Comp.bind_eq_ok_iff, Comp.pure_apply] at h
          obtain ⟨t, w₁, ht, b, w₂, hb, h⟩ := h
          cases h
          have hx := ne_nil_of_tail (ne_nil_of_parseType ht)
          obtain ⟨x, ws, rfl⟩ := List.exists_cons_of_ne_nil (ne_nil_of_tail hx)
          exact .lambda hw rfl (parseTypeWith_sound ht) rfl (ih hb)
      | paren =>
          simp only [hw, closes_bind, Comp.bind_eq_ok_iff, Comp.ite_apply] at h
          obtain ⟨f, w₁, hf, h⟩ := h
          split_ifs at h with hclose
          · simp only [readWord_bind, Comp.pure_apply] at h
            cases h
            obtain ⟨w₂, rfl⟩ := List.head?_eq_some_iff.1 (of_decide_eq_true hclose)
            exact .group hw (ih hf)
          · simp only [readWord_bind, Comp.bind_eq_ok_iff, Comp.pure_apply] at h
            obtain ⟨a, w₂, ha, h⟩ := h
            cases h
            exact .app hw (ih hf) (fun hc => hclose (decide_eq_true hc)) (ih ha) rfl
      | other =>
          simp only [hw, Comp.pure_apply] at h
          cases h
          exact .word hw rfl

/-! ### Completeness -/

theorem TyForm.length_lt {t : Ty} {ws rest : List Word} (h : TyForm Dropped t ws rest) :
    rest.length < ws.length := by
  induction h with
  | int => simp
  | float => simp
  | any => simp
  | pair lp h₁ comma h₂ rp ih₁ ih₂ =>
      obtain ⟨rfl, rfl, rfl⟩ := And.intro lp (And.intro comma rp)
      simp only [List.length_tail, List.length_cons] at *
      omega
  | either lp h₁ comma h₂ rp ih₁ ih₂ =>
      obtain ⟨rfl, rfl, rfl⟩ := And.intro lp (And.intro comma rp)
      simp only [List.length_tail, List.length_cons] at *
      omega

/-- **`parse_type` accepts every form of a type.** -/
theorem parseTypeWith_complete {t : Ty} {ws rest : List Word} (h : TyForm Dropped t ws rest)
    {fuel : ℕ} (hf : ws.length ≤ fuel) : parseTypeWith wordReader fuel ws = (.ok t, rest) := by
  induction h generalizing fuel with
  | int | float | any =>
      obtain ⟨f, rfl⟩ : ∃ f, fuel = f + 1 := ⟨fuel - 1, by simp at hf; omega⟩
      rfl
  | @pair t₁ t₂ ws w₁ w₂ w₃ w₄ rest lp h₁ comma h₂ rp ih₁ ih₂ =>
      obtain ⟨f, rfl⟩ : ∃ f, fuel = f + 1 := ⟨fuel - 1, by simp at hf; omega⟩
      have hl₁ := h₁.length_lt
      obtain ⟨rfl, rfl, rfl⟩ := And.intro lp (And.intro comma rp)
      simp only [List.length_tail, List.length_cons] at *
      rw [parseTypeWith, readWord_bind_cons, if_neg (by decide), if_neg (by decide),
        if_neg (by decide), if_pos rfl, readWord_bind, Comp.bind_of_ok (ih₁ (by omega)),
        readWord_bind, Comp.bind_of_ok (ih₂ (by omega))]
      rfl
  | either lp h₁ comma h₂ rp ih₁ ih₂ =>
      obtain ⟨f, rfl⟩ : ∃ f, fuel = f + 1 := ⟨fuel - 1, by simp at hf; omega⟩
      have hl₁ := h₁.length_lt
      obtain ⟨rfl, rfl, rfl⟩ := And.intro lp (And.intro comma rp)
      simp only [List.length_tail, List.length_cons] at *
      rw [parseTypeWith, readWord_bind_cons, if_neg (by decide), if_neg (by decide),
        if_neg (by decide), if_neg (by decide), if_pos rfl, readWord_bind,
        Comp.bind_of_ok (ih₁ (by omega)), readWord_bind, Comp.bind_of_ok (ih₂ (by omega))]
      rfl

theorem SecondArm.length_le {ws rest : List Word} (h : SecondArm Dropped ws rest) :
    rest.length ≤ ws.length := by
  rcases h with ⟨w₁, rfl, rfl⟩ | ⟨-, rfl⟩
  · simp
    omega
  · simp

theorem Form.length_lt {e : Expr} {ws rest : List Word} (h : Form Dropped e ws rest) :
    rest.length < ws.length := by
  induction h with
  | bin hw hl hr ihl ihr => simp; omega
  | pair hw hl hr ihl ihr => simp; omega
  | left hw lp hv rp ih | right hw lp hv rp ih =>
      obtain ⟨rfl, rfl⟩ := And.intro lp rp
      simp only [List.length_tail, List.length_cons] at *
      omega
  | matchE hw he lb arm₁ lp₁ rp₁ to₁ hl arm₂ lp₂ rp₂ to₂ hr rb ihe ihl ihr =>
      have h2 := arm₂.length_le
      have l1 := congrArg List.length lp₁
      have l2 := congrArg List.length lp₂
      obtain ⟨rfl, rfl, rfl, rfl⟩ := And.intro lb (And.intro arm₁ (And.intro rp₁ to₁))
      obtain ⟨rfl, rfl, rfl⟩ := And.intro rp₂ (And.intro to₂ rb)
      simp only [List.length_tail, List.length_cons] at *
      omega
  | letE hw hx eq hv kin hb ihv ihb | unpack hw eq hp kin hb ihv ihb =>
      obtain ⟨rfl, rfl⟩ := And.intro eq kin
      simp only [List.length_tail, List.length_cons] at *
      omega
  | letRec hw eq hv kin hb ihv ihb =>
      obtain ⟨rfl, rfl⟩ := And.intro eq kin
      simp only [List.length_tail, List.length_cons] at *
      omega
  | lambda hw colon ht arrow hb ihb =>
      have := ht.length_lt
      obtain ⟨rfl, rfl⟩ := And.intro colon arrow
      simp only [List.length_tail, List.length_cons] at *
      omega
  | group hw he ih => simp at *; omega
  | app hw hf hop ha rp ihf iha =>
      obtain rfl := rp
      simp only [List.length_tail, List.length_cons] at *
      omega
  | word hw he => simp

theorem rToken_complete {ws rest : List Word} (h : SecondArm Dropped ws rest) :
    ∃ t, rToken wordReader (ws.head?.getD []) ws.tail = (.ok t, rest) := by
  rcases h with ⟨w₁, rfl, rfl⟩ | ⟨hc, rfl⟩
  · exact ⟨_, rfl⟩
  · have hn : ws.head?.getD [] ≠ ",".toList := by
      cases ws with
      | nil => decide
      | cons w ws => simpa using hc
    rw [rToken, if_neg hn]
    exact ⟨_, rfl⟩

/-- **`parse` accepts every form of an expression**, whatever stands at the places of the fixed
tokens. -/
theorem parseWith_complete {e : Expr} {ws rest : List Word} (h : Form Dropped e ws rest)
    {fuel : ℕ} (hf : ws.length ≤ fuel) : parseWith wordReader fuel ws = (.ok e, rest) := by
  induction fuel generalizing e ws rest with
  | zero =>
      have := h.length_lt
      omega
  | succ fuel ih =>
      obtain ⟨w, v, rfl⟩ : ∃ w v, ws = w :: v := List.exists_cons_of_ne_nil <| by
        rintro rfl
        cases h.length_lt
      rw [parseWith, isEof_bind, List.isEmpty_cons, if_neg Bool.false_ne_true, readWord_bind_cons]
      simp only [List.length_cons, Nat.add_le_add_iff_right] at hf
      cases h with
      | bin hw hl hr | pair hw hl hr =>
          have := hl.length_lt
          simp only [hw]
          rw [Comp.bind_of_ok (ih hl hf), Comp.bind_of_ok (ih hr (by omega))]
          rfl
      | left hw lp hv rp | right hw lp hv rp =>
          obtain ⟨rfl, rfl⟩ := And.intro lp rp
          simp only [hw]
          rw [readWord_bind, Comp.bind_of_ok (ih hv (by simp; omega))]
          rfl
      | matchE hw he lb arm₁ lp₁ rp₁ to₁ hl arm₂ lp₂ rp₂ to₂ hr rb =>
          have hl1 := he.length_lt
          have hl2 := hl.length_lt
          have hl3 := arm₂.length_le
          obtain ⟨rfl, rfl, rfl, rfl⟩ := And.intro lb (And.intro arm₁ (And.intro rp₁ to₁))
          obtain ⟨rfl, rfl, rfl⟩ := And.intro rp₂ (And.intro to₂ rb)
          obtain ⟨t, hn⟩ := rToken_complete arm₂
          rw [Dropped] at lp₁ lp₂
          have l1 := congrArg List.length lp₁
          have l2 := congrArg List.length lp₂
          simp only [List.length_tail, List.length_cons] at l1 l2 hl2
          simp only [hw]
          rw [Comp.bind_of_ok (ih he hf), readWord_bind, readWord_bind, readWord_bind, ← lp₁,
            readWord_bind_cons, readWord_bind, readWord_bind,
            Comp.bind_of_ok (ih hl (by simp; omega)), readWord_bind, Comp.bind_of_ok hn,
            readWord_bind, ← lp₂, readWord_bind_cons, readWord_bind, readWord_bind,
            Comp.bind_of_ok (ih hr (by simp; omega))]
          rfl
      | letE hw hx eq hv kin hb =>
          have := hv.length_lt
          obtain ⟨rfl, rfl⟩ := And.intro eq kin
          simp only [List.length_tail, List.length_cons] at *
          simp only [hw, readWord_bind_cons]
          rw [if_neg hx, readWord_bind, Comp.bind_of_ok (ih hv (by simp; omega)), readWord_bind,
            Comp.bind_of_ok (ih hb (by simp; omega))]
          rfl
      | letRec hw eq hv kin hb =>
          have := hv.length_lt
          obtain ⟨rfl, rfl⟩ := And.intro eq kin
          simp only [List.length_tail, List.length_cons] at *
          simp only [hw]
          rw [readWord_bind_cons, if_pos rfl, readWord_bind_cons, readWord_bind,
            Comp.bind_of_ok (ih hv (by simp; omega)), readWord_bind,
            Comp.bind_of_ok (ih hb (by simp; omega))]
          rfl
      | unpack hw eq hp kin hb =>
          have := hp.length_lt
          obtain ⟨rfl, rfl⟩ := And.intro eq kin
          simp only [List.length_tail, List.length_cons] at *
          simp only [hw, readWord_bind_cons]
          rw [readWord_bind, Comp.bind_of_ok (ih hp (by simp; omega)), readWord_bind,
            Comp.bind_of_ok (ih hb (by simp; omega))]
          rfl
      | lambda hw colon ht arrow hb =>
          have := ht.length_lt
          obtain ⟨rfl, rfl⟩ := And.intro colon arrow
          simp only [List.length_tail, List.length_cons] at *
          simp only [hw, readWord_bind_cons]
          rw [readWord_bind, Comp.bind_of_ok (parseTypeWith_complete ht (by simp; omega)),
            readWord_bind, Comp.bind_of_ok (ih hb (by simp; omega))]
          rfl
      | group hw he =>
          simp only [hw]
          rw [Comp.bind_of_ok (ih he hf), closes_bind]
          rfl
      | app hw hf' hop ha rp =>
          have := hf'.length_lt
          simp only [hw]
          rw [Comp.bind_of_ok (ih hf' hf), closes_bind, if_neg (by simpa using hop),
            Comp.bind_of_ok (ih ha (by omega))]
          exact Prod.ext rfl rp.symm
      | word hw he =>
          simp only [hw, he]
          rfl

/-! ### What the parser accepts -/

/-- The words are those of an expression exactly if they have a form. -/
theorem parseWords_eq_ok_iff {source : List Char} {e : Expr} :
    parseWords source = (.ok e, []) ↔ Form Dropped e (words source) [] := by
  have hlen : (words source).length ≤ utf8Len source :=
    Nat.le_trans (words_length_le source) (length_le_utf8Len source)
  exact ⟨parseWith_sound, fun h => parseWith_complete h (Nat.le_succ_of_le hlen)⟩

/-- **The parser accepts exactly the texts that have a form with the words at the places of the
fixed tokens dropped.**  Any word may stand there, or none at the end of the text; everything
else is the grammar. -/
theorem accepts_iff_form (source : List Char) (e : Expr) :
    accepts source e ↔ Form Dropped e (words source) [] :=
  (accepts_iff source e).trans parseWords_eq_ok_iff

/-- `Left 1 2 3` is accepted as `Left(2)` though neither parenthesis is there. -/
theorem accepts_misplaced_token :
    ¬ ∀ source e, accepts source e → Form Strict e (words source) [] := by
  intro h
  have hw : words "Left 1 2 3".toList = ["Left".toList, "1".toList, "2".toList, "3".toList] := by
    decide
  have hv : Form Dropped (.intLiteral 2) ["2".toList, "3".toList] ["3".toList] :=
    .word (by decide) (by decide)
  have hf : Form Dropped (.left (.intLiteral 2)) (words "Left 1 2 3".toList) [] := by
    rw [hw]
    exact .left (by decide) rfl hv rfl
  have hs := h _ _ ((accepts_iff _ _).2 (parseWords_eq_ok_iff.2 hf))
  rw [hw] at hs
  cases hs with
  | left hw lp hv rp => cases lp
  | group hw he => cases hw

end Autarky
end AiOsExchange
