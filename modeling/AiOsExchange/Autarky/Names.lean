/-
# Names that can be used

`autarky_vm/src/parser.rs`.  A name that is bound is taken from the text as it is; a name that is
used has to get past the keywords and the numbers.  So a program may bind a word that it cannot use:
a number, a keyword, or the closing parenthesis (`usable_iff`).

| binder | the word taken for its name |
| --- | --- |
| `let`, `let rec` | the next one |
| `\` | the next one |
| `unpack` | the next two |
| `match` | the fourth behind the expression, the second behind the place of `Right` |

`BinderPlaces` is the grammar of the language again, with the words in these places in place of an
expression.
-/

import AiOsExchange.Autarky.Grammar

namespace AiOsExchange
namespace Autarky

open Computations

/-- The binder names stored in an expression. -/
def Expr.binders : Expr → List Word
  | .intLiteral _ | .floatLiteral _ | .var _ => []
  | .bin _ l r | .pair l r => l.binders ++ r.binders
  | .lambda x _ b => x :: b.binders
  | .app f a _ => f.binders ++ a.binders
  | .unpack a b p e => a :: b :: (p.binders ++ e.binders)
  | .left e | .right e => e.binders
  | .matchE e x l y r => e.binders ++ x :: (l.binders ++ y :: r.binders)
  | .letE x v b | .letRec x v b => x :: (v.binders ++ b.binders)

/-- The words `ws` up to `rest` are an expression that has these words in the places of binders. -/
inductive BinderPlaces : List Word → List Word → List Word → Prop
  | two {w ws w₁ rest xs ys} (hw : (∃ op, keyword w = .bin op) ∨ keyword w = .pair)
      (hl : BinderPlaces ws xs w₁) (hr : BinderPlaces w₁ ys rest) :
      BinderPlaces (w :: ws) (xs ++ ys) rest
  | inj {w ws w₁ xs} (hw : keyword w = .left ∨ keyword w = .right)
      (hv : BinderPlaces ws.tail xs w₁) : BinderPlaces (w :: ws) xs w₁.tail
  | matchE {w ws w₁ w₂ w₃ w₄ w₅ w₆ x y xs ys zs} (hw : keyword w = .matchE)
      (he : BinderPlaces ws xs w₁) (hx : x :: w₂ = w₁.tail.tail.tail)
      (hl : BinderPlaces w₂.tail.tail ys w₃) (arm : SecondArm Dropped w₃ w₄) (hy : y :: w₅ = w₄.tail)
      (hr : BinderPlaces w₅.tail.tail zs w₆) :
      BinderPlaces (w :: ws) (xs ++ x :: (ys ++ y :: zs)) w₆.tail
  | letE {w ws w₁ rest x xs ys} (hw : keyword w = .letE) (hx : x ≠ "rec".toList)
      (hv : BinderPlaces ws.tail xs w₁) (hb : BinderPlaces w₁.tail ys rest) :
      BinderPlaces (w :: x :: ws) (x :: (xs ++ ys)) rest
  | letRec {w ws w₁ rest x xs ys} (hw : keyword w = .letE) (hv : BinderPlaces ws.tail xs w₁)
      (hb : BinderPlaces w₁.tail ys rest) :
      BinderPlaces (w :: "rec".toList :: x :: ws) (x :: (xs ++ ys)) rest
  | unpack {w ws w₁ rest x y xs ys} (hw : keyword w = .unpack) (hp : BinderPlaces ws.tail xs w₁)
      (hb : BinderPlaces w₁.tail ys rest) :
      BinderPlaces (w :: x :: y :: ws) (x :: y :: (xs ++ ys)) rest
  | lambda {w ws w₁ rest x xs t} (hw : keyword w = .lambda) (ht : TyForm Dropped t ws.tail w₁)
      (hb : BinderPlaces w₁.tail xs rest) : BinderPlaces (w :: x :: ws) (x :: xs) rest
  | group {w ws rest xs} (hw : keyword w = .paren) (he : BinderPlaces ws xs (")".toList :: rest)) :
      BinderPlaces (w :: ws) xs rest
  | app {w ws w₁ w₂ xs ys} (hw : keyword w = .paren) (hf : BinderPlaces ws xs w₁)
      (hop : w₁.head? ≠ some ")".toList) (ha : BinderPlaces w₁ ys w₂) :
      BinderPlaces (w :: ws) (xs ++ ys) w₂.tail
  | word {w rest} (hw : keyword w = .other) : BinderPlaces (w :: rest) [] rest

/-- A word that is no keyword, no number and not the closing parenthesis. -/
structure IsName (w : Word) : Prop where
  keyword_eq : keyword w = .other
  not_int : parseI64 w = none
  not_float : parseF64 w = none
  not_paren : w ≠ ")".toList

instance (w : Word) : Decidable (IsName w) :=
  decidable_of_iff (keyword w = .other ∧ parseI64 w = none ∧ parseF64 w = none ∧ w ≠ ")".toList)
    ⟨fun ⟨h1, h2, h3, h4⟩ => ⟨h1, h2, h3, h4⟩, fun ⟨h1, h2, h3, h4⟩ => ⟨h1, h2, h3, h4⟩⟩

/-- **A word that can be used as a variable.**  Alone it parses to the variable of its name; where
an expression is expected and it comes next, it is neither taken for the end of a group nor read as
anything else. -/
structure Usable (w : Word) : Prop where
  alone : (parse (.new w)).1 = .ok (.var w)
  opens : ∀ p ws, Reads p (w :: ws) → (Parser.closes p).1 = .ok false
  read : ∀ p ws fuel, Reads p (w :: ws) →
    ∃ p', parseWith byteReader (fuel + 1) p = (.ok (.var w), p') ∧ Reads p' ws

/-! ### The places of binders -/

theorem binders_literalOrVar (w : Word) : (literalOrVar w).binders = [] := by
  rw [literalOrVar]
  split
  · rfl
  · split <;> rfl

/-- **The binders of an expression are the words in the places of binders.** -/
theorem Form.binderPlaces {e : Expr} {ws rest : List Word} (h : Form Dropped e ws rest) :
    BinderPlaces ws e.binders rest := by
  induction h with
  | bin hw hl hr ihl ihr => exact .two (.inl ⟨_, hw⟩) ihl ihr
  | pair hw hl hr ihl ihr => exact .two (.inr hw) ihl ihr
  | left hw lp hv rp ih =>
      obtain ⟨rfl, rfl⟩ := And.intro lp rp
      exact .inj (.inl hw) ih
  | right hw lp hv rp ih =>
      obtain ⟨rfl, rfl⟩ := And.intro lp rp
      exact .inj (.inr hw) ih
  | matchE hw he lb arm₁ lp₁ rp₁ to₁ hl arm₂ lp₂ rp₂ to₂ hr rb ihe ihl ihr =>
      obtain ⟨rfl, rfl, rfl, rfl⟩ := And.intro lb (And.intro arm₁ (And.intro rp₁ to₁))
      obtain ⟨rfl, rfl, rfl⟩ := And.intro rp₂ (And.intro to₂ rb)
      exact .matchE hw ihe lp₁ ihl arm₂ lp₂ ihr
  | letE hw hx eq hv kin hb ihv ihb =>
      obtain ⟨rfl, rfl⟩ := And.intro eq kin
      exact .letE hw hx ihv ihb
  | letRec hw eq hv kin hb ihv ihb =>
      obtain ⟨rfl, rfl⟩ := And.intro eq kin
      exact .letRec hw ihv ihb
  | unpack hw eq hp kin hb ihp ihb =>
      obtain ⟨rfl, rfl⟩ := And.intro eq kin
      exact .unpack hw ihp ihb
  | lambda hw colon ht arrow hb ihb =>
      obtain ⟨rfl, rfl⟩ := And.intro colon arrow
      exact .lambda hw ht ihb
  | group hw he ih => exact .group hw ih
  | app hw hf hop ha rp ihf iha =>
      obtain rfl := rp
      exact .app hw ihf hop iha
  | @word e w rest hw he =>
      rw [← he, binders_literalOrVar]
      exact .word hw

/-- **Words in the places of binders are those of an expression.** -/
theorem BinderPlaces.form {ws xs rest : List Word} (h : BinderPlaces ws xs rest) :
    ∃ e, Form Dropped e ws rest ∧ e.binders = xs := by
  induction h with
  | two hw _ _ ihl ihr =>
      obtain ⟨l, hl, rfl⟩ := ihl
      obtain ⟨r, hr, rfl⟩ := ihr
      rcases hw with ⟨op, hw⟩ | hw
      · exact ⟨_, .bin hw hl hr, rfl⟩
      · exact ⟨_, .pair hw hl hr, rfl⟩
  | inj hw _ ih =>
      obtain ⟨v, hv, rfl⟩ := ih
      rcases hw with hw | hw
      · exact ⟨_, .left hw rfl hv rfl, rfl⟩
      · exact ⟨_, .right hw rfl hv rfl, rfl⟩
  | matchE hw _ hx _ arm hy _ ihe ihl ihr =>
      obtain ⟨e, he, rfl⟩ := ihe
      obtain ⟨l, hl, rfl⟩ := ihl
      obtain ⟨r, hr, rfl⟩ := ihr
      exact ⟨_, .matchE hw he rfl rfl hx rfl rfl hl arm hy rfl rfl hr rfl, rfl⟩
  | letE hw hx _ _ ihv ihb =>
      obtain ⟨v, hv, rfl⟩ := ihv
      obtain ⟨b, hb, rfl⟩ := ihb
      exact ⟨_, .letE hw hx rfl hv rfl hb, rfl⟩
  | letRec hw _ _ ihv ihb =>
      obtain ⟨v, hv, rfl⟩ := ihv
      obtain ⟨b, hb, rfl⟩ := ihb
      exact ⟨_, .letRec hw rfl hv rfl hb, rfl⟩
  | unpack hw _ _ ihp ihb =>
      obtain ⟨p, hp, rfl⟩ := ihp
      obtain ⟨b, hb, rfl⟩ := ihb
      exact ⟨_, .unpack hw rfl hp rfl hb, rfl⟩
  | lambda hw ht _ ihb =>
      obtain ⟨b, hb, rfl⟩ := ihb
      exact ⟨_, .lambda hw rfl ht rfl hb, rfl⟩
  | group hw _ ih =>
      obtain ⟨e, he, rfl⟩ := ih
      exact ⟨_, .group hw he, rfl⟩
  | app hw _ hop _ ihf iha =>
      obtain ⟨f, hf, rfl⟩ := ihf
      obtain ⟨a, ha, rfl⟩ := iha
      exact ⟨_, .app hw hf hop ha rfl, rfl⟩
  | @word w rest hw => exact ⟨_, .word hw rfl, binders_literalOrVar w⟩

section
variable {Q : Word → Prop}

theorem forall_mem_tail {ws : List Word} (h : ∀ w ∈ ws, Q w) : ∀ w ∈ ws.tail, Q w :=
  fun w hw => h w (List.mem_of_mem_tail hw)

theorem TyForm.forall_mem {t : Ty} {ws rest : List Word} (h : TyForm Dropped t ws rest)
    (hws : ∀ w ∈ ws, Q w) : ∀ w ∈ rest, Q w := by
  induction h with
  | int | float | any => exact forall_mem_tail hws
  | pair lp _ comma _ rp ih₁ ih₂ | either lp _ comma _ rp ih₁ ih₂ =>
      obtain ⟨rfl, rfl, rfl⟩ := And.intro lp (And.intro comma rp)
      exact forall_mem_tail (ih₂ (forall_mem_tail (ih₁ (forall_mem_tail (forall_mem_tail hws)))))

theorem SecondArm.forall_mem {ws rest : List Word} (h : SecondArm Dropped ws rest)
    (hws : ∀ w ∈ ws, Q w) : ∀ w ∈ rest, Q w := by
  rcases h with ⟨w₁, rfl, rfl⟩ | ⟨-, rfl⟩
  · exact forall_mem_tail (forall_mem_tail hws)
  · exact forall_mem_tail hws

/-- **The words in the places of binders are words of the text**, as is what is left of it. -/
theorem BinderPlaces.forall_mem {ws xs rest : List Word} (h : BinderPlaces ws xs rest)
    (hws : ∀ w ∈ ws, Q w) : (∀ x ∈ xs, Q x) ∧ ∀ w ∈ rest, Q w := by
  induction h with
  | two _ _ _ ihl ihr =>
      obtain ⟨hxs, hrest⟩ := ihl (forall_mem_tail hws)
      obtain ⟨hys, hrest⟩ := ihr hrest
      exact ⟨List.forall_mem_append.2 ⟨hxs, hys⟩, hrest⟩
  | inj _ _ ih =>
      obtain ⟨hxs, hrest⟩ := ih (forall_mem_tail (forall_mem_tail hws))
      exact ⟨hxs, forall_mem_tail hrest⟩
  | matchE _ _ hx _ arm hy _ ihe ihl ihr =>
      obtain ⟨hxs, hrest⟩ := ihe (forall_mem_tail hws)
      obtain ⟨hx, hrest⟩ := List.forall_mem_cons.1
        (hx ▸ forall_mem_tail (forall_mem_tail (forall_mem_tail hrest)))
      obtain ⟨hys, hrest⟩ := ihl (forall_mem_tail (forall_mem_tail hrest))
      obtain ⟨hy, hrest⟩ := List.forall_mem_cons.1 (hy ▸ forall_mem_tail (arm.forall_mem hrest))
      obtain ⟨hzs, hrest⟩ := ihr (forall_mem_tail (forall_mem_tail hrest))
      refine ⟨?_, forall_mem_tail hrest⟩
      rw [List.forall_mem_append, List.forall_mem_cons, List.forall_mem_append, List.forall_mem_cons]
      exact ⟨hxs, hx, hys, hy, hzs⟩
  | letE _ _ _ _ ihv ihb =>
      obtain ⟨hx, hrest⟩ := List.forall_mem_cons.1 (forall_mem_tail hws)
      obtain ⟨hxs, hrest⟩ := ihv (forall_mem_tail hrest)
      obtain ⟨hys, hrest⟩ := ihb (forall_mem_tail hrest)
      exact ⟨List.forall_mem_cons.2 ⟨hx, List.forall_mem_append.2 ⟨hxs, hys⟩⟩, hrest⟩
  | letRec _ _ _ ihv ihb =>
      obtain ⟨hx, hrest⟩ := List.forall_mem_cons.1 (forall_mem_tail (forall_mem_tail hws))
      obtain ⟨hxs, hrest⟩ := ihv (forall_mem_tail hrest)
      obtain ⟨hys, hrest⟩ := ihb (forall_mem_tail hrest)
      exact ⟨List.forall_mem_cons.2 ⟨hx, List.forall_mem_append.2 ⟨hxs, hys⟩⟩, hrest⟩
  | unpack _ _ _ ihp ihb =>
      obtain ⟨hx, hrest⟩ := List.forall_mem_cons.1 (forall_mem_tail hws)
      obtain ⟨hy, hrest⟩ := List.forall_mem_cons.1 hrest
      obtain ⟨hxs, hrest⟩ := ihp (forall_mem_tail hrest)
      obtain ⟨hys, hrest⟩ := ihb (forall_mem_tail hrest)
      refine ⟨?_, hrest⟩
      rw [List.forall_mem_cons, List.forall_mem_cons, List.forall_mem_append]
      exact ⟨hx, hy, hxs, hys⟩
  | lambda _ ht _ ihb =>
      obtain ⟨hx, hrest⟩ := List.forall_mem_cons.1 (forall_mem_tail hws)
      obtain ⟨hxs, hrest⟩ := ihb (forall_mem_tail (ht.forall_mem (forall_mem_tail hrest)))
      exact ⟨List.forall_mem_cons.2 ⟨hx, hxs⟩, hrest⟩
  | group _ _ ih =>
      obtain ⟨hxs, hrest⟩ := ih (forall_mem_tail hws)
      exact ⟨hxs, forall_mem_tail hrest⟩
  | app _ _ _ _ ihf iha =>
      obtain ⟨hxs, hrest⟩ := ihf (forall_mem_tail hws)
      obtain ⟨hys, hrest⟩ := iha hrest
      exact ⟨List.forall_mem_append.2 ⟨hxs, hys⟩, forall_mem_tail hrest⟩
  | word _ => exact ⟨nofun, forall_mem_tail hws⟩

end

/-! ### A word by itself -/

theorem startsWithArrow_mono {cs ds : List Char} (h : startsWithArrow cs = true) (hp : cs <+: ds) :
    startsWithArrow ds = true := by
  rw [startsWithArrow, Bool.or_eq_true, List.isPrefixOf_iff_prefix, List.isPrefixOf_iff_prefix] at *
  exact h.imp (·.trans hp) (·.trans hp)

theorem takeWord_prefix (cs : List Char) : (takeWord cs).1 <+: cs := by
  induction cs with
  | nil => exact List.nil_prefix
  | cons c cs ih =>
      rw [takeWord]
      split_ifs
      · exact List.nil_prefix
      · exact List.cons_prefix_cons.2 ⟨rfl, ih⟩

/-- A word is not cut when it stands alone. -/
theorem takeWord_alone (cs : List Char) : takeWord (takeWord cs).1 = ((takeWord cs).1, []) := by
  induction cs with
  | nil => rfl
  | cons c cs ih =>
      rw [takeWord]
      split_ifs with hend
      · rfl
      · have hpre : c :: (takeWord cs).1 <+: c :: cs := List.cons_prefix_cons.2 ⟨rfl, takeWord_prefix cs⟩
        have hend' : ¬ endsWord (c :: (takeWord cs).1) = true := by
          intro h
          rw [endsWord, Bool.or_eq_true] at h hend
          exact hend (h.imp_right (startsWithArrow_mono · hpre))
        rw [takeWord, if_neg hend', ih]

/-- A text that its first word takes up. -/
theorem words_eq_singleton {c : Char} {r : List Char} (hb : isBlank c = false) (hc : c ≠ '@')
    (h : nextWord (c :: r) = (c :: r, [])) : words (c :: r) = [c :: r] := by
  have hd : dropBlank (c :: r) = c :: r := by simp [dropBlank, hb, hc]
  rw [words_of_cons hd, h]
  rfl

theorem nextWord_alone {c : Char} (r : List Char) (hb : isBlank c = false) (hc : c ≠ '@') :
    words (nextWord (c :: r)).1 = [(nextWord (c :: r)).1] := by
  rw [nextWord]
  split_ifs with harrow hdelim
  · obtain ⟨d, t, hdt, heq⟩ := eq_of_startsWithArrow harrow
    rw [heq]
    rcases hdt with rfl | rfl <;> rfl
  · have hone : ¬ startsWithArrow [c] = true := fun h =>
      harrow (startsWithArrow_mono h (List.cons_prefix_cons.2 ⟨rfl, List.nil_prefix⟩))
    exact words_eq_singleton hb hc (by rw [nextWord, if_neg hone, if_pos hdelim])
  · have hend : ¬ endsWord (c :: r) = true := by simp [endsWord, hb, harrow, hdelim]
    have halone := takeWord_alone (c :: r)
    have hpre := takeWord_prefix (c :: r)
    rw [takeWord, if_neg hend] at halone hpre ⊢
    have harrow' : ¬ startsWithArrow (c :: (takeWord r).1) = true := fun h =>
      harrow (startsWithArrow_mono h hpre)
    exact words_eq_singleton hb hc (by rw [nextWord, if_neg harrow', if_neg hdelim, halone])

/-- **A word of a text is the only word of itself.** -/
theorem words_alone {cs : List Char} {w : Word} (h : w ∈ words cs) : words w = [w] := by
  have key (n : ℕ) (cs : List Char) (hw : w ∈ wordsUpTo n cs) : words w = [w] := by
    induction n generalizing cs with
    | zero => cases hw
    | succ n ih =>
        rw [wordsUpTo] at hw
        cases hd : dropBlank cs with
        | nil =>
            rw [hd] at hw
            cases hw
        | cons c r =>
            rw [hd] at hw
            obtain ⟨hb, hc⟩ := of_dropBlank_eq_cons hd
            rcases List.mem_cons.1 hw with rfl | hw
            · exact nextWord_alone r hb hc
            · exact ih _ hw
  exact key _ _ h

/-! ### Usable words -/

/-- A word that is no keyword is an expression. -/
theorem parseWith_word {w : Word} (ws : List Word) (fuel : ℕ) (hw : keyword w = .other) :
    parseWith wordReader (fuel + 1) (w :: ws) = (.ok (literalOrVar w), ws) := by
  rw [parseWith, isEof_bind, List.isEmpty_cons, if_neg Bool.false_ne_true, readWord_bind_cons]
  simp only [hw]
  rfl

theorem literalOrVar_eq_var_iff {w : Word} :
    literalOrVar w = .var w ↔ parseI64 w = none ∧ parseF64 w = none := by
  rw [literalOrVar]
  cases parseI64 w with
  | some n => simp
  | none => cases parseF64 w <;> simp

/-- **A word can be used exactly if it is a name.** -/
theorem usable_iff {w : Word} (hw : words w = [w]) : Usable w ↔ IsName w := by
  have hreads : Reads (.new w) [w] := ⟨w, .new w, hw⟩
  have hparse : (parse (.new w)).1 = (parseWith wordReader (utf8Len w + 1) [w]).1 := by
    rw [(parse_sim w).1, parseWords, hw]
  constructor
  · rintro ⟨halone, hopens, -⟩
    have hne : w ≠ ")".toList := by
      have h := (byteReader_sim.closes _ _ hreads).1
      rw [show byteReader.closes (.new w) = Parser.closes (.new w) from rfl, hopens _ _ hreads] at h
      simpa [wordReader, eq_comm] using h
    rw [hparse] at halone
    obtain ⟨rest, hform⟩ : ∃ rest, Form Dropped (.var w) [w] rest :=
      ⟨_, parseWith_sound (Prod.ext halone rfl)⟩
    cases hform with
    | group _ he => exact absurd he.length_lt (by simp)
    | word hk he =>
        obtain ⟨hi, hf⟩ := literalOrVar_eq_var_iff.1 he
        exact ⟨hk, hi, hf, hne⟩
  · rintro ⟨hk, hi, hf, hne⟩
    have hvar := literalOrVar_eq_var_iff.2 ⟨hi, hf⟩
    refine ⟨?_, fun p ws hp => ?_, fun p ws fuel hp => ?_⟩
    · rw [hparse, parseWith_word [] _ hk, hvar]
    · have h := (byteReader_sim.closes _ _ hp).1
      refine h.trans ?_
      simp only [wordReader, List.head?_cons, Option.some.injEq, Out.ok.injEq, decide_eq_false_iff_not]
      exact hne
    · have h := parseWith_sim byteReader_sim (fuel + 1) p (w :: ws) hp
      rw [parseWith_word ws fuel hk, hvar] at h
      exact ⟨_, Prod.ext h.1 rfl, h.2⟩

/-- **A name that can be bound can be used exactly if no number, keyword or closing parenthesis
stands in the place of a binder.** -/
theorem binders_usable_iff (source : List Char) :
    (∀ e, accepts source e → ∀ x ∈ e.binders, Usable x) ↔
      ∀ xs, BinderPlaces (words source) xs [] → ∀ x ∈ xs, IsName x := by
  constructor
  · intro h xs hxs x hx
    obtain ⟨e, he, rfl⟩ := hxs.form
    have hwords := (hxs.forall_mem fun w hw => words_alone hw).1
    exact (usable_iff (hwords x hx)).1 (h e ((accepts_iff _ _).2 (parseWords_eq_ok_iff.2 he)) x hx)
  · intro h e he x hx
    have hplaces := (parseWords_eq_ok_iff.1 ((accepts_iff _ _).1 he)).binderPlaces
    have hwords := (hplaces.forall_mem fun w hw => words_alone hw).1
    exact (usable_iff (hwords x hx)).2 (h _ hplaces x hx)

/-- `let 1 = 2 in 1` binds the word `1`, which in the body is the number. -/
theorem number_bound : ¬ ∀ source e, accepts source e → ∀ x ∈ e.binders, Usable x := by
  intro h
  have hw : words "let 1 = 2 in 1".toList =
      ["let".toList, "1".toList, "=".toList, "2".toList, "in".toList, "1".toList] := by
    decide
  have hform : Form Dropped (.letE "1".toList (.intLiteral 2) (.intLiteral 1))
      (words "let 1 = 2 in 1".toList) [] := by
    rw [hw]
    exact .letE (by decide) (by decide) rfl (.word (by decide) (by decide)) rfl
      (.word (by decide) (by decide))
  have huse := h _ _ ((accepts_iff _ _).2 (parseWords_eq_ok_iff.2 hform)) "1".toList (by decide)
  have hname := (usable_iff (by decide)).1 huse
  exact absurd hname (by decide)

end Autarky
end AiOsExchange
