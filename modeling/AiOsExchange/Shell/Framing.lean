/-
# Trades and lines

The loop of `trade.listen` (`modules/shell_gui/main.c`) reads the UART one character at a time
into `trade_payload` and takes what it has for a trade if it begins with a brace.

| the inner loop ends | what follows |
| --- | --- |
| on a line end | is the next line |
| on 255 characters | is taken for the next line, too |

So a line of more than 255 characters falls into pieces.  `Capture` is the loop; `lines` and
`unended` are what the bytes are, cut at the line ends.  A run of polls captures the pieces of the lines
(`run_captureStep`), and these are the lines that begin with a brace under a condition on lines of
more than 255 characters alone (`trades_framed_iff`).
-/

import AiOsExchange.Shell.Main

namespace AiOsExchange
namespace Shell

open CMemory Runs

/-! ### The loop -/

/-- `trade_payload` up to `index`, `timeout_counter`, and what was taken for a trade so far. -/
structure Capture where
  tradePayload : List UInt8
  timeoutCounter : ℕ
  trades : List (List UInt8)

/-- The loop begins here. -/
def Capture.start : Capture := ⟨[], 0, []⟩

/-- Behind the inner loop, and the next turn. -/
def Capture.endLine (x : Capture) : Capture where
  tradePayload := []
  timeoutCounter := 0
  trades := if x.tradePayload.head? = some 123 then x.trades ++ [x.tradePayload] else x.trades

/-- One `sys_uart_recv`; 0 is no character. -/
def captureStep (x : Capture) (currentChar : UInt8) : Capture :=
  if currentChar = 0 then
    if x.timeoutCounter + 1 > timeoutMax then { x with tradePayload := [], timeoutCounter := 0 }
    else { x with timeoutCounter := x.timeoutCounter + 1 }
  else if currentChar = 10 ∨ currentChar = 13 then x.endLine
  else
    let x := { x with tradePayload := x.tradePayload ++ [currentChar], timeoutCounter := 0 }
    if x.tradePayload.length < 255 then x else x.endLine

/-- **The shell's step in the loop is this one**: what is taken for a trade is sent. -/
theorem captureChar_eq (pay : Buf) (c : UInt8) (x : Capture) :
    captureChar pay c x.tradePayload x.timeoutCounter =
      match (captureStep x c).trades.drop x.trades.length with
      | [] => .listen (captureStep x c).tradePayload (captureStep x c).timeoutCounter
      | payload :: _ => .send (tradeRequest pay payload) true := by
  have hline (l : List UInt8) (t : ℕ) : captureLine pay l =
      match (Capture.endLine ⟨l, t, x.trades⟩).trades.drop x.trades.length with
      | [] => .listen [] 0
      | payload :: _ => .send (tradeRequest pay payload) true := by
    rw [captureLine, Capture.endLine]
    split_ifs with hl
    · simp
    · simp
  simp only [captureChar, captureStep, List.length_append, List.length_singleton]
  split_ifs with h0 htime hend hroom
  · simp
  · simp
  · exact hline _ x.timeoutCounter
  · simp
  · exact hline _ 0

/-! ### Lines -/

/-- It begins with a brace. -/
def isTrade (l : List UInt8) : Bool := l.head? = some 123

/-- What is taken for a trade at the end of the inner loop. -/
theorem endLine_eq (l : List UInt8) (t : ℕ) (T : List (List UInt8)) :
    Capture.endLine ⟨l, t, T⟩ = ⟨[], 0, T ++ [l].filter isTrade⟩ := by
  rw [Capture.endLine]
  by_cases hl : l.head? = some 123
  · simp [isTrade, hl]
  · simp [isTrade, hl]

/-- A line end. -/
def isLineEnd (c : UInt8) : Bool := c = 10 ∨ c = 13

/-- What is between the line ends, the first bytes preceded by `r`. -/
def segments (r bytes : List UInt8) : List (List UInt8) :=
  (bytes.splitOnP isLineEnd).modifyHead (r ++ ·)

/-- The lines: what is before a line end. -/
def lines (bytes : List UInt8) : List (List UInt8) := (bytes.splitOnP isLineEnd).dropLast

/-- What is behind the last line end. -/
def unended (bytes : List UInt8) : List UInt8 := (bytes.splitOnP isLineEnd).getLast?.getD []

/-- The first `n` pieces of 255 characters. -/
def pieces (l : List UInt8) (n : ℕ) : List (List UInt8) :=
  (List.range n).map fun k => (l.drop (255 * k)).take 255

/-- What is captured of a line, of which the last piece may be shorter or empty. -/
def lineTrades (l : List UInt8) : List (List UInt8) :=
  (pieces l (l.length / 255 + 1)).filter isTrade

/-- What is captured before the line end comes. -/
def unendedTrades (l : List UInt8) : List (List UInt8) := (pieces l (l.length / 255)).filter isTrade

/-- No more than `TIMEOUT_MAX` polls in a row find no character. -/
def NoLongGap (polls : List UInt8) : Prop :=
  ∀ pre n post, polls = pre ++ List.replicate n 0 ++ post → n ≤ timeoutMax

section
variable {r bytes polls l : List UInt8} {c : UInt8} {t : ℕ}

theorem segments_cons_end (h : isLineEnd c = true) :
    segments r (c :: bytes) = r :: segments [] bytes := by
  have hhead : (bytes.splitOnP isLineEnd).modifyHead ([] ++ ·) = bytes.splitOnP isLineEnd := by
    cases bytes.splitOnP isLineEnd <;> rfl
  rw [segments, segments, List.splitOnP_cons_eq_if_modifyHead, if_pos h, hhead, List.modifyHead_cons,
    List.append_nil]

theorem segments_cons (h : isLineEnd c = false) :
    segments r (c :: bytes) = segments (r ++ [c]) bytes := by
  rw [segments, segments, List.splitOnP_cons_eq_if_modifyHead, h]
  cases bytes.splitOnP isLineEnd <;> simp

theorem segments_ne_nil (r bytes : List UInt8) : segments r bytes ≠ [] := by
  have h := List.splitOnP_ne_nil isLineEnd bytes
  rw [segments]
  cases hs : bytes.splitOnP isLineEnd with
  | nil => exact absurd hs h
  | cons l ls => simp

theorem pieces_succ (l : List UInt8) (n : ℕ) :
    pieces l (n + 1) = pieces l n ++ [(l.drop (255 * n)).take 255] := by
  rw [pieces, pieces, List.range_succ, List.map_append, List.map_singleton]

/-- The part of `l` that is in the payload. -/
def lastPiece (l : List UInt8) : List UInt8 := l.drop (255 * (l.length / 255))

/-- The last piece of a line is what is in the payload. -/
theorem lineTrades_eq (l : List UInt8) :
    lineTrades l = unendedTrades l ++ [lastPiece l].filter isTrade := by
  have htake : (lastPiece l).take 255 = lastPiece l :=
    List.take_of_length_le (by rw [lastPiece, List.length_drop]; omega)
  rw [lineTrades, unendedTrades, pieces_succ, List.filter_append, ← lastPiece, htake]

/-- A piece that is not full. -/
theorem pieces_concat {n : ℕ} (h : 255 * n ≤ r.length) (c : UInt8) :
    pieces (r ++ [c]) n = pieces r n := by
  refine List.map_congr_left fun k hk => ?_
  have hk := List.mem_range.1 hk
  rw [List.drop_append_of_le_length (by omega), List.take_append_of_le_length (by simp; omega)]

/-- The next character in the payload. -/
theorem lastPiece_concat (c : UInt8) :
    (unendedTrades (r ++ [c]) = unendedTrades r ∧ lastPiece (r ++ [c]) = lastPiece r ++ [c] ∧
      (lastPiece r).length + 1 < 255) ∨
    (unendedTrades (r ++ [c]) = unendedTrades r ++ [lastPiece r ++ [c]].filter isTrade ∧
      lastPiece (r ++ [c]) = [] ∧ (lastPiece r).length + 1 = 255) := by
  have hlen : (lastPiece r).length = r.length % 255 := by
    rw [lastPiece, List.length_drop]
    omega
  have hdrop : (r ++ [c]).drop (255 * (r.length / 255)) = lastPiece r ++ [c] := by
    rw [lastPiece, List.drop_append_of_le_length (by omega)]
  have hadd : (r ++ [c]).length = r.length + 1 := List.length_append
  rcases Nat.lt_or_ge (r.length % 255 + 1) 255 with hlt | hge
  · have hdiv : (r.length + 1) / 255 = r.length / 255 := by omega
    refine .inl ⟨?_, ?_, by omega⟩
    · rw [unendedTrades, unendedTrades, hadd, hdiv, pieces_concat (by omega)]
    · rw [lastPiece, hadd, hdiv, hdrop]
  · have hdiv : (r.length + 1) / 255 = r.length / 255 + 1 := by omega
    have htake : (lastPiece r ++ [c]).take 255 = lastPiece r ++ [c] :=
      List.take_of_length_le (by rw [List.length_append, List.length_singleton]; omega)
    refine .inr ⟨?_, ?_, by omega⟩
    · rw [unendedTrades, unendedTrades, hadd, hdiv, pieces_succ, pieces_concat (by omega),
        List.filter_append, hdrop, htake]
    · rw [lastPiece, hadd, hdiv, List.drop_eq_nil_of_le (by rw [hadd]; omega)]

/-! ### Runs of the loop -/

/-- What is captured of segments, the last of which has no end yet. -/
def captured (ls : List (List UInt8)) : List (List UInt8) :=
  ls.dropLast.flatMap lineTrades ++ unendedTrades (ls.getLast?.getD [])

theorem captured_cons (l : List UInt8) {ls : List (List UInt8)} (h : ls ≠ []) :
    captured (l :: ls) = lineTrades l ++ captured ls := by
  obtain ⟨m, ms, rfl⟩ := List.exists_cons_of_ne_nil h
  rw [captured, captured, List.dropLast_cons_cons, List.flatMap_cons, List.getLast?_cons_cons,
    List.append_assoc]

theorem NoLongGap.of_cons (h : NoLongGap (List.replicate t 0 ++ c :: polls)) : NoLongGap polls := by
  intro pre n post heq
  refine h (List.replicate t 0 ++ c :: pre) n post ?_
  rw [heq]
  simp

/-- **What a run captures**, with `r` of a line behind it and the rest of the line to come. -/
theorem run_captureStep_from (T : List (List UInt8))
    (hgap : NoLongGap (List.replicate t 0 ++ polls)) :
    (run captureStep ⟨lastPiece r, t, T ++ unendedTrades r⟩ polls).trades =
      T ++ captured (segments r (polls.filter (· ≠ 0))) := by
  induction polls generalizing r t T with
  | nil => simp [segments, captured, run]
  | cons c polls ih =>
      rw [run_cons]
      by_cases h0 : c = 0
      · -- no character: the counter goes up, by the gap not beyond its limit
        subst h0
        have hlong := hgap [] (t + 1) polls (by simp [List.replicate_succ'])
        have hstep : captureStep ⟨lastPiece r, t, T ++ unendedTrades r⟩ 0 =
            ⟨lastPiece r, t + 1, T ++ unendedTrades r⟩ := by
          simp only [captureStep, if_true]
          rw [if_neg (by omega)]
        rw [hstep, ih T (by simpa [List.replicate_succ'] using hgap)]
        simp
      · have hrest : NoLongGap (List.replicate 0 0 ++ polls) := hgap.of_cons
        rw [List.filter_cons_of_pos (by simpa using h0)]
        by_cases hend : c = 10 ∨ c = 13
        · have hstep : captureStep ⟨lastPiece r, t, T ++ unendedTrades r⟩ c =
              ⟨lastPiece [], 0, (T ++ lineTrades r) ++ unendedTrades []⟩ := by
            rw [captureStep, if_neg h0, if_pos hend, endLine_eq, List.append_assoc,
              ← lineTrades_eq]
            simp [lastPiece, unendedTrades, pieces]
          rw [hstep, ih _ hrest, segments_cons_end (by simpa [isLineEnd] using hend),
            captured_cons _ (segments_ne_nil _ _), List.append_assoc]
        · have hstep : captureStep ⟨lastPiece r, t, T ++ unendedTrades r⟩ c =
              ⟨lastPiece (r ++ [c]), 0, T ++ unendedTrades (r ++ [c])⟩ := by
            rw [captureStep, if_neg h0, if_neg hend]
            rcases lastPiece_concat (r := r) c with ⟨htrades, hpiece, hlen⟩ | ⟨htrades, hpiece, hlen⟩
            · simp only [List.length_append, List.length_singleton, if_pos hlen]
              rw [htrades, hpiece]
            · simp only [List.length_append, List.length_singleton, hlen, lt_self_iff_false,
                if_false]
              rw [endLine_eq, htrades, hpiece, List.append_assoc]
          rw [hstep, ih _ hrest, segments_cons (by simpa [isLineEnd] using hend)]

/-- What `trade.listen` takes for trades in a run of polls. -/
def tradesTaken (polls : List UInt8) : List (List UInt8) :=
  (run captureStep Capture.start polls).trades

/-- The bytes that came in. -/
def received (polls : List UInt8) : List UInt8 := polls.filter (· ≠ 0)

/-- **A run takes the pieces of the lines that begin with a brace**, whole lines or not. -/
theorem run_captureStep (hgap : NoLongGap polls) :
    tradesTaken polls =
      (lines (received polls)).flatMap lineTrades ++ unendedTrades (unended (received polls)) := by
  have hstart : Capture.start = ⟨lastPiece [], 0, [] ++ unendedTrades []⟩ := rfl
  have hhead : segments [] (received polls) = (received polls).splitOnP isLineEnd := by
    rw [segments]
    cases (received polls).splitOnP isLineEnd <;> rfl
  have hgap : NoLongGap (List.replicate 0 0 ++ polls) := by simpa using hgap
  have h := run_captureStep_from (r := []) [] hgap
  rw [tradesTaken, hstart, h, List.nil_append, ← received, hhead]
  rfl

/-! ### When the pieces are the lines -/

/-- The line is taken as one payload, or not at all. -/
def InOnePiece (l : List UInt8) : Prop :=
  (isTrade l → l.length ≤ 255) ∧ ∀ k, l[255 * (k + 1)]? ≠ some 123

/-- No full piece of the line to come begins with a brace. -/
def NoneEarly (l : List UInt8) : Prop := ∀ k < l.length / 255, l[255 * k]? ≠ some 123

theorem isTrade_piece (l : List UInt8) (k : ℕ) :
    isTrade ((l.drop (255 * k)).take 255) = decide (l[255 * k]? = some 123) := by
  rw [isTrade, List.head?_take, if_neg (by omega), List.head?_drop]

theorem filter_pieces_eq_nil (l : List UInt8) (n : ℕ) :
    (pieces l n).filter isTrade = [] ↔ ∀ k < n, l[255 * k]? ≠ some 123 := by
  simp only [pieces, List.filter_eq_nil_iff, List.mem_map, List.mem_range, forall_exists_index,
    and_imp, forall_apply_eq_imp_iff₂, isTrade_piece, decide_eq_true_eq, ne_eq]

theorem unendedTrades_eq_nil : unendedTrades l = [] ↔ NoneEarly l := filter_pieces_eq_nil _ _

theorem InOnePiece.of_length_le (h : l.length ≤ 255) : InOnePiece l := by
  refine ⟨fun _ => h, fun k => ?_⟩
  rw [List.getElem?_eq_none (by omega)]
  simp

/-- A payload has at most 255 characters. -/
theorem length_le_of_mem_pieces {p : List UInt8} {n : ℕ} (h : p ∈ pieces l n) : p.length ≤ 255 := by
  obtain ⟨k, -, rfl⟩ := List.mem_map.1 h
  rw [List.length_take]
  omega

theorem pieces_cons (l : List UInt8) (n : ℕ) :
    pieces l (n + 1) = l.take 255 :: (List.range n).map fun k =>
      (l.drop (255 * (k + 1))).take 255 := by
  rw [pieces, List.range_succ_eq_map, List.map_cons, List.map_map]
  rfl

theorem isTrade_take (l : List UInt8) : isTrade (l.take 255) = isTrade l := by
  rw [isTrade, isTrade, List.head?_take, if_neg (by omega)]

/-- A line that begins with a brace gives at least one payload. -/
theorem length_filter_le (l : List UInt8) :
    ([l].filter isTrade).length ≤ (lineTrades l).length := by
  by_cases hl : isTrade l
  · have htake : isTrade (l.take 255) = true := by rw [isTrade_take, hl]
    rw [lineTrades, pieces_cons, List.filter_cons_of_pos htake]
    simp [hl]
  · simp [hl]

/-- **When a line is taken as what it is.** -/
theorem lineTrades_eq_iff : lineTrades l = [l].filter isTrade ↔ InOnePiece l := by
  by_cases hl : isTrade l
  · rw [List.filter_cons_of_pos hl, List.filter_nil]
    constructor
    · intro h
      have hmem : l ∈ lineTrades l := by rw [h]; exact List.mem_singleton_self l
      have hlen : l.length ≤ 255 := length_le_of_mem_pieces (List.mem_of_mem_filter hmem)
      exact .of_length_le hlen
    · intro h
      have hlen := h.1 hl
      have htake : l.take 255 = l := List.take_of_length_le hlen
      rw [lineTrades, pieces_cons, htake, List.filter_cons_of_pos hl, List.cons_inj_right,
        List.filter_eq_nil_iff]
      intro p hp
      obtain ⟨k, -, rfl⟩ := List.mem_map.1 hp
      rw [isTrade_piece, decide_eq_true_eq]
      exact h.2 k
  · rw [List.filter_cons_of_neg hl, List.filter_nil, lineTrades, filter_pieces_eq_nil]
    constructor
    · intro h
      refine ⟨fun htrade => absurd htrade hl, fun k => ?_⟩
      rcases Nat.lt_or_ge (k + 1) (l.length / 255 + 1) with hk | hk
      · exact h (k + 1) hk
      · rw [List.getElem?_eq_none (by omega)]
        simp
    · intro h k _
      rcases k with _ | k
      · rw [Nat.mul_zero, ← List.head?_eq_getElem?]
        simpa [isTrade] using hl
      · exact h.2 k

/-- Where each part is at least as long as what it has to be, nothing is left over. -/
theorem flatMap_append_eq {α β : Type} {f g : α → List β} {R : List β} {ls : List α}
    (hle : ∀ l, (g l).length ≤ (f l).length) (h : ls.flatMap f ++ R = ls.flatMap g) :
    (∀ l ∈ ls, f l = g l) ∧ R = [] := by
  have hall (ms : List α) : (ms.flatMap g).length ≤ (ms.flatMap f).length := by
    induction ms with
    | nil => exact le_rfl
    | cons m ms ih =>
        rw [List.flatMap_cons, List.flatMap_cons, List.length_append, List.length_append]
        exact Nat.add_le_add (hle m) ih
  induction ls with
  | nil => exact ⟨by simp, by simpa using h⟩
  | cons l ls ih =>
      rw [List.flatMap_cons, List.flatMap_cons, List.append_assoc] at h
      have hlen := congrArg List.length h
      simp only [List.length_append] at hlen
      have hl := hle l
      have hls := hall ls
      obtain ⟨hhead, htail⟩ := List.append_inj h (by omega)
      obtain ⟨hmem, hR⟩ := ih htail
      exact ⟨List.forall_mem_cons.2 ⟨hhead, hmem⟩, hR⟩

/-- **The trades are the lines that begin with a brace** if and only if none of these has more than
255 characters, no line has a brace behind a multiple of 255 characters, and of the line to come no
full piece begins with a brace. -/
theorem trades_framed_iff (hgap : NoLongGap polls) :
    tradesTaken polls = (lines (received polls)).filter isTrade ↔
      (∀ l ∈ lines (received polls), InOnePiece l) ∧ NoneEarly (unended (received polls)) := by
  have hfilter (ls : List (List UInt8)) :
      ls.filter isTrade = ls.flatMap fun l => [l].filter isTrade := by
    induction ls with
    | nil => rfl
    | cons l ls ih => rw [List.flatMap_cons, ← ih, ← List.filter_append, List.singleton_append]
  rw [run_captureStep hgap, hfilter]
  constructor
  · intro h
    obtain ⟨hlines, hrest⟩ := flatMap_append_eq length_filter_le h
    exact ⟨fun l hl => lineTrades_eq_iff.1 (hlines l hl), unendedTrades_eq_nil.1 hrest⟩
  · rintro ⟨hlines, hrest⟩
    rw [unendedTrades_eq_nil.2 hrest, List.append_nil]
    exact List.flatMap_congr fun l hl => lineTrades_eq_iff.2 (hlines l hl)

theorem NoLongGap.of_no_zero (h : 0 ∉ polls) : NoLongGap polls := by
  rintro pre n post rfl
  rcases n with _ | n
  · exact Nat.zero_le _
  · exact absurd (by simp [List.replicate_succ]) h

/-- Two lines, one of them a trade. -/
theorem short_lines_framed :
    tradesTaken [123, 125, 13, 10, 120, 10] = (lines [123, 125, 13, 10, 120, 10]).filter isTrade := by
  refine (trades_framed_iff (.of_no_zero (by decide))).2 ⟨?_, ?_⟩
  · have hlines : lines (received [123, 125, 13, 10, 120, 10]) = [[123, 125], [], [120]] := by
      decide
    intro l hl
    refine .of_length_le ?_
    rw [hlines] at hl
    have hshort : ∀ m ∈ ([[123, 125], [], [120]] : List (List UInt8)), m.length ≤ 255 := by decide
    exact hshort l hl
  · have hrest : unended (received [123, 125, 13, 10, 120, 10]) = [] := by decide
    rw [hrest]
    exact fun k hk => absurd hk (Nat.not_lt_zero k)

/-- A line of 256 characters is taken without its last one. -/
theorem long_line_cut :
    NoLongGap (123 :: List.replicate 255 97 ++ [10]) ∧
      tradesTaken (123 :: List.replicate 255 97 ++ [10]) = [123 :: List.replicate 254 97] ∧
      (lines (received (123 :: List.replicate 255 97 ++ [10]))).filter isTrade =
        [123 :: List.replicate 255 97] := by
  refine ⟨.of_no_zero (by decide +kernel), by decide +kernel, by decide +kernel⟩

end

end Shell
end AiOsExchange
