/-
# The trade log

The loop of `trade.listen` (`modules/shell_gui/main.c`) sends every captured line to the kernel
as a write of `TRADES.LOG` and prints that it is committed when the reply comes.

A write makes a new file.  The first trade is in the log if the volume has room for it; the
second makes another file of the same name behind the first, which no lookup finds.  So the
log has all that was acknowledged in runs in which every write has room, its name being new
(`HasRoom`), and from a volume without the file in no other runs (`trades_logged`).
-/

import AiOsExchange.Fat32.NewFile
import AiOsExchange.Lib.Run
import AiOsExchange.Shell.WriteBack

namespace AiOsExchange
namespace Shell

open CMemory Computations Autarky Fat32 Kernel Runs

/-! ### Runs of the loop -/

/-- A captured line of at most 242 bytes, and what is on the two stacks when it is sent. -/
structure Trade where
  line : List UInt8
  captured : Captured line
  short : line.length ≤ 242
  pay : Buf
  loc : Locals

/-- The write of a trade. -/
def Trade.write (t : Trade) : ShellWrite := .trade t.line t.captured

/-- The kernel, and the lines the shell has called committed. -/
structure Session where
  kernel : KernelState
  acked : List (List UInt8)

/-- One turn of the loop: the request is sent, and a reply of type `FS_WRITE_RESP` is taken for
the commit. -/
def tradeStep (fmtValue : Value → List Char) (x : Session) (t : Trade) : Session :=
  match handleRequest fmtValue 0 t.loc (tradeRequest t.pay t.line) x.kernel with
  | (.ok (some reply), k) =>
      ⟨k, if reply.type = .fsWriteResp then x.acked ++ [t.line] else x.acked⟩
  | (_, k) => ⟨k, x.acked⟩

/-- The lines as the log is to have them. -/
def logLines (lines : List (List UInt8)) : List UInt8 := lines.flatMap (· ++ [10])

/-- A mounted volume whose block requests all succeed. -/
structure Mounted where
  kernel : KernelState
  count : ℕ
  root : List ℕ
  volume : kernel.fs.WellFormed count root
  io : ∀ n, kernel.fs.io n = true

/-- The run of the loop begins here. -/
def Mounted.start (m : Mounted) : Session := ⟨m.kernel, []⟩

/-- The file `TRADES.LOG` has all lines that were acknowledged, in their order. -/
def Logged (m : Mounted) (x : Session) : Prop :=
  x.acked ≠ [] → ∃ slot chain, x.kernel.fs.Stores m.count m.root fileTrades slot chain ∧
    logLines x.acked <:+: x.kernel.fs.content m.root slot chain

/-- A write of `TRADES.LOG` has room, and the name is new. -/
def HasRoom (m : Mounted) (x : Session) : Prop :=
  ∃ c i, x.kernel.fs.Room m.count fileTrades c i

/-- No slot of the root directory has the name. -/
def Fresh (m : Mounted) (s : FatState) : Prop :=
  ∀ n < 16 * (s.sectorsPerCluster * m.root.length),
    slotName (s.dirSector m.root n) (n % 16) ≠ formatFatName fileTrades

/-! ### One turn -/

section
variable {fmtValue : Value → List Char} {m : Mounted} {x : Session}

/-- **What a turn does**: one more line is acknowledged, whatever became of it. -/
theorem tradeStep_spec (t : Trade) :
    (tradeStep fmtValue x t).acked = x.acked ++ [t.line] ∧
      x.kernel.fs.Later (tradeStep fmtValue x t).kernel.fs ∧
      (tradeStep fmtValue x t).kernel.fs.disk =
        x.kernel.fs.written fileTrades (logLines [t.line]) := by
  obtain ⟨reply, k', hw, htype, -, hlater, hd⟩ :=
    @write_acknowledged fmtValue 0 t.loc t.pay x.kernel t.write
  have hdata : t.write.data = logLines [t.line] := by
    simp [Trade.write, ShellWrite.data, logLines, List.take_of_length_le t.short]
  have hstep : tradeStep fmtValue x t = ⟨k', x.acked ++ [t.line]⟩ := by
    have hreq : tradeRequest t.pay t.line = t.write.message t.pay := rfl
    rw [tradeStep, hreq, hw]
    simp only [htype, if_true]
  rw [hstep]
  refine ⟨rfl, hlater, ?_⟩
  rw [hd, hdata]
  rfl

/-- The log as a run that had room leaves it: nothing yet, or one line in a slot before which,
and at which, no slot is free. -/
def OneLine (m : Mounted) (x : Session) : Prop :=
  x.acked = [] ∨ ∃ line i c, x.acked = [line] ∧ x.kernel.fs.Stores m.count m.root fileTrades i [c] ∧
    x.kernel.fs.content m.root i [c] = logLines [line] ∧ i < 16 ∧
    ∀ k, freeSlot (x.kernel.fs.disk x.kernel.fs.rootSector).buf = some k → i < k

/-- The volume stays mounted. -/
structure Sound (m : Mounted) (x : Session) : Prop where
  volume : x.kernel.fs.WellFormed m.count m.root
  io : ∀ n, x.kernel.fs.io n = true
  log : OneLine m x

theorem logged_of_sound (h : Sound m x) : Logged m x := by
  intro hne
  rcases h.log with hnil | ⟨line, i, c, hacked, hs, hc, -⟩
  · exact absurd hnil hne
  · have hlog := hc.trans (congrArg logLines hacked.symm)
    exact ⟨i, [c], hs, hlog ▸ List.infix_refl _⟩

/-- The name is not new where the log is. -/
theorem not_hasRoom_of_line {i c : ℕ} (h : Sound m x)
    (hs : x.kernel.fs.Stores m.count m.root fileTrades i [c]) (hi : i < 16)
    (hbehind : ∀ k, freeSlot (x.kernel.fs.disk x.kernel.fs.rootSector).buf = some k → i < k) :
    ¬ HasRoom m x := by
  rintro ⟨c', k, hr⟩
  have hname := hs.name
  rw [h.volume.dirSector_eq hi, Nat.mod_eq_of_lt hi] at hname
  exact hr.new i (hbehind k hr.slot) hname

theorem logLines_length_le {line : List UInt8} (hl : line.length ≤ 242) :
    (logLines [line]).length ≤ 512 := by
  simp [logLines]
  omega

/-- **A turn with room logs its line.** -/
theorem sound_tradeStep (t : Trade) (h : Sound m x) (hroom : HasRoom m x) :
    Sound m (tradeStep fmtValue x t) := by
  obtain ⟨hacked, hlater, hd⟩ := @tradeStep_spec fmtValue x t
  have hnil : x.acked = [] := h.log.resolve_right fun ⟨_, _, _, _, hs, _, hi, hbehind⟩ =>
    not_hasRoom_of_line h hs hi hbehind hroom
  obtain ⟨c, i, hr⟩ := hroom
  have hwf := wellFormed_of_room h.volume h.io hr hlater.geometry hd
  have hname : (0 : UInt8) ∉ fileTrades := by decide
  obtain ⟨hs, hc⟩ := stores_of_room h.volume h.io hr hlater.geometry hd hname
    (logLines_length_le t.short)
  have hi := (freeSlot_eq_some_iff.1 hr.slot).1
  refine ⟨hwf, hlater.io_true h.io, .inr ⟨t.line, i, c, by rw [hacked, hnil]; rfl, hs, hc,
    (freeSlot_eq_some_iff.1 hr.slot).1, fun k hk => ?_⟩⟩
  exact lt_freeSlot_of_room h.volume h.io hr hlater.geometry hd hname (by decide) hk

/-- Where the name is new, only a free cluster or a free slot can be wanting. -/
theorem none_of_no_room (hcount : 126 ≤ m.count) (h : Sound m x) (hfresh : Fresh m x.kernel.fs)
    (hroom : ¬ HasRoom m x) :
    freeCluster (x.kernel.fs.disk x.kernel.fs.fatStartSector).buf = none ∨
      freeSlot (x.kernel.fs.disk x.kernel.fs.rootSector).buf = none := by
  by_contra hsome
  obtain ⟨hc, hk⟩ := not_or.1 hsome
  obtain ⟨c, hc⟩ := Option.ne_none_iff_exists'.1 hc
  obtain ⟨k, hk⟩ := Option.ne_none_iff_exists'.1 hk
  have hbounds := freeCluster_bounds hc
  have hk16 := (freeSlot_eq_some_iff.1 hk).1
  have hsectors := Nat.mul_le_mul h.volume.layout.sectorsPerCluster_pos h.volume.rootChain.length_pos
  refine hroom ⟨c, k, hc, ⟨hbounds.1, by omega⟩, hk, fun j hj => ?_⟩
  have := hfresh j (by omega)
  rwa [h.volume.dirSector_eq (by omega), Nat.mod_eq_of_lt (by omega)] at this

/-- **A second line is not in the log**: the first file of the name stays as it is. -/
theorem not_logged_of_line (t : Trade) (hcount : 126 ≤ m.count) (h : Sound m x)
    {line : List UInt8} {i c : ℕ} (hone : x.acked = [line])
    (hi : x.kernel.fs.Stores m.count m.root fileTrades i [c])
    (hcontent : x.kernel.fs.content m.root i [c] = logLines [line]) (hi16 : i < 16)
    (hbehind : ∀ k, freeSlot (x.kernel.fs.disk x.kernel.fs.rootSector).buf = some k → i < k) :
    ¬ Logged m (tradeStep fmtValue x t) := by
  obtain ⟨hacked, hlater, hd⟩ := @tradeStep_spec fmtValue x t
  have hchain := h.volume.rootChain
  rw [← hlater.geometry] at hchain
  have hvalid : ∀ c, freeCluster (x.kernel.fs.disk x.kernel.fs.fatStartSector).buf = some c →
      ValidCluster m.count c := by
    intro c hc
    have := freeCluster_bounds hc
    exact ⟨this.1, by omega⟩
  have hsame {j : ℕ} (hj : j ≤ i) :
      slotName ((tradeStep fmtValue x t).kernel.fs.dirSector m.root j) (j % 16) =
          slotName (x.kernel.fs.dirSector m.root j) (j % 16) ∧
        slotSize ((tradeStep fmtValue x t).kernel.fs.dirSector m.root j) (j % 16) =
          slotSize (x.kernel.fs.dirSector m.root j) (j % 16) := by
    have hj16 : j < 16 := by omega
    rw [FatState.dirSector_of_chain hchain hj16, h.volume.dirSector_eq hj16, Nat.mod_eq_of_lt hj16]
    exact slot_of_write h.volume h.io hvalid hlater.geometry hd hj16 fun k hk => by
      have := hbehind k hk
      omega
  intro hlog
  obtain ⟨slot, chain, hs, hlines⟩ := hlog (by rw [hacked]; simp)
  have hle : slot ≤ i := by
    by_contra hgt
    exact hs.first i (by omega) ((hsame (Nat.le_refl i)).1.trans hi.name)
  obtain rfl : slot = i := by
    by_contra hne
    exact hi.first slot (by omega) ((hsame hle).1.symm.trans hs.name)
  have hlen := hlines.length_le
  rw [FatState.content_length, (hsame hle).2, ← FatState.content_length _ _ _ [c], hcontent, hacked,
    hone] at hlen
  simp [logLines] at hlen

/-- **A turn without room loses its line**, on a volume whose other files have other names. -/
theorem not_logged_of_no_room (t : Trade) (hcount : 126 ≤ m.count) (h : Sound m x)
    (hfresh : x.acked = [] → Fresh m x.kernel.fs) (hroom : ¬ HasRoom m x) :
    ¬ Logged m (tradeStep fmtValue x t) := by
  rcases h.log with hnil | ⟨line, i, c, hone, hi, hcontent, hi16, hbehind⟩
  · obtain ⟨hacked, hlater, hd⟩ := @tradeStep_spec fmtValue x t
    intro hlog
    obtain ⟨slot, chain, hs, -⟩ := hlog (by rw [hacked]; simp)
    have hlt := hs.slot_lt
    rw [hlater.geometry] at hlt
    have hdir := dirSector_of_no_slot h.volume (fun c hc => by
      have := freeCluster_bounds hc
      exact ⟨this.1, by omega⟩) h.io hlater.geometry hd
      (none_of_no_room hcount h (hfresh hnil) hroom) hlt
    have hname := hs.name
    rw [hdir] at hname
    exact hfresh hnil slot hlt hname
  · exact not_logged_of_line t hcount h hone hi hcontent hi16 hbehind

theorem sound_start (m : Mounted) : Sound m m.start := ⟨m.volume, m.io, .inl rfl⟩

end

/-! ### Runs -/

/-- **When the trade log is durable.**  In a run whose writes all have room, the log has every
acknowledged line in every state; from a volume of at least 126 clusters without the file, in no
other run. -/
theorem trades_logged (fmtValue : Value → List Char) (m : Mounted) (trades : List Trade) :
    (StepsMeet (tradeStep fmtValue) (fun x _ => HasRoom m x) m.start trades →
      ∀ pre, pre <+: trades → Logged m (run (tradeStep fmtValue) m.start pre)) ∧
    (126 ≤ m.count → Fresh m m.kernel.fs →
      (∀ pre, pre <+: trades → Logged m (run (tradeStep fmtValue) m.start pre)) →
        StepsMeet (tradeStep fmtValue) (fun x _ => HasRoom m x) m.start trades) := by
  constructor
  · intro hok pre hpre
    exact logged_of_sound (run_invariant (fun x t h hroom => sound_tradeStep t h hroom)
      (sound_start m) (hok.of_isPrefix hpre))
  · intro hcount hfresh
    have hinv := @forall_prefix_iff_stepsMeet _ _ (tradeStep fmtValue) (fun x _ => HasRoom m x)
      (fun x => Sound m x ∧ (x.acked = [] → Fresh m x.kernel.fs)) (Logged m)
      (fun x t h hroom => ⟨sound_tradeStep t h.1 hroom, fun hnil => by
        rw [(tradeStep_spec t).1] at hnil
        simp at hnil⟩)
      (fun x h => logged_of_sound h.1)
      (fun x t h hroom => not_logged_of_no_room t hcount h.1 h.2 hroom)
      m.start ⟨sound_start m, fun _ => hfresh⟩ trades
    exact hinv.1

/-! ### Two trades -/

/-- A volume with a file `A` and nothing else. -/
def freshMount : Mounted where
  kernel := kernelOn (oneFileVolume (ascii "A") [])
  count := 126
  root := [2]
  volume := oneFileVolume_wellFormed
  io := fun _ => rfl

/-- The trade `{}`. -/
def emptyTrade : Trade where
  line := ascii "{}"
  captured := ⟨by decide, rfl, forall_mem_of_all (by decide)⟩
  short := by decide
  pay := fun _ => 0
  loc := ⟨fun _ => 0, fun _ => 0, fun _ => 0, fun _ => 0⟩

/-- The second of two trades is acknowledged, and not in the log. -/
theorem second_trade_lost : ¬ ∀ fmtValue m trades,
    Logged m (run (tradeStep fmtValue) m.start trades) := by
  intro h
  have hroom : HasRoom freshMount freshMount.start :=
    ⟨4, 1, by decide +kernel, by unfold ValidCluster; decide, by decide +kernel, by decide +kernel⟩
  have hsound := @sound_tradeStep (fun _ => []) _ _ emptyTrade (sound_start freshMount) hroom
  have hlost := h (fun _ => []) freshMount [emptyTrade, emptyTrade]
  rw [run_cons, run_cons, run_nil] at hlost
  rcases hsound.log with hnil | ⟨line, i, c, hone, hi, hcontent, hi16, hbehind⟩
  · rw [(tradeStep_spec emptyTrade).1] at hnil
    simp at hnil
  · exact not_logged_of_line emptyTrade (Nat.le_refl 126) hsound hone hi hcontent hi16 hbehind hlost

end Shell
end AiOsExchange
