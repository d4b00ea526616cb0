/-
# Cartridges

`tools/mkcartridge.py` puts a header before the code of a module.  Who loads the module reads it as a
`cartridge_header_t` (`include/os_loader.h`).

| bytes | `cartridge_header_t` | `mkcartridge.py` |
| --- | --- | --- |
| 0 to 3 | `magic` | `MAGIC_ATKM` |
| 4 to 7 | `module_id` | an argument |
| 8 to 11 | `code_size` | `len(code_data)` |
| 12 to 15 | `text_size` | the sizes of `.text` and `.rodata` |
| 16 to 19 | `bss_size` | the size of `.bss` |
| 20 to 23 | `stack_size` | an argument |
| 24 to 87 | `signature` | zeros |
| from 88 | | the code |

`tools/mkbundle.py` takes every file that it writes, and up to eight of them are found in the bundle as
they were built (`bundled_modules`).
-/

import Mathlib.Data.List.Flatten
import AiOsExchange.Daemon.Director
import AiOsExchange.Tools.Bundle

namespace AiOsExchange
namespace Tools

open Autarky CMemory Daemon

/-! ### Numbers -/

/-- The zeros among the decimal digits outside ASCII, as of Unicode 14.  Behind each of them stand the
other nine digits. -/
def decimalZeros : List ℕ :=
  [0x660, 0x6F0, 0x7C0, 0x966, 0x9E6, 0xA66, 0xAE6, 0xB66, 0xBE6, 0xC66, 0xCE6, 0xD66, 0xDE6, 0xE50,
    0xED0, 0xF20, 0x1040, 0x1090, 0x17E0, 0x1810, 0x1946, 0x19D0, 0x1A80, 0x1A90, 0x1B50, 0x1BB0,
    0x1C40, 0x1C50, 0xA620, 0xA8D0, 0xA900, 0xA9D0, 0xA9F0, 0xAA50, 0xABF0, 0xFF10, 0x104A0,
    0x10D30, 0x11066, 0x110F0, 0x11136, 0x111D0, 0x112F0, 0x11450, 0x114D0, 0x11650, 0x116C0,
    0x11730, 0x118E0, 0x11950, 0x11C50, 0x11D50, 0x11DA0, 0x16A60, 0x16AC0, 0x16B50, 0x1D7CE,
    0x1D7D8, 0x1D7E2, 0x1D7EC, 0x1D7F6, 0x1E140, 0x1E2F0, 0x1E950, 0x1FBF0]

/-- `Py_UNICODE_TODECIMAL`. -/
def toDecimal (c : Char) : Option ℕ :=
  (decimalZeros.find? fun z => z ≤ c.toNat && c.toNat ≤ z + 9).map fun z => c.toNat - z

/-- What `int` makes of a character before it reads the number: a blank or a decimal digit outside
ASCII becomes the one of ASCII, and anything else outside ASCII stands in no number. -/
def transformChar (c : Char) : Char :=
  if c.toNat < 127 then c
  else if isSpace c then ' '
  else
    match toDecimal c with
    | some d => Char.ofNat (48 + d)
    | none => '?'

/-- `Py_ISSPACE`, which is for ASCII and does not have the separators from 28 to 31. -/
def isAsciiSpace (c : Char) : Bool := (9 ≤ c.toNat && c.toNat ≤ 13) || c.toNat == 32

/-- `sys.get_int_max_str_digits()`, by default. -/
def maxStrDigits : ℕ := 4300

/-- `_PyLong_DigitValue`: the value of a digit of any base. -/
def digitValue (c : Char) : ℕ :=
  if 48 ≤ c.toNat && c.toNat ≤ 57 then c.toNat - 48
  else if 97 ≤ c.toNat && c.toNat ≤ 122 then c.toNat - 87
  else if 65 ≤ c.toNat && c.toNat ≤ 90 then c.toNat - 55
  else 36

/-- The digits of a number, from `n` on.  An underscore stands between two of them; `digit` says that
there is one before. -/
def pyDigits (base : ℕ) : Bool → ℕ → Word → Option ℕ
  | digit, n, [] => if digit then some n else none
  | digit, n, c :: cs =>
      if c = '_' then if digit then pyDigits base false n cs else none
      else if digitValue c < base then pyDigits base true (base * n + digitValue c) cs
      else none

/-- What follows `0x`, and an underscore behind it. -/
def behindPrefix : Word → Word
  | '0' :: 'x' :: '_' :: cs => cs
  | '0' :: 'X' :: '_' :: cs => cs
  | '0' :: 'x' :: cs => cs
  | '0' :: 'X' :: cs => cs
  | cs => cs

/-- A number without its sign; the number of its digits is bounded unless the base is a power of 2. -/
def pyNatural (base : ℕ) (s : Word) : Option ℕ :=
  if base = 16 then pyDigits base false 0 (behindPrefix s)
  else if maxStrDigits < s.countP (· ≠ '_') then none
  else pyDigits base false 0 s

/-- `int(s, base)` for the bases 10 and 16. -/
def pyInt (base : ℕ) (s : Word) : Option ℤ :=
  let s := (s.map transformChar).dropWhile isAsciiSpace
  match (s.reverse.dropWhile isAsciiSpace).reverse with
  | '-' :: cs => (pyNatural base cs).map fun n => -n
  | '+' :: cs => (pyNatural base cs).map fun n => n
  | cs => (pyNatural base cs).map fun n => n

example : pyInt 10 "-３_１".toList = some (-31) := by decide +kernel

/-! ### The tool -/

/-- Why the tool writes no cartridge. -/
inductive Fatal
  /-- `int` of an argument. -/
  | valueError
  /-- `objdump` is missing, has failed, or writes a size that is none. -/
  | objdump
  /-- `.text` and `.rodata` are both absent. -/
  | noExecutable
  /-- A number does not fit `'<IIIIII64s'`. -/
  | structError
  deriving DecidableEq

/-- The arguments, and what the tool reads: the code, and the output of `objdump -h` if there is one. -/
structure Build where
  code : List UInt8
  objdump : Option Word
  moduleId : Word
  stackSize : Word

/-- A character at which `str.splitlines` splits. -/
def isLineBreak (c : Char) : Bool :=
  (10 ≤ c.toNat && c.toNat ≤ 13) || (0x1C ≤ c.toNat && c.toNat ≤ 0x1E) || c.toNat == 0x85 ||
    c.toNat == 0x2028 || c.toNat == 0x2029

/-- The loop over the lines of the output: the size in the first line of the section. -/
def sizeIn (sectionName : Word) : List Word → Except Fatal ℤ
  | [] => .ok 0
  | line :: lines =>
      match pyWords line with
      | _ :: name :: size :: _ =>
          if name = sectionName then (pyInt 16 size).elim (.error .objdump) .ok
          else sizeIn sectionName lines
      | _ => sizeIn sectionName lines

/-- `get_section_size`.  The empty lines that `splitlines` does not give have no words. -/
def getSectionSize (objdump : Option Word) (sectionName : Word) : Except Fatal ℤ :=
  objdump.elim (.error .objdump) fun out => sizeIn sectionName (out.splitOnP isLineBreak)

/-- `int` of an argument. -/
def argument (s : Word) : Except Fatal ℤ := (pyInt 10 s).elim (.error .valueError) .ok

/-- A number of a format `'<I'`. -/
def packWord (n : ℤ) : Except Fatal (List UInt8) :=
  if 0 ≤ n ∧ n < 2 ^ 32 then .ok (toLE 4 n.toNat) else .error .structError

/-- The numbers of a format `'<I…I'`. -/
def packWords : List ℤ → Except Fatal (List UInt8)
  | [] => .ok []
  | n :: ns => do
      let word ← packWord n
      let words ← packWords ns
      return word ++ words

/-- `signature`. -/
def signature : List UInt8 := List.replicate 64 0

/-- The tool, up to the file it writes. -/
def mkcartridge (b : Build) : Except Fatal (List UInt8) := do
  let moduleId ← argument b.moduleId
  let stackSize ← argument b.stackSize
  let bssSize ← getSectionSize b.objdump ".bss".toList
  let textSize ← getSectionSize b.objdump ".text".toList
  let rodataSize ← getSectionSize b.objdump ".rodata".toList
  if textSize + rodataSize = 0 then .error .noExecutable
  else do
    let header ← packWords
      [magicAtkm, moduleId, b.code.length, textSize + rodataSize, bssSize, stackSize]
    return header ++ signature ++ b.code

/-! ### The reader -/

/-- `cartridge_header_t`. -/
structure CartridgeHeader where
  magic : ℕ
  moduleId : ℕ
  codeSize : ℕ
  textSize : ℕ
  bssSize : ℕ
  stackSize : ℕ
  signature : List UInt8
  deriving DecidableEq

/-- The header of a cartridge. -/
def cartridgeHeader (file : List UInt8) : CartridgeHeader where
  magic := unpackU32 file 0
  moduleId := unpackU32 file 4
  codeSize := unpackU32 file 8
  textSize := unpackU32 file 12
  bssSize := unpackU32 file 16
  stackSize := unpackU32 file 20
  signature := (file.drop 24).take 64

/-- The code behind the header. -/
def cartridgeCode (file : List UInt8) : List UInt8 := file.drop cartridgeHeaderSize

/-- **A cartridge of this build**: its numbers are the arguments and the sizes that were read. -/
structure Packed (b : Build) (file : List UInt8) : Prop where
  magic : (cartridgeHeader file).magic = magicAtkm
  moduleId : pyInt 10 b.moduleId = some ((cartridgeHeader file).moduleId : ℤ)
  codeSize : (cartridgeHeader file).codeSize = b.code.length
  textSize : ∃ text rodata, getSectionSize b.objdump ".text".toList = .ok text ∧
    getSectionSize b.objdump ".rodata".toList = .ok rodata ∧
    ((cartridgeHeader file).textSize : ℤ) = text + rodata
  textSize_ne : (cartridgeHeader file).textSize ≠ 0
  bssSize : getSectionSize b.objdump ".bss".toList = .ok ((cartridgeHeader file).bssSize : ℤ)
  stackSize : pyInt 10 b.stackSize = some ((cartridgeHeader file).stackSize : ℤ)
  signature : (cartridgeHeader file).signature = signature
  code : cartridgeCode file = b.code

/-! ### What is written -/

section
variable {b : Build} {file bytes rest : List UInt8} {n : ℤ} {ns : List ℤ}

/-- A sequence that came to a value did so in both parts. -/
theorem bind_eq_ok {α β : Type} {x : Except Fatal α} {f : α → Except Fatal β} {r : β}
    (h : (x >>= f) = .ok r) : ∃ a, x = .ok a ∧ f a = .ok r := by
  cases x with
  | error e => cases h
  | ok a => exact ⟨a, rfl, h⟩

theorem argument_eq_ok {s : Word} (h : argument s = .ok n) : pyInt 10 s = some n := by
  rw [argument] at h
  cases hs : pyInt 10 s with
  | none => rw [hs] at h; cases h
  | some m =>
      rw [hs] at h
      rw [Except.ok.inj h]

theorem packWord_eq_ok (h : packWord n = .ok bytes) :
    0 ≤ n ∧ n < 2 ^ 32 ∧ bytes = toLE 4 n.toNat := by
  rw [packWord] at h
  split_ifs at h with hfits
  exact ⟨hfits.1, hfits.2, (Except.ok.inj h).symm⟩

/-- Numbers that are packed fit their words, which stand one behind the other. -/
theorem packWords_eq_ok (h : packWords ns = .ok bytes) :
    (∀ n ∈ ns, 0 ≤ n ∧ n < 2 ^ 32) ∧ bytes = ns.flatMap fun n => toLE 4 n.toNat := by
  induction ns generalizing bytes with
  | nil =>
      obtain rfl := Except.ok.inj h
      exact ⟨fun n hn => absurd hn List.not_mem_nil, rfl⟩
  | cons n ns ih =>
      obtain ⟨word, hword, h⟩ := bind_eq_ok h
      obtain ⟨words, hwords, h⟩ := bind_eq_ok h
      obtain ⟨hnonneg, hlt, rfl⟩ := packWord_eq_ok hword
      obtain ⟨hfits, rfl⟩ := ih hwords
      refine ⟨fun m hm => ?_, (Except.ok.inj h).symm⟩
      rcases List.mem_cons.1 hm with rfl | hm
      · exact ⟨hnonneg, hlt⟩
      · exact hfits m hm

@[simp] theorem flatMap_toLE_length (ns : List ℤ) :
    (ns.flatMap fun n => toLE 4 n.toNat).length = 4 * ns.length := by
  induction ns with
  | nil => rfl
  | cons n ns ih =>
      rw [List.flatMap_cons, List.length_append, ih, toLE_length, List.length_cons]
      omega

/-- A word is read at its place in the header. -/
theorem unpackU32_flatMap (hfits : ∀ n ∈ ns, 0 ≤ n ∧ n < 2 ^ 32) {i : ℕ} (hi : ns[i]? = some n) :
    (unpackU32 ((ns.flatMap fun n => toLE 4 n.toNat) ++ rest) (4 * i) : ℤ) = n := by
  obtain ⟨hlt, hget⟩ := List.getElem?_eq_some_iff.1 hi
  obtain ⟨hnonneg, hn⟩ := hfits n (List.mem_of_getElem? hi)
  have hsplit : (ns.flatMap fun n => toLE 4 n.toNat) =
      ((ns.take i).flatMap fun n => toLE 4 n.toNat) ++
        (toLE 4 n.toNat ++ (ns.drop (i + 1)).flatMap fun n => toLE 4 n.toNat) := by
    rw [← hget, ← List.flatMap_cons (f := fun n : ℤ => toLE 4 n.toNat),
      ← List.drop_eq_getElem_cons hlt, ← List.flatMap_append, List.take_append_drop]
  have hplace : ((ns.take i).flatMap fun n => toLE 4 n.toNat).length = 4 * i := by
    rw [flatMap_toLE_length, List.length_take_of_le hlt.le]
  rw [hsplit, List.append_assoc, List.append_assoc, unpackU32_append hplace (by omega)]
  exact Int.toNat_of_nonneg hnonneg

/-- **What the tool writes is a cartridge of the build.** -/
theorem packed_of_mkcartridge (h : mkcartridge b = .ok file) :
    Packed b file ∧ cartridgeHeaderSize ≤ file.length := by
  rw [mkcartridge] at h
  obtain ⟨moduleId, hmoduleId, h⟩ := bind_eq_ok h
  obtain ⟨stackSize, hstackSize, h⟩ := bind_eq_ok h
  obtain ⟨bssSize, hbssSize, h⟩ := bind_eq_ok h
  obtain ⟨textSize, htextSize, h⟩ := bind_eq_ok h
  obtain ⟨rodataSize, hrodataSize, h⟩ := bind_eq_ok h
  split_ifs at h with hnone
  obtain ⟨header, hheader, h⟩ := bind_eq_ok h
  obtain ⟨ns, hns⟩ : ∃ ns : List ℤ,
      ns = [(magicAtkm : ℤ), moduleId, b.code.length, textSize + rodataSize, bssSize, stackSize] := ⟨_, rfl⟩
  rw [← hns] at hheader
  obtain ⟨hfits, rfl⟩ := packWords_eq_ok hheader
  obtain rfl := Except.ok.inj h
  have hword : ∀ i n, ns[i]? = some n → (unpackU32
      ((ns.flatMap fun n => toLE 4 n.toNat) ++ signature ++ b.code) (4 * i) : ℤ) = n := by
    intro i n hi
    rw [List.append_assoc]
    exact unpackU32_flatMap hfits hi
  have hlength : (ns.flatMap fun n => toLE 4 n.toNat).length = 24 := by
    rw [flatMap_toLE_length, hns]
    rfl
  have htext := hword 3 (textSize + rodataSize) (by rw [hns]; rfl)
  refine ⟨⟨?_, ?_, ?_, ⟨textSize, rodataSize, htextSize, hrodataSize, htext⟩, fun hzero => ?_, ?_, ?_, ?_, ?_⟩, ?_⟩
  · exact Int.ofNat.inj (hword 0 magicAtkm (by rw [hns]; rfl))
  · rw [argument_eq_ok hmoduleId]
    exact congrArg some (hword 1 moduleId (by rw [hns]; rfl)).symm
  · exact Int.ofNat.inj (hword 2 b.code.length (by rw [hns]; rfl))
  · exact hnone (htext.symm.trans (congrArg Nat.cast hzero))
  · rw [hbssSize]
    exact congrArg Except.ok (hword 4 bssSize (by rw [hns]; rfl)).symm
  · rw [argument_eq_ok hstackSize]
    exact congrArg some (hword 5 stackSize (by rw [hns]; rfl)).symm
  · rw [cartridgeHeader, List.append_assoc, List.drop_left' hlength]
    exact List.take_left' rfl
  · refine List.drop_left' ?_
    rw [List.length_append, hlength]
    rfl
  · rw [List.length_append, List.length_append, hlength]
    exact Nat.le_add_right _ _

/-- **`mkbundle.py` takes what `mkcartridge.py` writes.** -/
theorem accepted_of_mkcartridge (h : mkcartridge b = .ok file) : Accepted file :=
  have hpacked := packed_of_mkcartridge h
  ⟨hpacked.2, hpacked.1.magic⟩

end

/-! ### What is read -/

section
variable {builds : List Build} {files : List (List UInt8)}

theorem not_tooLarge (hsmall : bundleHeaderSize + files.flatten.length < 2 ^ 32) : ¬ TooLarge files := by
  rintro ⟨i, data, hdata, hlarge⟩
  have hbefore := (List.take_sublist i files).flatten.length_le
  have hself := (List.sublist_flatten_of_mem (List.mem_of_getElem? hdata)).length_le
  omega

/-- None of the files that were built is skipped. -/
theorem acceptedFiles_of_built (h : List.Forall₂ (fun b file => mkcartridge b = .ok file) builds files) :
    acceptedFiles files = files := by
  induction h with
  | nil => rfl
  | @cons b file builds files hb _ ih =>
      have htaken : acceptedFiles (file :: files) = file :: acceptedFiles files :=
        List.filter_cons_of_pos (decide_eq_true (accepted_of_mkcartridge hb))
      rw [htaken, ih]

/-- **Modules are found as they were built.**  The cartridges of up to eight builds that are not larger
than a word counts are put in a bundle, and at the entry of each is a cartridge of its build. -/
theorem bundled_modules (h : List.Forall₂ (fun b file => mkcartridge b = .ok file) builds files)
    (hne : builds ≠ []) (h8 : builds.length ≤ 8)
    (hsmall : bundleHeaderSize + files.flatten.length < 2 ^ 32) :
    ∃ bundle, mkbundle files = .ok bundle ∧ cartridgeCount bundle = builds.length ∧
      ∀ i b, builds[i]? = some b → Packed b (cartridgeAt bundle (indexOf bundle i)) ∧
        pyInt 10 b.moduleId = some ((indexOf bundle i).moduleId : ℤ) := by
  have hlength := h.length_eq
  have hfiles : files ≠ [] := by
    rintro rfl
    exact hne (List.eq_nil_of_length_eq_zero hlength)
  have hlong : ∀ data ∈ files, 0 < data.length := fun data hdata =>
    pos_of_mem_acceptedFiles ((acceptedFiles_of_built h).symm ▸ hdata)
  have hright := bundleRight_bundleBytes (hlength ▸ h8) (not_tooLarge hsmall)
  refine ⟨bundleBytes files, ?_, hright.count.trans hlength.symm, fun i b hb => ?_⟩
  · rw [mkbundle, if_neg hfiles, acceptedFiles_of_built h,
      writeBundle_of_not_tooLarge (not_tooLarge hsmall) hlong]
  · obtain ⟨hlt, rfl⟩ := List.getElem?_eq_some_iff.1 hb
    have hfile : i < files.length := hlength ▸ hlt
    obtain ⟨hid, -, hat⟩ := hright.entries i _ (List.getElem?_eq_getElem hfile)
    have hpacked := (packed_of_mkcartridge (h.get hlt hfile)).1
    rw [hat, hid]
    exact ⟨hpacked, hpacked.moduleId⟩

end

/-- A module of four bytes of code, with the lines of its sections. -/
def smallBuild : Build where
  code := [0xC0, 0x03, 0x5F, 0xD6]
  objdump := some "Idx Name Size VMA\n  0 .text 00000004 00400000\n  1 .bss 0000001c 00400010\n".toList
  moduleId := "3".toList
  stackSize := "16384".toList

example : (mkcartridge smallBuild).toOption.map cartridgeHeader =
    some ⟨magicAtkm, 3, 4, 4, 28, 16384, signature⟩ := by decide +kernel

theorem built_of_length {b : Build} {k : ℕ} (h : (mkcartridge b).toOption.map List.length = some k) :
    ∃ file, mkcartridge b = .ok file ∧ file.length = k := by
  cases hb : mkcartridge b with
  | error e =>
      rw [hb] at h
      simp [Except.toOption] at h
  | ok file =>
      rw [hb] at h
      exact ⟨file, rfl, Option.some.inj h⟩

/-- Two modules are built and found. -/
theorem two_modules : ∃ files bundle,
    [smallBuild, { smallBuild with moduleId := "4".toList }].map mkcartridge = files.map .ok ∧
      mkbundle files = .ok bundle ∧ cartridgeCount bundle = 2 ∧ (indexOf bundle 1).moduleId = 4 ∧
      cartridgeCode (cartridgeAt bundle (indexOf bundle 1)) = [0xC0, 0x03, 0x5F, 0xD6] := by
  obtain ⟨first, hfirst, hlength⟩ := built_of_length
    (show (mkcartridge smallBuild).toOption.map List.length = some 92 by decide +kernel)
  obtain ⟨second, hsecond, hlength'⟩ := built_of_length
    (show (mkcartridge { smallBuild with moduleId := "4".toList }).toOption.map List.length = some 92 by
      decide +kernel)
  have hsmall : bundleHeaderSize + [first, second].flatten.length < 2 ^ 32 := by
    rw [List.flatten_cons, List.flatten_cons, List.flatten_nil, List.append_nil, List.length_append,
      hlength, hlength']
    decide
  obtain ⟨bundle, hbundle, hcount, hentries⟩ := bundled_modules (.cons hfirst (.cons hsecond .nil))
    (List.cons_ne_nil _ _) (by decide) hsmall
  obtain ⟨hpacked, hid⟩ := hentries 1 _ rfl
  have hfour : pyInt 10 "4".toList = some 4 := by decide +kernel
  refine ⟨[first, second], bundle, ?_, hbundle, hcount, ?_, hpacked.code⟩
  · rw [List.map_cons, List.map_cons, List.map_nil, hfirst, hsecond]
    rfl
  · exact Int.ofNat.inj (Option.some.inj (hid.symm.trans hfour))

end Tools
end AiOsExchange
