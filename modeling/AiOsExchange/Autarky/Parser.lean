/-
# The parser

`autarky_vm/src/parser.rs`.  `Parser` walks the source by byte position.  Every look at the
text is a slice `source[pos..]`, which panics beyond the end and inside a character.

| source | here |
| --- | --- |
| `Parser { source, pos }` | `Parser`, the source as its characters, `pos` in bytes |
| `skip_whitespace`, `is_eof`, `read_word` | `skipWhitespace`, `isEof`, `readWord` |
| `parse_type`, `parse` | `parseTypeWith`, `parseWith` over a `Reader`, `parse` over the bytes |

`parse` reads the text only through `read_word`, the test for its end and the test for a
closing parenthesis, so it is written over these three (`Reader`) and can be run on a list of
words as well.  Loops and recursion carry fuel; `parse` has what its source needs.
-/

import AiOsExchange.Autarky.Numerals
import AiOsExchange.Lib.Comp
import Mathlib.Data.List.Basic

namespace AiOsExchange
namespace Autarky

open Computations

/-- `Parser`. -/
structure Parser where
  source : List Char
  pos : ℕ

/-- `Parser::new`. -/
def Parser.new (source : List Char) : Parser := ⟨source, 0⟩

/-! ### Characters -/

/-- `char::is_whitespace`, the Unicode property `White_Space`. -/
def isWhitespace (c : Char) : Bool :=
  (9 ≤ c.toNat && c.toNat ≤ 13) || c.toNat == 0x20 || c.toNat == 0x85 || c.toNat == 0xA0 ||
    c.toNat == 0x1680 || (0x2000 ≤ c.toNat && c.toNat ≤ 0x200A) || c.toNat == 0x2028 ||
    c.toNat == 0x2029 || c.toNat == 0x202F || c.toNat == 0x205F || c.toNat == 0x3000

/-- `char::is_control`, the Unicode category `Cc`. -/
def isControl (c : Char) : Bool := c.toNat ≤ 0x1F || (0x7F ≤ c.toNat && c.toNat ≤ 0x9F)

/-- What `skip_whitespace` skips and `read_word` stops at. -/
def isBlank (c : Char) : Bool := isWhitespace c || isControl c || c == Char.ofNat 0

/-- `"():={},\\#@".contains(c)`. -/
def isDelimiter (c : Char) : Bool := "():={},\\#@".toList.contains c

/-- `starts_with("->") || starts_with("=>")`. -/
def startsWithArrow (cs : List Char) : Bool := "->".toList.isPrefixOf cs || "=>".toList.isPrefixOf cs

/-! ### Slices -/

/-- `str::len`, in bytes. -/
def utf8Len (cs : List Char) : ℕ := (cs.map Char.utf8Size).sum

/-- `&s[pos..]`, `none` where it panics. -/
def sliceFrom : List Char → ℕ → Option (List Char)
  | cs, 0 => some cs
  | [], _ + 1 => none
  | c :: cs, pos + 1 =>
      if c.utf8Size ≤ pos + 1 then sliceFrom cs (pos + 1 - c.utf8Size) else none

/-- `&s[..len]`, `none` where it panics. -/
def sliceTo : List Char → ℕ → Option (List Char)
  | _, 0 => some []
  | [], _ + 1 => none
  | c :: cs, len + 1 =>
      if c.utf8Size ≤ len + 1 then (sliceTo cs (len + 1 - c.utf8Size)).map (c :: ·) else none

/-- A value, or the panic of the operation that has none. -/
def orPanic {α : Type} : Option α → Comp Parser α
  | some a => pure a
  | none => .panic

namespace Parser

/-- `self.source.len()`. -/
def len (p : Parser) : ℕ := utf8Len p.source

/-- `self.source[self.pos..]`. -/
def rest : Comp Parser (List Char) := do
  let p ← .get
  orPanic (sliceFrom p.source p.pos)

/-- `self.source[self.pos..].chars().next().unwrap()`. -/
def nextChar : Comp Parser Char := do
  let cs ← rest
  orPanic cs.head?

/-- `self.pos += n`. -/
def advance (n : ℕ) : Comp Parser Unit := do
  let p ← .get
  .set { p with pos := p.pos + n }

/-- The loop of `skip_whitespace`. -/
def skipLoop : ℕ → Comp Parser Unit
  | 0 => .more
  | fuel + 1 => do
      let p ← .get
      if p.pos < p.len then do
        let c ← nextChar
        if isBlank c then do
          advance c.utf8Size
          skipLoop fuel
        else if c = '@' then .set { p with pos := p.len }
        else pure ()
      else pure ()

/-- `skip_whitespace`. -/
def skipWhitespace : Comp Parser Unit := do
  let p ← .get
  skipLoop (p.len + 1)

/-- `is_eof`. -/
def isEof : Comp Parser Bool := do
  skipWhitespace
  let p ← .get
  pure (decide (p.len ≤ p.pos))

/-- The loop of `read_word`. -/
def wordLoop : ℕ → Word → Comp Parser Word
  | 0, _ => .more
  | fuel + 1, word => do
      let p ← .get
      if p.pos < p.len then do
        let c ← nextChar
        let cs ← rest
        if isBlank c || isDelimiter c || startsWithArrow cs then pure word
        else do
          advance c.utf8Size
          wordLoop fuel (word ++ [c])
      else pure word

/-- `read_word`. -/
def readWord : Comp Parser Word := do
  skipWhitespace
  let p ← .get
  if p.len ≤ p.pos then pure []
  else do
    let cs ← rest
    if startsWithArrow cs then do
      advance 2
      orPanic ((sliceFrom p.source p.pos).bind fun cs => sliceTo cs 2)
    else do
      let c ← nextChar
      if isDelimiter c then do
        advance c.utf8Size
        pure [c]
      else wordLoop (p.len + 1) []

/-- The test of `parse` for a closing parenthesis. -/
def closes : Comp Parser Bool := do
  skipWhitespace
  let p ← .get
  if p.pos < p.len then do
    let cs ← rest
    pure (decide (cs.head? = some ')'))
  else pure false

end Parser

/-! ### The grammar -/

/-- What `parse` needs of a text: the next word, whether the text is over, and whether a
closing parenthesis comes next. -/
structure Reader (σ : Type) where
  readWord : Comp σ Word
  isEof : Comp σ Bool
  closes : Comp σ Bool

/-- What the first word of an expression says it is. -/
inductive Keyword
  | bin (op : BinOp)
  | pair | left | right | matchE | letE | unpack | lambda | paren | other
  deriving DecidableEq

/-- The words `parse` looks for. -/
def keywords : List (Word × Keyword) :=
  [("add".toList, .bin .add), ("sub".toList, .bin .sub), ("mul".toList, .bin .mul),
    ("div".toList, .bin .div), ("eq".toList, .bin .eq), ("gt".toList, .bin .gt),
    ("lt".toList, .bin .lt), ("ge".toList, .bin .ge), ("le".toList, .bin .le),
    ("pair".toList, .pair), ("Left".toList, .left), ("Right".toList, .right),
    ("match".toList, .matchE), ("let".toList, .letE), ("unpack".toList, .unpack),
    ("\\".toList, .lambda), ("(".toList, .paren)]

/-- `match word.as_str()`. -/
def keyword (word : Word) : Keyword := (keywords.lookup word).getD .other

/-- The last arm: a number, or else a variable. -/
def literalOrVar (word : Word) : Expr :=
  match parseI64 word with
  | some n => .intLiteral n
  | none =>
      match parseF64 word with
      | some f => .floatLiteral f
      | none => .var word

section
variable {σ : Type} (R : Reader σ)

/-- `parse_type`.  The words at the places of `(`, `,` and `)` are read and dropped. -/
def parseTypeWith : ℕ → Comp σ Ty
  | 0 => .more
  | fuel + 1 => do
      let t ← R.readWord
      if t = "Int".toList then pure .int
      else if t = "Float".toList then pure .float
      else if t = "Any".toList then pure .any
      else if t = "Pair".toList then do
        let _ ← R.readWord
        let t₁ ← parseTypeWith fuel
        let _ ← R.readWord
        let t₂ ← parseTypeWith fuel
        let _ ← R.readWord
        pure (.pair t₁ t₂)
      else if t = "Either".toList then do
        let _ ← R.readWord
        let t₁ ← parseTypeWith fuel
        let _ ← R.readWord
        let t₂ ← parseTypeWith fuel
        let _ ← R.readWord
        pure (.either t₁ t₂)
      else .err ("Unknown type: " ++ String.ofList t)

/-- `let _r_token = if next == "," { self.read_word() } else { next };` -/
def rToken (next : Word) : Comp σ Word := if next = ",".toList then R.readWord else pure next

/-- `parse`.  The words at the places of the fixed tokens are read and dropped, unlooked at but
for the comma between the arms of a match and the parenthesis after a single expression. -/
def parseWith : ℕ → Comp σ Expr
  | 0 => .more
  | fuel + 1 => do
      if ← R.isEof then .err "EOF"
      else do
        let word ← R.readWord
        match keyword word with
        | .bin op => do
            let l ← parseWith fuel
            let r ← parseWith fuel
            pure (.bin op l r)
        | .pair => do
            let l ← parseWith fuel
            let r ← parseWith fuel
            pure (.pair l r)
        | .left => do
            let _ ← R.readWord
            let v ← parseWith fuel
            let _ ← R.readWord
            pure (.left v)
        | .right => do
            let _ ← R.readWord
            let v ← parseWith fuel
            let _ ← R.readWord
            pure (.right v)
        | .matchE => do
            let expr ← parseWith fuel
            let _ ← R.readWord
            let _ ← R.readWord
            let _ ← R.readWord
            let lVar ← R.readWord
            let _ ← R.readWord
            let _ ← R.readWord
            let lBody ← parseWith fuel
            let next ← R.readWord
            let _ ← rToken R next
            let _ ← R.readWord
            let rVar ← R.readWord
            let _ ← R.readWord
            let _ ← R.readWord
            let rBody ← parseWith fuel
            let _ ← R.readWord
            pure (.matchE expr lVar lBody rVar rBody)
        | .letE => do
            let next ← R.readWord
            if next = "rec".toList then do
              let var ← R.readWord
              let _ ← R.readWord
              let val ← parseWith fuel
              let _ ← R.readWord
              let body ← parseWith fuel
              pure (.letRec var val body)
            else do
              let _ ← R.readWord
              let val ← parseWith fuel
              let _ ← R.readWord
              let body ← parseWith fuel
              pure (.letE next val body)
        | .unpack => do
            let a ← R.readWord
            let b ← R.readWord
            let _ ← R.readWord
            let p ← parseWith fuel
            let _ ← R.readWord
            let body ← parseWith fuel
            pure (.unpack a b p body)
        | .lambda => do
            let p ← R.readWord
            let _ ← R.readWord
            let pt ← parseTypeWith R fuel
            let _ ← R.readWord
            let b ← parseWith fuel
            pure (.lambda p pt b)
        | .paren => do
            let first ← parseWith fuel
            if ← R.closes then do
              let _ ← R.readWord
              pure first
            else do
              let second ← parseWith fuel
              let _ ← R.readWord
              pure (.app first second false)
        | .other => pure (literalOrVar word)

end

/-- Reading by byte position. -/
def byteReader : Reader Parser := ⟨Parser.readWord, Parser.isEof, Parser.closes⟩

/-- `Parser::parse`.  Every call that does not end at once consumes at least a byte. -/
def parse : Comp Parser Expr := do
  let p ← .get
  parseWith byteReader (p.len + 1)

/-- The text is a program: `parse` accepts it and `is_eof` holds after it. -/
def accepts (source : List Char) (e : Expr) : Prop :=
  ∃ p p', parse (.new source) = (.ok e, p) ∧ Parser.isEof p = (.ok true, p')

end Autarky
end AiOsExchange
