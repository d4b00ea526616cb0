/-
# A store of small files

What the four operations of `modules/fs/fat32.c` are for, apart from the volume they work on.  A
store has a number of places and a number of free clusters.  A place is free, or has a file, or
something else that the operations only list: a subdirectory, a volume label, a part of a long
name, a file that has not one cluster.  A file is a name, a size and 512 bytes.

| operation | on the store |
| --- | --- |
| write | takes a cluster, and the first free place for the new file if there is one |
| append | changes the first file of the name, or is a write |
| read | shows the first file of the name |
| list | shows a line for each place that is taken |

Nothing looks at a name before it is written, so two files may have one.
-/

import AiOsExchange.Fat32.Unmounted
import AiOsExchange.Lib.First
import AiOsExchange.Lib.Refine

namespace AiOsExchange
namespace Fat32

open CMemory Runs Firsts

/-! ### Files -/

/-- A file: its name on the volume, the size it is said to have, and the bytes that are kept. -/
structure StoredFile where
  name : List UInt8
  size : ℕ
  block : Sector

namespace StoredFile

/-- A new file has the first 512 bytes of the data, and zeros behind them. -/
def create (name : List UInt8) (data : Buf) (length : ℕ) : StoredFile where
  name := name
  size := length
  block := fun k => if (k : ℕ) < length then data k else 0

/-- How much of `length` bytes is appended: what the sector takes that the file ends in. -/
def room (size length : ℕ) : ℕ := min length (512 - size % 512)

/-- An append goes behind the size, which is taken modulo 512 in the block and counts in 32 bits. -/
def extend (data : Buf) (length : ℕ) (f : StoredFile) : StoredFile :=
  let o := f.size % 512
  let n := room f.size length
  { f with
    size := (f.size + n) % 2 ^ 32
    block := fun k => if o ≤ k ∧ k < o + n then data (k - o) else f.block k }

/-- The text of the file in a buffer for `m` bytes. -/
def text (f : StoredFile) (m : ℕ) : List UInt8 :=
  ((List.ofFn f.block).take (min f.size m)).takeWhile (· ≠ 0)

end StoredFile

/-! ### Places -/

/-- A place of the directory. -/
inductive Place
  | free
  | file (f : StoredFile)
  | other (name : List UInt8) (listed : Bool)

/-- A name as a listing shows it: without its blanks, with a dot before the extension. -/
def nameLine (name : List UInt8) : List UInt8 :=
  (name.take 8).filter (· ≠ 32) ++
    (if name[8]? ≠ some 32 then 46 :: (name.drop 8).filter (· ≠ 32) else []) ++ [10]

namespace Place

/-- Nothing is there. -/
def isFree : Place → Bool
  | free => true
  | _ => false

/-- Something is there that is no file of one cluster. -/
def isOther : Place → Bool
  | other _ _ => true
  | _ => false

/-- The name of what is there. -/
def name : Place → Option (List UInt8)
  | free => none
  | file f => some f.name
  | other n _ => some n

/-- What is there has this name. -/
def hasName (target : List UInt8) (p : Place) : Bool := decide (p.name = some target)

/-- The line of a listing. -/
def line : Place → List UInt8
  | free => []
  | file f => nameLine f.name
  | other n listed => if listed then nameLine n else []

/-- An append to what is there. -/
def extend (data : Buf) (length : ℕ) : Place → Place
  | file f => file (f.extend data length)
  | p => p

@[simp] theorem extend_name (p : Place) (data : Buf) (length : ℕ) :
    (p.extend data length).name = p.name := by
  cases p <;> rfl

theorem hasName_iff {target : List UInt8} {p : Place} :
    p.hasName target = true ↔ p.name = some target := decide_eq_true_iff

/-- A free place has no name. -/
theorem hasName_of_isFree {target : List UInt8} {p : Place} (h : p.isFree = true) :
    p.hasName target = false := by
  cases p with
  | free => exact decide_eq_false fun hn => Option.some_ne_none _ hn.symm
  | file f => cases h
  | other n listed => cases h

end Place

/-! ### The store -/

/-- The places of the directory, and how many clusters are free. -/
structure Store where
  places : List Place
  clusters : ℕ

namespace Store

/-- What an operation on a name finds. -/
def find (st : Store) (name : List UInt8) : Option Place := st.places.find? (Place.hasName name)

/-- A write. -/
def write (name : List UInt8) (data : Buf) (length : ℕ) (st : Store) : Store :=
  if st.clusters = 0 then st
  else
    { places := changeFirst Place.isFree (fun _ => .file (.create name data length)) st.places
      clusters := st.clusters - 1 }

/-- An append. -/
def append (name : List UInt8) (data : Buf) (length : ℕ) (st : Store) : Store :=
  match st.find name with
  | none => st.write name data length
  | some _ =>
      { st with places := changeFirst (Place.hasName name) (Place.extend data length) st.places }

/-- The text that a read shows in a buffer for `m` bytes. -/
def read (name : List UInt8) (m : ℕ) (st : Store) : List UInt8 :=
  match st.find name with
  | some (.file f) => f.text m
  | _ => fileNotFound.take m

/-- The text of a listing. -/
def list (st : Store) : List UInt8 := (st.places.flatMap Place.line).takeWhile (· ≠ 0)

/-- A request, with the text it shows. -/
def step (st : Store) : FsRequest → List UInt8 × Store
  | .list _ _ => (st.list, st)
  | .read filename _ maxLen => (st.read (formatFatName filename) (maxLen - 1), st)
  | .write filename data length => ([], st.write (formatFatName filename) data length)
  | .append _ filename data length => ([], st.append (formatFatName filename) data length)

/-- What the name leads to is no file that the operations keep. -/
def Foreign (st : Store) (name : List UInt8) : Prop :=
  (st.find name).any Place.isOther = true

instance (st : Store) (name : List UInt8) : Decidable (st.Foreign name) :=
  inferInstanceAs (Decidable (_ = true))

end Store

/-- A string that names a file: its name on the volume does not begin with the mark of a deleted
entry. -/
structure ProperName (filename : List UInt8) : Prop where
  nul : (0 : UInt8) ∉ filename
  mark : (formatFatName filename).head? ≠ some 0xE5

instance (filename : List UInt8) : Decidable (ProperName filename) :=
  decidable_of_iff ((0 : UInt8) ∉ filename ∧ (formatFatName filename).head? ≠ some 0xE5)
    ⟨fun h => ⟨h.1, h.2⟩, fun h => ⟨h.1, h.2⟩⟩

/-- **What a request has to observe.**  A listing has room for 16 lines; the buffer of a read has
room for the error text, and for no more than a sector; an append has fuel for one cluster. -/
def Store.Admits (st : Store) : FsRequest → Prop
  | .list _ maxLen => 208 < maxLen
  | .read filename _ maxLen =>
      ProperName filename ∧ 16 < maxLen ∧ maxLen ≤ 513 ∧ ¬ st.Foreign (formatFatName filename)
  | .write filename _ length => ProperName filename ∧ length < 2 ^ 32
  | .append fuel filename _ length =>
      0 < fuel ∧ ProperName filename ∧ length < 2 ^ 32 ∧ ¬ st.Foreign (formatFatName filename)

instance (st : Store) : (req : FsRequest) → Decidable (st.Admits req)
  | .list _ maxLen => inferInstanceAs (Decidable (208 < maxLen))
  | .read filename _ maxLen => inferInstanceAs (Decidable
      (ProperName filename ∧ 16 < maxLen ∧ maxLen ≤ 513 ∧ ¬ st.Foreign (formatFatName filename)))
  | .write filename _ length => inferInstanceAs (Decidable (ProperName filename ∧ length < 2 ^ 32))
  | .append fuel filename _ length => inferInstanceAs (Decidable
      (0 < fuel ∧ ProperName filename ∧ length < 2 ^ 32 ∧ ¬ st.Foreign (formatFatName filename)))

end Fat32
end AiOsExchange
