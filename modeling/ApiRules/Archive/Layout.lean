import ApiRules.Archive.Bytes

/-!
Layouts of values in an archive. A value has an inner part of fixed size and an outer part, which the
inner one points to and which stands before it. Pointers are signed distances from the pointer to its
target.

Outer parts stand in the order in which the inner parts point to them. A reader is given the range
that is still free for them, and gives back where the free range starts afterwards, so no two values
share a byte.
-/
namespace ApiRules.Archive

/-- A value laid out with its outer part at a given position: the outer part, and the inner part by
the position where that one stands. -/
structure Written where
  outer : Bytes
  inner : Nat → Bytes
  /-- Whether each length and each pointer has room in its field. -/
  fits : Nat → Bool

structure Layout (α : Type) where
  /-- The size of the inner part. -/
  size : Nat
  write : (position : Nat) → α → Written
  /-- Reads an inner part at `position`, whose outer part stands from `low` on and before `high`. -/
  read : (data : Array UInt8) → (low high position : Nat) → Option (α × Nat)

namespace Layout

/-- A byte for each value of a small type. -/
def byte (toByte : α → UInt8) (ofByte? : UInt8 → Option α) : Layout α where
  size := 1
  write _ a := ⟨[], fun _ => [toByte a], fun _ => true⟩
  read data low _ position := (ofByte? (data.getD position 0)).map (·, low)

/-- An unsigned number of 32 bits. -/
def word : Layout UInt32 where
  size := 4
  write _ n := ⟨[], fun _ => ofNat 4 n.toNat, fun _ => true⟩
  read data low _ position := some (UInt32.ofNat (toNat (slice data position 4)), low)

/-- No bytes for a value that is known. -/
def nothing (a : α) : Layout α where
  size := 0
  write _ _ := ⟨[], fun _ => [], fun _ => true⟩
  read _ low _ _ := some (a, low)

/-- The value with `room` unused bytes after it. -/
def pad (room : Nat) (layout : Layout α) : Layout α where
  size := layout.size + room
  write position a :=
    let w := layout.write position a
    ⟨w.outer, fun place => w.inner place ++ zeros room, w.fits⟩
  read := layout.read

/-- Two values one after the other. -/
def pair (first : Layout α) (second : Layout β) : Layout (α × β) where
  size := first.size + second.size
  write position p :=
    let a := first.write position p.1
    let b := second.write (position + a.outer.length) p.2
    ⟨a.outer ++ b.outer, fun place => a.inner place ++ b.inner (place + first.size),
      fun place => a.fits place && b.fits (place + first.size)⟩
  read data low high position := do
    let (a, low) ← first.read data low high position
    let (b, low) ← second.read data low high (position + first.size)
    return ((a, b), low)

/-- The same bytes for another type. -/
def map (forth : α → β) (back : β → α) (layout : Layout α) : Layout β where
  size := layout.size
  write position b := layout.write position (back b)
  read data low high position :=
    (layout.read data low high position).map fun (a, low) => (forth a, low)

/-- A byte that says whether there is a value, and the value. -/
def option (layout : Layout α) : Layout (Option α) where
  size := 4 + layout.size
  write position
    | none => ⟨[], fun _ => zeros (4 + layout.size), fun _ => true⟩
    | some a =>
      let w := layout.write position a
      ⟨w.outer, fun place => 1 :: zeros 3 ++ w.inner (place + 4), fun place => w.fits (place + 4)⟩
  read data low high position :=
    match data.getD position 0 with
    | 0 => some (none, low)
    | 1 => (layout.read data low high (position + 4)).map fun (a, low) => (some a, low)
    | _ => none

/-- A byte that says which alternative the value is, and the value in the layout of the alternative,
filled up to `room` bytes. -/
def tagged (room : Nat) (tag : α → UInt8) (alternative? : UInt8 → Option (Layout α)) : Layout α where
  size := 4 + room
  write position a :=
    match alternative? (tag a) with
    | none => ⟨[], fun _ => zeros (4 + room), fun _ => false⟩
    | some layout =>
      let w := layout.write position a
      ⟨w.outer, fun place => tag a :: zeros 3 ++ w.inner (place + 4) ++ zeros (room - layout.size),
        fun place => w.fits (place + 4)⟩
  read data low high position := do
    let layout ← alternative? (data.getD position 0)
    layout.read data low high (position + 4)

/-- Pointers have 32 bits. -/
def isDistance (n : Int) : Bool := -wordCount 31 ≤ n ∧ n < wordCount 31

/-- The target of a pointer: `size` bytes of the free range, from a multiple of `alignment` on. -/
def target? (low high position size alignment : Nat) (distance : Int) : Option Nat :=
  let start := position + distance
  if low ≤ start ∧ start + size ≤ high ∧ start % alignment = 0 then some start.toNat else none

/-- The length of an outer text, in a form whose first byte starts no text: six bits, the bits 10,
and the bits that are left. -/
def lengthMark (n : Nat) : Nat := n % 64 + 128 + n / 64 * 256

def ofLengthMark (mark : Nat) : Nat := mark % 64 + mark / 256 * 64

/-- An outer text, which is longer than the inner part could hold. -/
def readOuterText (data : Array UInt8) (low high position : Nat) : Option (String × Nat) :=
  let size := ofLengthMark (toNat (slice data position 4))
  if size ≤ 8 then none
  else do
    let start ← target? low high position size 1 (toInt (slice data (position + 4) 4))
    let s ← toText? (slice data start size)
    return (s, start + size)

/-- A text of up to eight bytes stands in the inner part, filled up with 0xff. A longer one is an outer
part, with its length and a pointer in the inner one. -/
def text : Layout String where
  size := 8
  write position s :=
    let bytes := ofText s
    if bytes.length ≤ 8 then
      ⟨[], fun _ => bytes ++ List.replicate (8 - bytes.length) 0xff, fun _ => true⟩
    else
      ⟨bytes, fun place => ofNat 4 (lengthMark bytes.length) ++ ofInt (position - place),
        fun place => lengthMark bytes.length < wordCount 32 && isDistance (position - place)⟩
  read data low high position :=
    if (data.getD position 0).toNat / 64 = 2 then readOuterText data low high position
    else (toText? ((slice data position 8).takeWhile (· ≠ 0xff))).map (·, low)

/-- Inner parts one after another, after all their outer parts. -/
def writeAll (layout : Layout α) (position : Nat) : List α → Written
  | [] => ⟨[], fun _ => [], fun _ => true⟩
  | a :: as =>
    let w := layout.write position a
    let ws := writeAll layout (position + w.outer.length) as
    ⟨w.outer ++ ws.outer, fun place => w.inner place ++ ws.inner (place + layout.size),
      fun place => w.fits place && ws.fits (place + layout.size)⟩

def readAll (layout : Layout α) (data : Array UInt8) (high : Nat) :
    (count low position : Nat) → Option (List α × Nat)
  | 0, low, _ => some ([], low)
  | count + 1, low, position => do
    let (a, low) ← layout.read data low high position
    let (as, low) ← readAll layout data high count low (position + layout.size)
    return (a :: as, low)

/-- A pointer to the inner parts of the elements, and their number. -/
def vector (layout : Layout α) : Layout (List α) where
  size := 8
  write position as :=
    let ws := writeAll layout position as
    let gap := padding (position + ws.outer.length)
    let start := position + ws.outer.length + gap
    ⟨ws.outer ++ zeros gap ++ ws.inner start,
      fun place => ofInt (start - place) ++ ofNat 4 as.length,
      fun place => as.length < wordCount 32 && isDistance (start - place) && ws.fits start⟩
  read data low high position := do
    let count := toNat (slice data (position + 4) 4)
    let start ← target? low high position (count * layout.size) 4 (toInt (slice data position 4))
    let (as, _) ← readAll layout data start count low start
    return (as, start + count * layout.size)

/-- The archive of a value: the outer part, and at its end, from a multiple of four on, the inner
one. There is none if a length or a pointer has no room. -/
def encode? (layout : Layout α) (a : α) : Option Bytes :=
  let w := layout.write 0 a
  let outer := w.outer ++ zeros (padding w.outer.length)
  if w.fits outer.length then some (outer ++ w.inner outer.length) else none

def decode? (layout : Layout α) (bytes : Bytes) : Option α :=
  let data := bytes.toArray
  let position := data.size - layout.size
  if layout.size ≤ data.size ∧ position % 4 = 0 then
    (layout.read data 0 position position).map Prod.fst
  else none

end Layout

end ApiRules.Archive
