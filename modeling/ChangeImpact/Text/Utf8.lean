/-
Reading bytes as UTF-8.

The decoder is a machine that takes one byte at a time. `Pending` is the part of a character it has
seen so far: how many bytes are missing, the range the next one must lie in, and the bits collected.
A byte outside that range ends the unfinished character, which becomes one U+FFFD, and starts anew;
so every maximal part that is no character becomes exactly one U+FFFD. A byte order mark is a
character like any other.

`receive` is what arrives on an input in several chunks. Every chunk is decoded by itself, so a
character whose bytes are spread over two chunks is not put together again.
-/

namespace ChangeImpact.Text

/-- an unfinished character -/
inductive Pending where
  | nothing
  | bytes (missing low high bits : Nat)
  deriving DecidableEq, Repr

/-- what stands in the text for bytes that are no character -/
def replacement : Char := Char.ofNat 0xFFFD

/-- the first byte of a character -/
def Pending.start (b : Nat) : List Char × Pending :=
  if b < 0x80 then ([Char.ofNat b], .nothing)
  else if b < 0xC2 then ([replacement], .nothing)
  else if b < 0xE0 then ([], .bytes 1 0x80 0xBF (b - 0xC0))
  else if b = 0xE0 then ([], .bytes 2 0xA0 0xBF 0)
  else if b = 0xED then ([], .bytes 2 0x80 0x9F 0xD)
  else if b < 0xF0 then ([], .bytes 2 0x80 0xBF (b - 0xE0))
  else if b = 0xF0 then ([], .bytes 3 0x90 0xBF 0)
  else if b < 0xF4 then ([], .bytes 3 0x80 0xBF (b - 0xF0))
  else if b = 0xF4 then ([], .bytes 3 0x80 0x8F 4)
  else ([replacement], .nothing)

/-- one byte: the characters it completes, and what is unfinished after it -/
def Pending.step (b : Nat) : Pending → List Char × Pending
  | .nothing => start b
  | .bytes missing low high bits =>
    if low ≤ b ∧ b ≤ high then
      let bits := bits * 64 + (b - 0x80)
      if missing ≤ 1 then ([Char.ofNat bits], .nothing) else ([], .bytes (missing - 1) 0x80 0xBF bits)
    else
      let (cs, next) := start b
      (replacement :: cs, next)

/-- the end of the bytes -/
def Pending.finish : Pending → List Char
  | .nothing => []
  | .bytes .. => [replacement]

/-- decodes bytes after an unfinished character -/
def Pending.run : Pending → List UInt8 → List Char × Pending
  | p, [] => ([], p)
  | p, b :: bs =>
    let (cs, next) := p.step b.toNat
    let (rest, last) := run next bs
    (cs ++ rest, last)

/-- the text of a byte sequence -/
def decodeUtf8 (bytes : List UInt8) : List Char :=
  let (cs, p) := Pending.run .nothing bytes
  cs ++ p.finish

/-- one delivery of an input -/
inductive Chunk where
  | text (s : String)
  | bytes (b : List UInt8)

def Chunk.decode : Chunk → List Char
  | .text s => s.toList
  | .bytes b => decodeUtf8 b

/-- the text of all that arrives on an input -/
def receive (chunks : List Chunk) : String :=
  String.ofList (chunks.flatMap Chunk.decode)

/-- the machine does not see where a byte sequence is cut -/
theorem Pending.run_append (p : Pending) (xs ys : List UInt8) :
    p.run (xs ++ ys) = ((p.run xs).1 ++ ((p.run xs).2.run ys).1, ((p.run xs).2.run ys).2) := by
  induction xs generalizing p with
  | nil => simp [run]
  | cons b xs ih => simp [run, ih]

end ChangeImpact.Text
