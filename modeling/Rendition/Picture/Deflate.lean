import Rendition.Picture.Bits
import Rendition.Picture.Fields

/-!
# Rendition.Picture.Deflate

Decompression of DEFLATE data, which comes in blocks. A block holds bytes as they are, or symbols in
a prefix code: bytes, and references to a run of bytes that was written before, by its length and by
how far it lies back. A code is given by the lengths of its words alone: shorter words come first,
and among words of one length those of lower symbols do.
-/

namespace Rendition.Picture.Deflate

/-! ### Prefix codes -/

/-- A prefix code. -/
structure PrefixCode where
  /-- How many words there are of each length, from 1 on. -/
  counts : List Nat
  /-- The symbols in the order of their words. -/
  symbols : Array Nat

/-- The longest word of a code. -/
def longestWord : Nat := 15

/-- The code whose words have the lengths given, by symbol. No word has length 0. -/
def PrefixCode.ofLengths (lengths : List Nat) : PrefixCode :=
  let ofLength := fun length => lengths.zipIdx.filterMap fun (l, symbol) =>
    if l = length then some symbol else none
  let all := (List.range longestWord).map fun n => ofLength (n + 1)
  { counts := all.map (·.length), symbols := all.flatten.toArray }

/-- Reads a symbol bit by bit. `word` is made of the bits so far, `first` is the first word of the
length at hand, and `index` is the place of its symbol. -/
def readSymbol (symbols : Array Nat) :
    (counts : List Nat) → (word first index : Nat) → List Bool → Option (Nat × List Bool)
  | [], _, _, _, _ | _, _, _, _, [] => none
  | count :: counts, word, first, index, bit :: bits =>
    let word := word + bit.toNat
    if word < first + count then
      symbols[index + (word - first)]?.map fun symbol => (symbol, bits)
    else readSymbol symbols counts (2 * word) (2 * (first + count)) (index + count) bits

/-- The symbol at the start of some bits. -/
def PrefixCode.read (code : PrefixCode) (bits : List Bool) : Option (Nat × List Bool) :=
  readSymbol code.symbols code.counts 0 0 0 bits

/-! ### References -/

/-- The least length of each symbol that is a reference, and the bits that are added to it. -/
def lengthTable : List (Nat × Nat) :=
  [(3, 0), (4, 0), (5, 0), (6, 0), (7, 0), (8, 0), (9, 0), (10, 0), (11, 1), (13, 1), (15, 1),
    (17, 1), (19, 2), (23, 2), (27, 2), (31, 2), (35, 3), (43, 3), (51, 3), (59, 3), (67, 4),
    (83, 4), (99, 4), (115, 4), (131, 5), (163, 5), (195, 5), (227, 5), (258, 0)]

/-- The least distance of each symbol, and the bits that are added to it. -/
def distanceTable : List (Nat × Nat) :=
  [(1, 0), (2, 0), (3, 0), (4, 0), (5, 1), (7, 1), (9, 2), (13, 2), (17, 3), (25, 3), (33, 4),
    (49, 4), (65, 5), (97, 5), (129, 6), (193, 6), (257, 7), (385, 7), (513, 8), (769, 8),
    (1025, 9), (1537, 9), (2049, 10), (3073, 10), (4097, 11), (6145, 11), (8193, 12), (12289, 12),
    (16385, 13), (24577, 13)]

/-- The number that a symbol and the bits behind it stand for. -/
def extended? (table : List (Nat × Nat)) (symbol : Nat) (bits : List Bool) :
    Option (Nat × List Bool) := do
  let (least, extra) ← table[symbol]?
  let (more, bits) ← bits? extra bits
  some (least + more, bits)

/-- Writes `length` bytes again that lie `distance` back. A run may overlap what it is written
to. -/
def copyBack (distance : Nat) : (length : Nat) → Array UInt8 → Array UInt8
  | 0, out => out
  | length + 1, out => copyBack distance length (out.push (out.getD (out.size - distance) 0))

/-- A run adds its length. -/
@[simp] theorem size_copyBack (distance length : Nat) (out : Array UInt8) :
    (copyBack distance length out).size = out.size + length := by
  induction length generalizing out with
  | zero => rfl
  | succ length ih => simp [copyBack, ih]; omega

/-! ### Blocks -/

/-- The symbol that ends a block. -/
def endOfBlock : Nat := 256

/-- Writes what symbols stand for, up to the end of the block, within a number of steps. -/
def readSymbols (literals distances : PrefixCode) :
    (steps : Nat) → Array UInt8 → List Bool → Option (Array UInt8 × List Bool)
  | 0, _, _ => none
  | steps + 1, out, bits => do
    let (symbol, bits) ← literals.read bits
    if symbol < endOfBlock then
      readSymbols literals distances steps (out.push (UInt8.ofNat symbol)) bits
    else if symbol = endOfBlock then some (out, bits)
    else
      let (length, bits) ← extended? lengthTable (symbol - endOfBlock - 1) bits
      let (symbol, bits) ← distances.read bits
      let (distance, bits) ← extended? distanceTable symbol bits
      if out.size < distance then none
      else readSymbols literals distances steps (copyBack distance length out) bits

/-- The codes of a block that brings none. -/
def fixedCodes : PrefixCode × PrefixCode :=
  (.ofLengths (List.replicate 144 8 ++ List.replicate 112 9 ++ List.replicate 24 7
    ++ List.replicate 8 8), .ofLengths (List.replicate 30 5))

/-- The symbols of the code for lengths, in the order in which the lengths of their words come. -/
def lengthOrder : List Nat :=
  [16, 17, 18, 0, 8, 7, 9, 6, 10, 5, 11, 4, 12, 3, 13, 2, 14, 1, 15]

/-- A number of lengths in a code of their own, in which some symbols repeat the one before or a
zero, within a number of steps. `lengths` are those so far, the last one first. -/
def readLengths (code : PrefixCode) (count : Nat) :
    (steps : Nat) → (lengths : List Nat) → List Bool → Option (List Nat × List Bool)
  | 0, _, _ => none
  | steps + 1, lengths, bits =>
    if lengths.length = count then some (lengths.reverse, bits)
    else if count < lengths.length then none
    else do
      let (symbol, bits) ← code.read bits
      match symbol with
      | 16 =>
        let (more, bits) ← bits? 2 bits
        readLengths code count steps (List.replicate (3 + more) (← lengths.head?) ++ lengths) bits
      | 17 =>
        let (more, bits) ← bits? 3 bits
        readLengths code count steps (List.replicate (3 + more) 0 ++ lengths) bits
      | 18 =>
        let (more, bits) ← bits? 7 bits
        readLengths code count steps (List.replicate (11 + more) 0 ++ lengths) bits
      | length => readLengths code count steps (length :: lengths) bits

/-- A number of numbers of three bits. -/
def triples? : (count : Nat) → List Bool → Option (List Nat × List Bool)
  | 0, bits => some ([], bits)
  | count + 1, bits => do
    let (n, bits) ← bits? 3 bits
    let (others, bits) ← triples? count bits
    some (n :: others, bits)

/-- The codes that a block brings. -/
def ownCodes? (bits : List Bool) : Option ((PrefixCode × PrefixCode) × List Bool) := do
  let (literals, bits) ← bits? 5 bits
  let (distances, bits) ← bits? 5 bits
  let (words, bits) ← bits? 4 bits
  let (given, bits) ← triples? (words + 4) bits
  let pairs := lengthOrder.zip given
  let code := PrefixCode.ofLengths ((List.range 19).map fun n => (pairs.lookup n).getD 0)
  let count := literals + 257 + (distances + 1)
  let (lengths, bits) ← readLengths code count (count + 1) [] bits
  some ((.ofLengths (lengths.take (literals + 257)), .ofLengths (lengths.drop (literals + 257))),
    bits)

/-- A number of bytes as bits. -/
def readBytes : (count : Nat) → Array UInt8 → List Bool → Option (Array UInt8 × List Bool)
  | 0, out, bits => some (out, bits)
  | count + 1, out, bits => do
    let (b, bits) ← bits? 8 bits
    readBytes count (out.push (UInt8.ofNat b)) bits

/-- The bytes of a block that holds them as they are. They start with a whole byte. -/
def readStored (out : Array UInt8) (bits : List Bool) : Option (Array UInt8 × List Bool) := do
  let (length, bits) ← bits? 16 (bits.drop (bits.length % 8))
  let (complement, bits) ← bits? 16 bits
  if length + complement = 0xFFFF then readBytes length out bits else none

/-- A block of a kind. -/
def readBlock (kind : Nat) (out : Array UInt8) (bits : List Bool) :
    Option (Array UInt8 × List Bool) :=
  match kind with
  | 0 => readStored out bits
  | 1 => readSymbols fixedCodes.1 fixedCodes.2 (bits.length + 1) out bits
  | 2 => do
    let ((literals, distances), bits) ← ownCodes? bits
    readSymbols literals distances (bits.length + 1) out bits
  | _ => none

/-- Blocks up to the last one, within a number of steps. -/
def readBlocks : (steps : Nat) → Array UInt8 → List Bool → Option (Array UInt8)
  | 0, _, _ => none
  | steps + 1, out, bits => do
    let (last, bits) ← bits? 1 bits
    let (kind, bits) ← bits? 2 bits
    let (out, bits) ← readBlock kind out bits
    if last = 1 then some out else readBlocks steps out bits

/-- The bytes that DEFLATE data holds. -/
def inflate? (bytes : List UInt8) : Option (Array UInt8) :=
  -- Each block takes three bits at least.
  let bits := bitsOf bytes
  readBlocks (bits.length + 1) #[] bits

/-- The bytes that data in the format of zlib holds: DEFLATE data behind two bytes that say so. -/
def decompress? : List UInt8 → Option (Array UInt8)
  | method :: flags :: rest =>
    let check := (256 * method.toNat + flags.toNat) % 31
    if method.toNat % 16 = 8 ∧ method.toNat / 16 ≤ 7 ∧ check = 0 ∧ flags.toNat.testBit 5 = false
    then inflate? rest
    else none
  | _ => none

end Rendition.Picture.Deflate
