import Rendition.Picture.Bits

/-!
# Rendition.Picture.Lzw

Decompression of LZW data as animations hold it. Each word stands for a run of values. The table of
runs starts with all single values and two words of another meaning, one that empties the table to
this state and one that ends the data. Each word adds a run: that of the word before, and the first
value of its own. Words get longer as the table grows, up to twelve bits.
-/

namespace Rendition.Picture.Lzw

/-- What the words so far leave behind. -/
structure State where
  /-- The bits of a single value. -/
  valueBits : Nat
  /-- The runs by word. -/
  table : Array (Array UInt8)
  /-- The bits of the next word. -/
  wordBits : Nat
  /-- The run of the word before. -/
  previous : Option (Array UInt8)
  /-- The values so far. -/
  values : Array UInt8

/-- The longest word. -/
def longestWord : Nat := 12

/-- The word that empties the table. -/
def State.clearWord (s : State) : Nat := 1 <<< s.valueBits

/-- The word that ends the data. -/
def State.endWord (s : State) : Nat := s.clearWord + 1

/-- The state with an emptied table. -/
def State.cleared (s : State) : State :=
  { s with
    table := (Array.range s.clearWord).map (fun n => #[UInt8.ofNat n]) ++ #[#[], #[]]
    wordBits := s.valueBits + 1
    previous := none }

/-- The state before the first word. -/
def State.initial (valueBits : Nat) : State :=
  State.cleared ⟨valueBits, #[], 0, none, #[]⟩

/-- The state with a run added, unless there are words for all runs. -/
def State.learn (s : State) (run : Array UInt8) : State :=
  if 1 <<< longestWord ≤ s.table.size then s
  else
    let table := s.table.push run
    let full := table.size = 1 <<< s.wordBits ∧ s.wordBits < longestWord
    { s with table, wordBits := if full then s.wordBits + 1 else s.wordBits }

/-- The state behind a word that stands for a run. -/
def State.add (s : State) (word : Nat) : Option State :=
  match s.previous with
  | none =>
    if word < s.clearWord then
      s.table[word]?.map fun run => { s with previous := some run, values := s.values ++ run }
    else none
  | some previous => do
    -- A word may stand for the run that it is about to add.
    let known := s.table[word]?
    let run ← if word = s.table.size then some (previous ++ previous.take 1) else known
    some { s.learn (previous ++ run.take 1) with previous := some run, values := s.values ++ run }

/-- Reads words up to a number of values or to the end of the data, within a number of steps. -/
def readWords (count : Nat) : (steps : Nat) → State → List Bool → Option (Array UInt8)
  | 0, s, _ => some s.values
  | steps + 1, s, bits =>
    if count ≤ s.values.size then some (s.values.take count)
    else
      match bits? s.wordBits bits with
      | none => some s.values
      | some (word, bits) =>
        if word = s.clearWord then readWords count steps s.cleared bits
        else if word = s.endWord then some s.values
        else (s.add word).bind fun s => readWords count steps s bits

/-- The values that data holds, up to a number of them. -/
def decompress? (valueBits count : Nat) (bytes : List UInt8) : Option (Array UInt8) :=
  let bits := bitsOf bytes
  readWords count (bits.length + 1) (.initial valueBits) bits

end Rendition.Picture.Lzw
