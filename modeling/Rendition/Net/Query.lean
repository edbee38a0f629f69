import Rendition.Text.Percent

/-!
# Rendition.Net.Query

The query of a URI as a form writes it: pairs of a key and a value, with an equals sign between the
two and ampersands between pairs. A plus stands for a blank, and both parts are percent-encoded. A
key may come more than once; the last value counts.
-/

namespace Rendition.Net

open Text

/-- The bytes that a part of a pair stands for. -/
def formBytes (part : List Char) : ByteArray :=
  let encoded := String.ofList (part.map fun c => if c = '+' then ' ' else c)
  ⟨(percentDecodeBytes encoded.toUTF8.data.toList).toArray⟩

/-- The key and the value of a pair. What has no equals sign is a key with an empty value. -/
def formPair (pair : List Char) : ByteArray × ByteArray :=
  (formBytes (pair.takeWhile (· ≠ '=')), formBytes ((pair.dropWhile (· ≠ '=')).drop 1))

/-- The pairs of a query, in order. -/
def queryPairs (query : List Char) : List (ByteArray × ByteArray) :=
  ((query.splitOn '&').filter (!·.isEmpty)).map formPair

/-- The value of a key in a query. -/
def queryValue? (key : String) (query : List Char) : Option ByteArray :=
  ((queryPairs query).reverse.find? (·.1 == key.toUTF8)).map (·.2)

end Rendition.Net
