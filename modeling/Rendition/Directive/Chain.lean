import Rendition.Directive.Basic

/-!
# Rendition.Directive.Chain

Chains of directive tokens. In a file name the tokens follow the name of the source, and they are
carried out in that order; looking for the source strips them from the end, so they are found in the
opposite order.
-/

namespace Rendition

/-- A text that stands where a directive can stand. -/
structure Token where
  raw : String
  deriving DecidableEq, Repr

namespace Token

/-- The operation that the token selects. -/
def kind (t : Token) : Directive.Kind := Directive.kindOf t.raw

/-- Reads the token. -/
def parse (t : Token) : Directive.Reading := Directive.parse t.raw

end Token

/-- The tokens between a source and a request for it, in the order in which they are carried
out. -/
structure Chain where
  tokens : List Token
  deriving DecidableEq, Repr

namespace Chain

/-- The chain of a request that only asks for another format. -/
def empty : Chain := ⟨[]⟩

/-- The chain of tokens in the order of the file name. -/
def ofTexts (raws : List String) : Chain := ⟨raws.map Token.mk⟩

/-- The chain of tokens that were stripped from a file name, in the order in which they were
found. -/
def ofStripped (raws : List String) : Chain := ofTexts raws.reverse

/-- The number of tokens. -/
def length (c : Chain) : Nat := c.tokens.length

/-- Is there no token? -/
def isEmpty (c : Chain) : Bool := c.tokens.isEmpty

@[simp] theorem length_ofTexts (raws : List String) : (ofTexts raws).length = raws.length := by
  simp [length, ofTexts]

@[simp] theorem isEmpty_ofTexts (raws : List String) :
    (ofTexts raws).isEmpty = raws.isEmpty := by
  cases raws <;> rfl

@[simp] theorem length_ofStripped (raws : List String) :
    (ofStripped raws).length = raws.length := by
  simp [ofStripped]

end Chain

end Rendition
