import Rendition.Codec.Basic
import Rendition.Directive.Chain

/-!
# Rendition.Codec.Execution

Carrying out a chain of directives on a source. The source is decoded once, the directives of the
chain are applied in order, and the result is encoded once. A token that reads as no directive is
skipped, wherever it stands; the first call of the codec that fails ends the execution.
-/

namespace Rendition

/-- What an execution yields: the encoded result, and how many tokens of the chain were applied and
how many skipped. -/
structure Execution where
  result : Content
  applied : Nat
  skipped : Nat

variable {κ η : Type}

/-- Applies the directives among some tokens to a picture, in order, and counts on from
`applied` and `skipped`. -/
def Codec.applyTokens (codec : Codec κ η) :
    List Token → (applied skipped : Nat) → η → CodecM κ (η × Nat × Nat)
  | [], applied, skipped, picture => pure (picture, applied, skipped)
  | token :: rest, applied, skipped, picture =>
    match token.parse.directive? with
    | none => codec.applyTokens rest applied (skipped + 1) picture
    | some directive => do
      let picture ← codec.apply directive picture
      codec.applyTokens rest (applied + 1) skipped picture

/-- Carries out a chain on a source and encodes the result in the format of an extension. -/
def Codec.execute (codec : Codec κ η) (source : Content) (chain : Chain) (extension : String) :
    CodecM κ Execution := do
  let picture ← codec.decode source
  let (picture, applied, skipped) ← codec.applyTokens chain.tokens 0 0 picture
  let result ← codec.encode extension picture
  pure { result, applied, skipped }

end Rendition
