import Rendition.Codec.Execution
import Rendition.Codec.Sketch
import Rendition.Proofs.Files

/-!
# Rendition.Proofs.Derivation

What a derivative is. A codec is deterministic when no outcome of a call depends on its state; then
an execution has one outcome, whenever it happens (`Codec.Yields`). `DerivedFrom` says that a
content comes of another one by some tokens: they are carried out block by block, each block on the
encoded result of the one before, as happens when a request starts from a shorter derivative. The
sketching codec is deterministic, and what it derives opens with the source.
-/

namespace Rendition

variable {κ η α β : Type}

/-! ### Deterministic codecs -/

/-- The outcome of a call does not depend on the state that it finds. -/
def IsConstant (m : CodecM κ α) : Prop :=
  ∀ k l, (m.run.run k).1 = (m.run.run l).1

theorem IsConstant.pure (a : α) : IsConstant (Pure.pure a : CodecM κ α) :=
  fun _ _ => rfl

theorem IsConstant.bind {m : CodecM κ α} {f : α → CodecM κ β} (hm : IsConstant m)
    (hf : ∀ a, IsConstant (f a)) : IsConstant (m >>= f) := by
  intro k l
  have hkl := hm k l
  rw [run_bind, run_bind]
  rcases hk : m.run.run k with ⟨outcome, k'⟩
  rcases hl : m.run.run l with ⟨outcome', l'⟩
  rw [hk, hl] at hkl
  obtain rfl : outcome = outcome' := hkl
  cases outcome with
  | error e => rfl
  | ok a => exact hf a k' l'

namespace Codec

/-- The outcome of every call depends on its arguments only. -/
structure Deterministic (codec : Codec κ η) : Prop where
  decode : ∀ content, IsConstant (codec.decode content)
  resize : ∀ height width picture, IsConstant (codec.resize height width picture)
  crop : ∀ width height x y picture, IsConstant (codec.crop width height x y picture)
  setQuality : ∀ quality picture, IsConstant (codec.setQuality quality picture)
  encode : ∀ extension picture, IsConstant (codec.encode extension picture)

namespace Deterministic

variable {codec : Codec κ η} (h : codec.Deterministic)

include h

theorem apply (directive : Directive) (picture : η) :
    IsConstant (codec.apply directive picture) := by
  cases directive with
  | resize height width => exact h.resize height width picture
  | crop height width dy dx => exact h.crop width height dx dy picture
  | quality value => exact h.setQuality value picture

theorem applyTokens (tokens : List Token) (applied skipped : Nat) (picture : η) :
    IsConstant (codec.applyTokens tokens applied skipped picture) := by
  induction tokens generalizing applied skipped picture with
  | nil => exact IsConstant.pure _
  | cons token rest ih =>
      unfold Codec.applyTokens
      cases token.parse.directive? with
      | none => exact ih applied (skipped + 1) picture
      | some directive =>
          exact (h.apply directive picture).bind fun picture => ih (applied + 1) skipped picture

/-- With a deterministic codec an execution has one outcome, whenever it happens. -/
theorem execute (source : Content) (chain : Chain) (extension : String) :
    IsConstant (codec.execute source chain extension) := by
  refine (h.decode source).bind fun picture => ?_
  refine (h.applyTokens chain.tokens 0 0 picture).bind fun ⟨picture, applied, skipped⟩ => ?_
  exact (h.encode extension picture).bind fun result => IsConstant.pure _

end Deterministic

/-! ### Derivatives -/

/-- Carrying out some tokens on a source yields a content in every state of the codec. -/
def Yields (codec : Codec κ η) (source : Content) (tokens : List String) (extension : String)
    (body : Content) : Prop :=
  ∀ k, ∃ execution, execution.result = body ∧
    ((codec.execute source (Chain.ofTexts tokens) extension).run.run k).1 = .ok execution

theorem Deterministic.yields {codec : Codec κ η} (h : codec.Deterministic) {source : Content}
    {tokens : List String} {extension : String} {execution : Execution} {k l : κ}
    (hexecute : (codec.execute source (Chain.ofTexts tokens) extension).run.run k
      = (.ok execution, l)) : codec.Yields source tokens extension execution.result := by
  intro k'
  refine ⟨execution, rfl, ?_⟩
  rw [h.execute source (Chain.ofTexts tokens) extension k' k, hexecute]

end Codec

/-- A content that comes of a source by some tokens, which are carried out in blocks that are not
empty, one after the other: each block on what the one before yielded. -/
inductive DerivedFrom (codec : Codec κ η) (extension : String) (source : Content) :
    (tokens : List String) → Content → Prop
  /-- The source itself, by no tokens. -/
  | source : DerivedFrom codec extension source [] source
  /-- What one more block yields. -/
  | block {front back : List String} {body body' : Content}
      (h : DerivedFrom codec extension source front body) (hback : back ≠ [])
      (hyields : codec.Yields body back extension body') :
      DerivedFrom codec extension source (front ++ back) body'

/-! ### Sketches -/

/-- The first byte of a content, if it is known. -/
def Content.firstByte? : Content → Option UInt8
  | .bytes b => b.data[0]?
  | .picture _ => none

namespace Codec.Sketch

theorem run_call {α : Type} (c : Call) (outcome : Except Error α) (k : Record) :
    ((call c outcome).run.run k) = (outcome, k.push c) := by
  cases outcome <;> rfl

theorem isConstant_call {α : Type} (c : Call) (outcome : Except Error α) :
    IsConstant (call c outcome) := by
  intro k l
  rw [run_call, run_call]

theorem deterministic_codec : codec.Deterministic where
  decode
    | .bytes _ => isConstant_call _ _
    | .picture _ => isConstant_call _ _
  resize _ _ _ := isConstant_call _ _
  crop _ _ _ _ _ := isConstant_call _ _
  setQuality _ _ := isConstant_call _ _
  encode _ _ := isConstant_call _ _

/-- A directive that is carried out leaves its mark behind what was there. -/
theorem prefix_apply {directive : Directive} {picture picture' : ByteArray} {k l : Record}
    (h : (codec.apply directive picture).run.run k = (.ok picture', l)) :
    ∃ mark, picture' = picture ++ mark := by
  cases directive with
  | resize height width =>
      change (call _ _).run.run k = _ at h
      rw [run_call] at h
      split at h
      · cases h
      · exact ⟨_, (Except.ok.inj (Prod.mk.inj h).1).symm⟩
  | crop height width dy dx =>
      change (call _ _).run.run k = _ at h
      rw [run_call] at h
      exact ⟨_, (Except.ok.inj (Prod.mk.inj h).1).symm⟩
  | quality value =>
      change (call _ _).run.run k = _ at h
      rw [run_call] at h
      split at h
      · exact ⟨_, (Except.ok.inj (Prod.mk.inj h).1).symm⟩
      · cases h

theorem prefix_applyTokens {tokens : List Token} {applied skipped : Nat}
    {picture : ByteArray} {result : ByteArray × Nat × Nat} {k l : Record}
    (h : (codec.applyTokens tokens applied skipped picture).run.run k = (.ok result, l)) :
    ∃ mark, result.1 = picture ++ mark := by
  induction tokens generalizing applied skipped picture k with
  | nil =>
      obtain ⟨hresult, -⟩ := Prod.mk.inj h
      obtain rfl := Except.ok.inj hresult
      exact ⟨.empty, by simp⟩
  | cons token rest ih =>
      unfold Codec.applyTokens at h
      cases hdirective : token.parse.directive? with
      | none =>
          rw [hdirective] at h
          exact ih h
      | some directive =>
          rw [hdirective] at h
          simp only at h
          obtain ⟨picture', k', happly, hrest⟩ := run_bind_inv h
          obtain ⟨mark, rfl⟩ := prefix_apply happly
          obtain ⟨mark', hresult⟩ := ih hrest
          exact ⟨mark ++ mark', by rw [hresult, ByteArray.append_assoc]⟩

/-- Bytes are decoded to themselves. -/
theorem decode_eq_ok {source picture : ByteArray} {k l : Record}
    (h : (codec.decode (.bytes source)).run.run k = (.ok picture, l)) : picture = source := by
  change (call _ _).run.run k = _ at h
  rw [run_call] at h
  have hok := (Prod.mk.inj h).1
  unfold decodeBytes at hok
  split at hok
  · cases hok
  · split at hok
    · cases hok
    · exact (Except.ok.inj hok).symm

/-- What is encoded are the bytes of the picture with a mark behind them. -/
theorem encode_eq_ok {extension : String} {picture : ByteArray} {result : Content} {k l : Record}
    (h : (codec.encode extension picture).run.run k = (.ok result, l)) :
    ∃ mark, result = .bytes (picture ++ mark) := by
  change (call _ _).run.run k = _ at h
  rw [run_call] at h
  have hok := (Prod.mk.inj h).1
  split at hok
  · cases hok
  · exact ⟨_, (Except.ok.inj hok).symm⟩

/-- The result of an execution opens with the source. -/
theorem prefix_execute {source : ByteArray} {chain : Chain} {extension : String}
    {execution : Execution} {k l : Record}
    (h : (codec.execute (.bytes source) chain extension).run.run k = (.ok execution, l)) :
    ∃ mark, execution.result = .bytes (source ++ mark) := by
  obtain ⟨picture, k₁, hdecode, hrest⟩ := run_bind_inv h
  obtain rfl := decode_eq_ok hdecode
  obtain ⟨⟨picture', applied, skipped⟩, k₂, htokens, hrest'⟩ := run_bind_inv hrest
  obtain ⟨mark, rfl⟩ := prefix_applyTokens htokens
  obtain ⟨result, k₃, hencode, hdone⟩ := run_bind_inv hrest'
  obtain ⟨mark', rfl⟩ := encode_eq_ok hencode
  obtain rfl := Except.ok.inj (Prod.mk.inj hdone).1
  exact ⟨mark ++ mark', by rw [ByteArray.append_assoc]⟩

/-- Whatever is derived from bytes opens with them. -/
theorem prefix_derivedFrom {extension : String} {source : ByteArray} {tokens : List String}
    {body : Content} (h : DerivedFrom codec extension (.bytes source) tokens body) :
    ∃ mark, body = .bytes (source ++ mark) := by
  induction h with
  | source => exact ⟨.empty, by simp⟩
  | block _ _ hyields ih =>
      obtain ⟨mark, rfl⟩ := ih
      obtain ⟨execution, rfl, hexecute⟩ := hyields #[]
      obtain ⟨mark', hresult⟩ := prefix_execute (Prod.ext hexecute rfl)
      exact ⟨mark ++ mark', by rw [hresult, ByteArray.append_assoc]⟩

/-- Whatever is derived from bytes has their first one in front. -/
theorem firstByte_derivedFrom {extension : String} {source body : Content} {tokens : List String}
    (h : DerivedFrom codec extension source tokens body) {b : UInt8}
    (hsource : source.firstByte? = some b) : body.firstByte? = some b := by
  cases source with
  | picture => cases hsource
  | bytes source =>
      obtain ⟨mark, rfl⟩ := prefix_derivedFrom h
      obtain ⟨hpos, -⟩ := Array.getElem?_eq_some_iff.1 hsource
      simp only [Content.firstByte?, ByteArray.data_append]
      rw [Array.getElem?_append_left hpos]
      exact hsource

end Codec.Sketch

end Rendition
