import Rendition.Codec.Sketch
import Rendition.Codec.Execution
import Rendition.Proofs.Files

/-!
# Rendition.Proofs.Execution

What carrying out a chain asks of a codec. `Codec.recorded` does what a codec does that may be any,
and lists its calls with their errors. An execution plans to decode the source, to carry out the
directives of the chain in order and to encode the result; it makes the calls of this plan up to the
first that fails, and ends with the error of that (`Made`). Tokens that are no directives are not in
the plan, so the calls and the result are those of the chain without them
(`execution_follows_plan`).

The plan of two steps is that of the one and then that of the other (`Plans.bind`); everything else
is the equation that leaves the tokens behind and speaks of directives only (`Codec.execute_eq`).
-/

namespace Rendition

variable {κ η α β : Type}

/-! ### Directives of a chain -/

namespace Chain

/-- The directives among the tokens of a chain, in order. -/
def directives (chain : Chain) : List Directive :=
  chain.tokens.filterMap fun token => token.parse.directive?

/-- The chain without the tokens that read as no directive. -/
def formed (chain : Chain) : Chain :=
  ⟨chain.tokens.filter fun token => token.parse.directive?.isSome⟩

/-- The number of tokens that read as no directive. -/
def unformed (chain : Chain) : Nat :=
  chain.tokens.countP fun token => token.parse.directive?.isNone

section Cons

variable {token : Token} {rest : List Token} {directive : Directive}

theorem directives_cons_of_none (h : token.parse.directive? = none) :
    (mk (token :: rest)).directives = (mk rest).directives :=
  List.filterMap_cons_none h

theorem directives_cons_of_some (h : token.parse.directive? = some directive) :
    (mk (token :: rest)).directives = directive :: (mk rest).directives :=
  List.filterMap_cons_some h

theorem unformed_cons_of_none (h : token.parse.directive? = none) :
    (mk (token :: rest)).unformed = (mk rest).unformed + 1 :=
  List.countP_cons_of_pos (by simp [h])

theorem unformed_cons_of_some (h : token.parse.directive? = some directive) :
    (mk (token :: rest)).unformed = (mk rest).unformed :=
  List.countP_cons_of_neg (by simp [h])

end Cons

theorem directives_formed (chain : Chain) : chain.formed.directives = chain.directives := by
  unfold formed directives
  simp only [List.filterMap_filter]
  refine congrArg (List.filterMap · chain.tokens) (funext fun token => ?_)
  cases token.parse.directive? <;> rfl

/-- Each token reads as a directive or as none. -/
theorem length_directives_add_unformed (chain : Chain) :
    chain.directives.length + chain.unformed = chain.length := by
  obtain ⟨tokens⟩ := chain
  induction tokens with
  | nil => rfl
  | cons token rest ih =>
      simp only [length, List.length_cons] at ih ⊢
      cases hdirective : token.parse.directive? with
      | none =>
          rw [directives_cons_of_none hdirective, unformed_cons_of_none hdirective]
          omega
      | some directive =>
          rw [directives_cons_of_some hdirective, unformed_cons_of_some hdirective,
            List.length_cons]
          omega

end Chain

namespace Codec

/-- Carries out directives on a picture, in order. -/
def applyAll (codec : Codec κ η) (directives : List Directive) (picture : η) : CodecM κ η :=
  directives.foldlM (fun picture directive => codec.apply directive picture) picture

variable (codec : Codec κ η)

/-- Applying tokens applies the directives among them and counts both kinds. -/
theorem applyTokens_eq (tokens : List Token) (applied skipped : Nat) (picture : η) :
    codec.applyTokens tokens applied skipped picture = (do
      let picture ← codec.applyAll (Chain.mk tokens).directives picture
      pure (picture, applied + (Chain.mk tokens).directives.length,
        skipped + (Chain.mk tokens).unformed)) := by
  induction tokens generalizing applied skipped picture with
  | nil => rfl
  | cons token rest ih =>
      unfold applyTokens
      cases hdirective : token.parse.directive? with
      | none =>
          simp only [ih, Chain.directives_cons_of_none hdirective,
            Chain.unformed_cons_of_none hdirective, Nat.add_assoc, Nat.add_comm]
      | some directive =>
          simp only [ih, Chain.directives_cons_of_some hdirective,
            Chain.unformed_cons_of_some hdirective, applyAll, List.foldlM_cons, bind_assoc,
            List.length_cons, Nat.add_assoc, Nat.add_comm]

/-- Decodes a source, carries out directives in order, each on the picture that the one before left,
and encodes the last picture. -/
def carryOut (source : Content) (directives : List Directive) (extension : String) :
    CodecM κ Content := do
  let picture ← codec.decode source
  let picture ← codec.applyAll directives picture
  codec.encode extension picture

/-- An execution carries out the directives of the chain. -/
theorem execute_eq (source : Content) (chain : Chain) (extension : String) :
    codec.execute source chain extension = (do
      let result ← codec.carryOut source chain.directives extension
      pure ⟨result, chain.directives.length, chain.unformed⟩) := by
  unfold execute carryOut
  simp only [applyTokens_eq, bind_assoc, pure_bind, Nat.zero_add]

theorem run_execute (source : Content) (chain : Chain) (extension : String) (k : κ) :
    (codec.execute source chain extension).run.run k
      = (((codec.carryOut source chain.directives extension).run.run k).1.map
          (⟨·, chain.directives.length, chain.unformed⟩),
        ((codec.carryOut source chain.directives extension).run.run k).2) := by
  rw [execute_eq, run_bind]
  rcases (codec.carryOut source chain.directives extension).run.run k with ⟨_ | result, l⟩ <;> rfl

end Codec

/-! ### Calls and plans -/

namespace Codec

/-- A call on a codec, with what it is handed beside the picture. -/
inductive Call where
  | decode (source : Content)
  | resize (height width : UInt32)
  | crop (width height : UInt32) (x y : Int64)
  | setQuality (quality : UInt32)
  | encode (extension : String)

/-- A call that was made, and its error if it failed. -/
structure MadeCall where
  call : Call
  error? : Option Error

/-- A state, and the calls so far, in order. -/
structure Recorded (κ : Type) where
  state : κ
  calls : List MadeCall

/-- A call and what it came to. -/
def MadeCall.of (call : Call) : Except Error α → MadeCall
  | .ok _ => ⟨call, none⟩
  | .error e => ⟨call, some e⟩

/-- Makes a call and records it. -/
def record (call : Call) (m : CodecM κ α) : CodecM (Recorded κ) α :=
  ExceptT.mk do
    let recorded ← get
    let (outcome, state) := m.run.run recorded.state
    set (⟨state, recorded.calls ++ [.of call outcome]⟩ : Recorded κ)
    pure outcome

/-- A codec that does the same and records its calls. -/
def recorded (codec : Codec κ η) : Codec (Recorded κ) η where
  decode source := record (.decode source) (codec.decode source)
  resize height width picture :=
    record (.resize height width) (codec.resize height width picture)
  crop width height x y picture :=
    record (.crop width height x y) (codec.crop width height x y picture)
  setQuality quality picture := record (.setQuality quality) (codec.setQuality quality picture)
  encode extension picture := record (.encode extension) (codec.encode extension picture)

end Codec

/-- The call that carries out a directive. -/
def Directive.call : Directive → Codec.Call
  | .resize height width => .resize height width
  | .crop height width dy dx => .crop width height dx dy
  | .quality value => .setQuality value

namespace Codec

/-- What becomes of planned calls: all are made and none fails, or those up to one that fails are
made, and its error is the outcome. -/
inductive Made (plan : List Call) : Except Error α → List MadeCall → Prop
  | all {a : α} : Made plan (.ok a) (plan.map (⟨·, none⟩))
  | upTo (front back : List Call) {last : Call} {e : Error} (hplan : plan = front ++ last :: back) :
      Made plan (.error e) (front.map (⟨·, none⟩) ++ [⟨last, some e⟩])

namespace Made

variable {plan : List Call} {outcome : Except Error α} {made : List MadeCall}

theorem append {e : Error} (h : Made plan (.error e : Except Error α) made) (next : List Call) :
    Made (plan ++ next) (.error e : Except Error β) made := by
  cases h with
  | upTo front back hplan =>
      refine .upTo front (back ++ next) ?_
      rw [hplan, List.append_assoc, List.cons_append]

theorem prepend (h : Made plan outcome made) (before : List Call) :
    Made (before ++ plan) outcome (before.map (⟨·, none⟩) ++ made) := by
  cases h with
  | all =>
      rw [← List.map_append]
      exact .all
  | upTo front back hplan =>
      rw [← List.append_assoc, ← List.map_append]
      refine .upTo (before ++ front) back ?_
      rw [hplan, List.append_assoc]

theorem map (h : Made plan outcome made) (f : α → β) : Made plan (outcome.map f) made := by
  cases h with
  | all => exact .all
  | upTo front back hplan => exact .upTo front back hplan

/-- The last call of a plan, if that is no other one of it, is made exactly if no other one
fails. -/
theorem exists_last_iff {last : Call} (h : Made (plan ++ [last]) outcome made)
    (hlast : last ∉ plan) :
    (∃ error?, ⟨last, error?⟩ ∈ made) ↔
      ∀ entry ∈ made, entry.call ≠ last → entry.error? = none := by
  cases h with
  | all =>
      refine iff_of_true ⟨none, by simp⟩ fun entry hentry _ => ?_
      obtain ⟨call, -, rfl⟩ := List.mem_map.1 hentry
      rfl
  | @upTo front back failed e hplan =>
      rcases List.eq_nil_or_concat back with rfl | ⟨back, final, rfl⟩
      · obtain ⟨rfl, hfailed⟩ := List.append_inj' hplan rfl
        obtain rfl := (List.cons.inj hfailed).1
        refine iff_of_true ⟨some e, by simp⟩ fun entry hentry hne => ?_
        rcases List.mem_append.1 hentry with hentry | hentry
        · obtain ⟨call, -, rfl⟩ := List.mem_map.1 hentry
          rfl
        · obtain rfl := List.mem_singleton.1 hentry
          exact absurd rfl hne
      · -- The call that failed stands in front of the last one.
        rw [List.concat_eq_append, ← List.cons_append, ← List.append_assoc] at hplan
        obtain ⟨rfl, -⟩ := List.append_inj' hplan rfl
        refine iff_of_false ?_ fun hall => ?_
        · rintro ⟨error?, hmem⟩
          refine hlast ?_
          rcases List.mem_append.1 hmem with hmem | hmem
          · obtain ⟨call, hcall, heq⟩ := List.mem_map.1 hmem
            exact List.mem_append_left _ ((MadeCall.mk.inj heq).1 ▸ hcall)
          · obtain ⟨rfl, -⟩ := MadeCall.mk.inj (List.mem_singleton.1 hmem)
            simp
        · have hfailed : failed ≠ last := by
            rintro rfl
            simp at hlast
          cases hall ⟨failed, some e⟩ (by simp) hfailed

end Made

/-- `m'` does what `m` does, and records that it makes the calls of a plan. -/
def Plans (plan : List Call) (m' : CodecM (Recorded κ) α) (m : CodecM κ α) : Prop :=
  ∀ k calls, ∃ made, m'.run.run ⟨k, calls⟩ = ((m.run.run k).1, ⟨(m.run.run k).2, calls ++ made⟩) ∧
    Made plan (m.run.run k).1 made

namespace Plans

theorem pure (a : α) : Plans [] (Pure.pure a : CodecM (Recorded κ) α) (Pure.pure a) := by
  intro k calls
  refine ⟨[], ?_, .all⟩
  rw [List.append_nil]
  rfl

theorem record (call : Call) (m : CodecM κ α) : Plans [call] (Codec.record call m) m := by
  intro k calls
  refine ⟨[.of call (m.run.run k).1], rfl, ?_⟩
  cases (m.run.run k).1 with
  | ok a => exact .all
  | error e => exact .upTo [] [] rfl

/-- The calls of one step and then those of the next. -/
theorem bind {plan next : List Call} {m' : CodecM (Recorded κ) α} {m : CodecM κ α}
    {f' : α → CodecM (Recorded κ) β} {f : α → CodecM κ β} (hm : Plans plan m' m)
    (hf : ∀ a, Plans next (f' a) (f a)) : Plans (plan ++ next) (m' >>= f') (m >>= f) := by
  intro k calls
  obtain ⟨made, hrun, hmade⟩ := hm k calls
  rw [run_bind, run_bind, hrun]
  rcases hstep : m.run.run k with ⟨e | a, l⟩
  · rw [hstep] at hmade
    exact ⟨made, rfl, hmade.append next⟩
  · rw [hstep] at hmade
    cases hmade with
    | all =>
        obtain ⟨made', hrun', hmade'⟩ := hf a l (calls ++ plan.map (⟨·, none⟩))
        refine ⟨plan.map (⟨·, none⟩) ++ made', ?_, hmade'.prepend plan⟩
        rw [← List.append_assoc]
        exact hrun'

end Plans

variable (codec : Codec κ η)

theorem plans_apply (directive : Directive) (picture : η) :
    Plans [directive.call] (codec.recorded.apply directive picture)
      (codec.apply directive picture) := by
  cases directive <;> exact .record _ _

theorem plans_applyAll (directives : List Directive) (picture : η) :
    Plans (directives.map Directive.call) (codec.recorded.applyAll directives picture)
      (codec.applyAll directives picture) := by
  induction directives generalizing picture with
  | nil => exact .pure picture
  | cons directive rest ih =>
      simp only [applyAll, List.foldlM_cons]
      exact (codec.plans_apply directive picture).bind ih

/-- What an execution plans: to decode once, to carry out the directives in order and to encode
once. -/
def plan (source : Content) (chain : Chain) (extension : String) : List Call :=
  .decode source :: chain.directives.map Directive.call ++ [.encode extension]

theorem plans_carryOut (source : Content) (chain : Chain) (extension : String) :
    Plans (plan source chain extension)
      (codec.recorded.carryOut source chain.directives extension)
      (codec.carryOut source chain.directives extension) :=
  (Plans.record _ _).bind fun picture =>
    (codec.plans_applyAll chain.directives picture).bind fun _ => .record _ _

/-- In front of its last call an execution does not plan to encode. -/
theorem encode_not_mem (source : Content) (chain : Chain) (extension : String) :
    .encode extension ∉ .decode source :: chain.directives.map Directive.call := by
  intro hmem
  rcases List.mem_cons.1 hmem with heq | hmem
  · cases heq
  · obtain ⟨directive, -, heq⟩ := List.mem_map.1 hmem
    cases directive <;> cases heq

/-- An execution makes the calls that it plans, up to the first that fails, whose error it ends
with: so it encodes exactly if nothing else fails. The tokens of the chain that read as no directive
change neither the calls nor the result, wherever they stand; they are only counted. -/
theorem execution_follows_plan (source : Content) (chain : Chain) (extension : String) (k : κ) :
    let run := (codec.execute source chain extension).run.run k
    let recorded := (codec.recorded.execute source chain extension).run.run ⟨k, []⟩
    let formed := (codec.recorded.execute source chain.formed extension).run.run ⟨k, []⟩
    (recorded.1 = run.1 ∧ recorded.2.state = run.2) ∧
    (run.1.map (·.result), run.2)
      = (codec.carryOut source chain.directives extension).run.run k ∧
    Made (plan source chain extension) run.1 recorded.2.calls ∧
    ((∃ error?, ⟨.encode extension, error?⟩ ∈ recorded.2.calls) ↔
      ∀ entry ∈ recorded.2.calls, entry.call ≠ .encode extension → entry.error? = none) ∧
    (formed.2 = recorded.2 ∧ formed.1.map (·.result) = recorded.1.map (·.result)) ∧
    ∀ execution, run.1 = .ok execution →
      execution.applied = chain.directives.length ∧ execution.skipped = chain.unformed ∧
        execution.applied + execution.skipped = chain.length := by
  intro run recorded formed
  obtain ⟨made, hrun, hmade⟩ := codec.plans_carryOut source chain extension k []
  have hrecorded : recorded = _ := codec.recorded.run_execute source chain extension ⟨k, []⟩
  have hformed : formed = _ := codec.recorded.run_execute source chain.formed extension ⟨k, []⟩
  have hplain : run = _ := codec.run_execute source chain extension k
  rw [hrun] at hrecorded
  rw [Chain.directives_formed, hrun] at hformed
  rcases hcarried : (codec.carryOut source chain.directives extension).run.run k
    with ⟨outcome, l⟩
  rw [hcarried] at hrecorded hformed hplain hmade
  rw [List.nil_append] at hrecorded hformed
  rw [hrecorded, hformed, hplain]
  refine ⟨⟨rfl, rfl⟩, ?_, hmade.map _,
    hmade.exists_last_iff (encode_not_mem source chain extension), ⟨rfl, ?_⟩, ?_⟩
  · cases outcome <;> rfl
  · cases outcome <;> rfl
  · rintro execution hexecution
    cases outcome with
    | error e => cases hexecution
    | ok result =>
        cases hexecution
        exact ⟨rfl, rfl, chain.length_directives_add_unformed⟩

/-- One directive between two tokens that are none. -/
theorem execution_follows_plan_sketch :
    let chain : Chain := .ofTexts ["zz", "r8", "r"]
    let source : Content := .bytes ⟨#[0x62]⟩
    let run := (Sketch.codec.execute source chain "webp").run.run #[]
    let recorded := (Sketch.codec.recorded.execute source chain "webp").run.run ⟨#[], []⟩
    ∃ execution, run.1 = .ok execution ∧ execution.applied = 1 ∧ execution.skipped = 2 ∧
      recorded.2.calls
        = [⟨.decode source, none⟩, ⟨.resize 8 8, none⟩, ⟨.encode "webp", none⟩] := by
  intro chain source run recorded
  have hdirectives : chain.directives = [.resize 8 8] := by decide
  have hunformed : chain.unformed = 2 := by decide
  obtain ⟨-, hcarried, hmade, -, -, hcounts⟩ :=
    execution_follows_plan Sketch.codec source chain "webp" #[]
  rw [hdirectives] at hcarried
  rcases hrun : run.1 with e | execution
  · rw [hrun] at hcarried
    cases (Prod.mk.inj hcarried).1
  · obtain ⟨happlied, hskipped, -⟩ := hcounts execution hrun
    rw [hdirectives] at happlied
    rw [hunformed] at hskipped
    rw [hrun, plan, hdirectives] at hmade
    refine ⟨execution, rfl, happlied, hskipped, ?_⟩
    generalize recorded.2.calls = calls at hmade
    cases hmade
    rfl

end Codec

end Rendition
