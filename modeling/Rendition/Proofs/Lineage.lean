import Mathlib.Logic.Function.Basic
import Rendition.Proofs.Making
import Rendition.Proofs.Sweeping

/-!
# Rendition.Proofs.Lineage

Which original a derivative goes back to. A derivative can be made of a shorter one that is on disk,
so what a request starts from says little. Here every file is followed back through all requests
that led to it: a chronicle is a run in which each file carries its lineage, the original that it
was made of in the end and the tokens that were carried out on the way (`Engine.Chronicle`). Files
do not store any of this; it is the measure for what the answers say of them.

With plain extensions the name of a file agrees with its lineage: it is the name of the original
with the tokens behind it, up to the extension (`Engine.Chronicle.names`).
-/

namespace Rendition

open Text Time

/-! ### Lineages -/

/-- The original that a file goes back to, and the tokens that were carried out on the way. -/
structure Lineage where
  original : String
  tokens : List String

namespace Lineage

/-- The lineage of an original. -/
def root (name : String) : Lineage := ⟨name, []⟩

/-- The lineage of what a chain makes. -/
def extend (l : Lineage) (chain : Chain) : Lineage :=
  ⟨l.original, l.tokens ++ chain.tokens.map (·.raw)⟩

/-- A path bears the name of its original with the tokens of a lineage behind it, up to the
extension. -/
inductive Names : Lineage → String → Prop
  /-- It is the original. -/
  | root (name : String) : Names (root name) name
  /-- It is that of a derivative. -/
  | derivative {path : RequestPath} {stem extension x : String} {cut : Cut}
      (hsplit : splitExtension path.fileName = some (stem, extension)) (hcut : cut ∈ cuts stem)
      (hx : IsExtension x) : Names ⟨pathOf path.dir cut.base x, cut.tokens⟩ path.text

theorem extend_ofTexts (l : Lineage) (tokens : List String) :
    l.extend (Chain.ofTexts tokens) = ⟨l.original, l.tokens ++ tokens⟩ := by
  simp [extend, Chain.ofTexts, Function.comp_def]

end Lineage

/-! ### Chronicles -/

section Chronicle

variable {γ κ η : Type}

/-- The lineages after a request: what it makes continues that of the source. -/
def Engine.lineagesAfter (engine : Engine MemoryFiles γ κ η) (raw : String) (now : Timestamp)
    (w : World MemoryFiles γ κ) (lineage : String → Lineage) : String → Lineage :=
  match RequestPath.ofRequest raw with
  | .error _ => lineage
  | .ok path =>
    match engine.settledAt path now w with
    | .ok (.derived source chain _) =>
      Function.update lineage path.text ((lineage source.path).extend chain)
    | .ok (.direct _) | .error _ => lineage

/-- The worlds that requests for some paths, and new contents for some originals, lead to from a
first one, in any order and at any times, with the lineages of the files. The files of the first one
are originals. -/
inductive Engine.Chronicle (engine : Engine MemoryFiles γ κ η) (requested : RequestPath → Prop)
    (sourced : String → Prop) (w₀ : World MemoryFiles γ κ) :
    (String → Lineage) → World MemoryFiles γ κ → Prop
  | start : Chronicle engine requested sourced w₀ Lineage.root w₀
  | request {lineage : String → Lineage} {w : World MemoryFiles γ κ}
      (h : Chronicle engine requested sourced w₀ lineage w) (raw : String) (now : Timestamp)
      (hpath : ∀ path, RequestPath.ofRequest raw = .ok path → requested path) :
      Chronicle engine requested sourced w₀ (engine.lineagesAfter raw now w lineage)
        (engine.after raw now w)
  | source {lineage : String → Lineage} {w : World MemoryFiles γ κ}
      (h : Chronicle engine requested sourced w₀ lineage w) {name : String} (file : StoredFile)
      (hname : sourced name) :
      Chronicle engine requested sourced w₀ (Function.update lineage name (.root name))
        { w with files := w.files.insert name file }

variable {engine : Engine MemoryFiles γ κ η} {requested : RequestPath → Prop}
  {sourced : String → Prop} {w₀ w : World MemoryFiles γ κ} {lineage : String → Lineage}
  {path : RequestPath} {raw : String} {now : Timestamp} {source : FoundFile} {chain : Chain}
  {extension : String}

theorem Engine.lineagesAfter_of_derived (hraw : RequestPath.ofRequest raw = .ok path)
    (hsettled : engine.settledAt path now w = .ok (.derived source chain extension)) :
    engine.lineagesAfter raw now w lineage
      = Function.update lineage path.text ((lineage source.path).extend chain) := by
  rw [lineagesAfter, hraw]
  simp only [hsettled]

theorem Engine.lineagesAfter_of_not_derived (hraw : RequestPath.ofRequest raw = .ok path)
    (hsettled : ¬ ∃ source chain extension,
      engine.settledAt path now w = .ok (.derived source chain extension)) :
    engine.lineagesAfter raw now w lineage = lineage := by
  rw [lineagesAfter, hraw]
  simp only
  split
  · next source chain extension hderived => exact absurd ⟨_, _, _, hderived⟩ hsettled
  · rfl
  · rfl

/-- A request that settles on a derivative continues a chronicle with that. -/
theorem Engine.Chronicle.derive (h : engine.Chronicle requested sourced w₀ lineage w)
    (hraw : RequestPath.ofRequest raw = .ok path) (hpath : requested path)
    (hsettled : engine.settledAt path now w = .ok (.derived source chain extension)) :
    engine.Chronicle requested sourced w₀
      (Function.update lineage path.text ((lineage source.path).extend chain))
      (engine.after raw now w) := by
  rw [← Engine.lineagesAfter_of_derived hraw hsettled]
  refine h.request raw now fun path' hraw' => ?_
  obtain rfl := Except.ok.inj (hraw.symm.trans hraw')
  exact hpath

/-- Where a request that starts at a named file starts in its own stem. -/
theorem exists_cut_of_names {look : String → Option FileStat} {fallbacks : Fallbacks}
    (hplain : fallbacks.Plain) {l : Lineage}
    (hresolve : resolveIn look fallbacks path = .ok (.derived source chain extension))
    (hnames : l.Names source.path) :
    ∃ stem cut x, splitExtension path.fileName = some (stem, extension) ∧ cut ∈ cuts stem ∧
      IsExtension x ∧ l.extend chain = ⟨pathOf path.dir cut.base x, cut.tokens⟩ := by
  obtain ⟨-, stem, hsplit, near, hnear, rfl, hfound, -⟩ := resolveIn_eq_derived.1 hresolve
  obtain ⟨c, hc, hfile⟩ := exists_of_firstAt hfound
  have hext := hplain.isExtension (RequestPath.isExtension hsplit) hc
  have hpath : source.path = pathOf path.dir near.base c := (fileAt_eq_some.1 hfile).1
  rw [hpath] at hnames
  rw [Lineage.extend_ofTexts]
  generalize htext : pathOf path.dir near.base c = text at hnames
  cases hnames with
  | root => exact ⟨stem, near, c, hsplit, hnear, hext, by rw [htext]; rfl⟩
  | @derivative q base _ x far hsplit' hfar hx =>
      -- The source is the level of the path at the near cut, and is cut further itself.
      obtain ⟨level, hlevel, hdir, hsplitLevel⟩ := exists_level hsplit hnear hext
      obtain rfl : level = q := RequestPath.text_injective (hlevel.trans htext)
      obtain ⟨rfl, -⟩ := Prod.mk.inj (Option.some.inj (hsplitLevel.symm.trans hsplit'))
      exact ⟨stem, ⟨far.base, far.tokens ++ near.tokens⟩, x, hsplit, cut_trans hnear hfar, hx,
        by rw [hdir]⟩

section Request

variable (hfiles : engine.files = MemoryFiles.fileSystem) (hdisk : engine.backend = .disk)

include hfiles hdisk

/-- A request either leaves the lineages of the files on disk, of which it may remove some, or it
keeps a derivative that continues the lineage of its source. -/
theorem Engine.lineage_cases (raw : String) (now : Timestamp) (w : World MemoryFiles γ κ)
    (lineage : String → Lineage) :
    ((engine.after raw now w).files.files = w.files.files.without (engine.removedBy raw w) ∧
      ∀ name, ((engine.after raw now w).files.files.get? name).isSome →
        engine.lineagesAfter raw now w lineage name = lineage name) ∨
    ∃ path source chain extension left file execution, RequestPath.ofRequest raw = .ok path ∧
      chain.isEmpty = false ∧
      engine.Makes raw path now w source chain extension left file execution ∧
      engine.lineagesAfter raw now w lineage
        = Function.update lineage path.text ((lineage source.path).extend chain) := by
  cases hraw : RequestPath.ofRequest raw with
  | error e =>
      left
      have hafter : engine.after raw now w = { w with files := w.files.atTime now } := by
        rw [Engine.after, Engine.run_serve_unnamed hraw]
      refine ⟨?_, fun name _ => by rw [Engine.lineagesAfter, hraw]⟩
      rw [hafter, Engine.removedBy, hraw]
      rfl
  | ok path =>
      by_cases hmade : ∃ source chain extension served,
          engine.settledAt path now w = .ok (.derived source chain extension) ∧
          engine.reply raw now w = .ok served ∧ chain.isEmpty = false
      · obtain ⟨source, chain, extension, served, hsettled, hserved, hchain⟩ := hmade
        obtain ⟨left, file, execution, hmakes⟩ :=
          Engine.exists_makes hfiles hdisk hraw hsettled hserved
        exact Or.inr ⟨path, source, chain, extension, left, file, execution, rfl, hchain, hmakes,
          Engine.lineagesAfter_of_derived hraw hsettled⟩
      · left
        have hafter : (engine.after raw now w).files.files
            = w.files.files.without (engine.removedBy raw w) := by
          by_cases hother : ∃ source chain extension served,
              engine.settledAt path now w = .ok (.derived source chain extension) ∧
              engine.reply raw now w = .ok served
          · -- It made something by no tokens, which is not kept.
            obtain ⟨source, chain, extension, served, hsettled, hserved⟩ := hother
            obtain ⟨left, file, execution, hmakes⟩ :=
              Engine.exists_makes hfiles hdisk hraw hsettled hserved
            have hchain : chain.isEmpty = true := by
              by_contra hne
              exact hmade ⟨_, _, _, _, hsettled, hserved, by simpa using hne⟩
            rw [hmakes.kept, if_pos hchain, hmakes.removed]
          · refine Engine.after_eq_without hfiles hdisk hraw fun source chain extension served
              hsettled hserved => hother ⟨_, _, _, _, hsettled, hserved⟩
        refine ⟨hafter, fun name hname => ?_⟩
        rw [hafter] at hname
        by_cases hderived : ∃ source chain extension,
            engine.settledAt path now w = .ok (.derived source chain extension)
        · obtain ⟨source, chain, extension, hsettled⟩ := hderived
          have hnone := Engine.get?_of_derived hfiles hdisk hraw hsettled
          rw [Engine.lineagesAfter_of_derived hraw hsettled, Function.update_of_ne]
          rintro rfl
          simp [hnone] at hname
        · rw [Engine.lineagesAfter_of_not_derived hraw hderived]

/-- The name of every file on disk agrees with its lineage. -/
theorem Engine.Chronicle.names (hplain : engine.fallbacks.Plain)
    (h : engine.Chronicle requested sourced w₀ lineage w) {name : String}
    (hname : (w.files.files.get? name).isSome) : (lineage name).Names name := by
  induction h generalizing name with
  | start => exact .root name
  | @source lineage w _ other file _ ih =>
      by_cases heq : name = other
      · subst heq
        rw [Function.update_self]
        exact .root name
      · rw [Function.update_of_ne heq]
        refine ih ?_
        rwa [MemoryFiles.insert, Catalog.get?_insert, if_neg heq] at hname
  | @request lineage w h raw now hpath ih =>
      rcases Engine.lineage_cases hfiles hdisk raw now w lineage with
        ⟨hafter, hsame⟩ | ⟨path, source, chain, ext, left, file, execution, -, hchain, hmakes, ht⟩
      · rw [hsame name hname]
        rw [hafter] at hname
        exact ih (Catalog.mem_of_without hname).2
      · rw [ht]
        by_cases heq : name = path.text
        · subst heq
          have hsource : (w.files.files.get? source.path).isSome :=
            (Catalog.mem_of_without (hmakes.removed ▸ Option.isSome_of_eq_some hmakes.stored)).2
          obtain ⟨stem, cut, x, hsplit, hcut, hx, hextend⟩ :=
            exists_cut_of_names hplain hmakes.resolved (ih hsource)
          rw [Function.update_self, hextend]
          exact .derivative hsplit hcut hx
        · rw [Function.update_of_ne heq]
          rw [hmakes.get?_after hchain, if_neg heq, hmakes.removed] at hname
          exact ih (Catalog.mem_of_without hname).2

end Request

end Chronicle

end Rendition
