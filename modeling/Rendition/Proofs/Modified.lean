import Rendition.Proofs.Lineage
import Rendition.Proofs.MixedExtensions
import Rendition.Proofs.Repetition

/-!
# Rendition.Proofs.Modified

When the answers say that an original was modified. An answer reports the last file of an ancestry:
of the ancestry of its source when it was just made, and of its own when it is a file. Both end at
the original as long as the original is found by the extension of the derivative
(`Lineage.Names.sourceModified_eq`). With several extensions it may not be: a derivative of a
derivative looks for its sources by its own extension, which need not reach the original that its
source was made of, or reaches another one.

So both answers report the original, whatever happened before, exactly when no extension in use may
stand for another one (`reports_original_iff`).
-/

namespace Rendition

open Text Time

/-! ### What stands last in an ancestry -/

/-- In a growing list, the last find is the one behind which nothing is found. -/
theorem getLast?_filterMap_of_pairwise {α β : Type} {size : α → Nat} {find : α → Option β} {x : β}
    {l : List α} (hpair : l.Pairwise fun a b => size a < size b) {a : α} (ha : a ∈ l)
    (hx : find a = some x) (hnone : ∀ b ∈ l, size a < size b → find b = none) :
    (l.filterMap find).getLast? = some x := by
  obtain ⟨front, back, rfl⟩ := List.append_of_mem ha
  have hback : back.filterMap find = [] := by
    refine List.filterMap_eq_nil_iff.2 fun b hb => hnone b (by simp [hb]) ?_
    exact (List.pairwise_cons.1 (List.pairwise_append.1 hpair).2.1).1 b hb
  rw [List.filterMap_append, List.filterMap_cons, hx]
  simp [hback]

section Ancestry

variable {files : Catalog StoredFile} {fallbacks : Fallbacks} {path : RequestPath}
  {stem extension : String}

/-- A path without an ancestry reports its own file. -/
theorem sourceModified_of_source (hname : namesDerivative path.text = false) (stat : FileStat) :
    sourceModified files.look fallbacks ⟨path.text, stat⟩ = stat.modified := by
  have hnil : ancestorsIn files.look fallbacks path = [] := by
    refine List.eq_nil_iff_forall_not_mem.2 fun level hlevel => ?_
    cases hsplit : splitExtension path.fileName with
    | none => simp [ancestorsIn_eq_nil hsplit] at hlevel
    | some parts =>
        obtain ⟨cut, hcut, -⟩ := (mem_ancestorsIn hsplit).1 hlevel
        simp [namesDerivative_of_cut hsplit hcut] at hname
  rw [sourceModified, path.ofRequest_text]
  simp [hnil]

/-- The extension itself comes first. -/
theorem firstAt_of_get? (fallbacks : Fallbacks) {dir base : String} {file : StoredFile}
    (hget : files.get? (pathOf dir base extension) = some file) :
    firstAt files.look fallbacks dir base extension
      = some ⟨pathOf dir base extension, file.stat⟩ := by
  rw [firstAt_eq_findSome?, Fallbacks.candidates, List.findSome?_cons,
    Catalog.fileAt_look.2 ⟨file, hget, rfl⟩]

/-- A path reports the file at a cut behind which all tokens are directives, if its own extension
leads there and the base does not end in a directive. -/
theorem sourceModified_of_cut (fallbacks : Fallbacks)
    (hsplit : splitExtension path.fileName = some (stem, extension))
    {cut : Cut} (hcut : cut ∈ generatedCuts stem)
    (hname : namesDerivative (pathOf path.dir cut.base extension) = false) {original : StoredFile}
    (hget : files.get? (pathOf path.dir cut.base extension) = some original) (stat : FileStat) :
    sourceModified files.look fallbacks ⟨path.text, stat⟩ = original.modified := by
  have hfound := firstAt_of_get? fallbacks hget
  have hlast : (ancestorsIn files.look fallbacks path).getLast?
      = some ⟨pathOf path.dir cut.base extension, original.stat⟩ := by
    rw [ancestorsIn_eq hsplit]
    refine getLast?_filterMap_of_pairwise (pairwise_generatedCuts stem) hcut hfound
      fun further hfurther hlen => ?_
    have := namesDerivative_level hsplit (mem_generatedCuts.1 hcut).1 hfurther hlen
      (RequestPath.isExtension hsplit)
    simp [hname] at this
  rw [sourceModified, path.ofRequest_text]
  simp [hlast]
  rfl

theorem extensionOf_text (path : RequestPath) : extensionOf path.text = path.extension := by
  rw [extensionOf, RequestPath.nameOf_text]
  rfl

/-- A path reports its original, if that has the same extension. -/
theorem Lineage.Names.sourceModified_eq {l : Lineage} (hnames : l.Names path.text)
    (hpath : path.extension = some extension)
    (hextension : extensionOf l.original = some extension)
    (hname : namesDerivative l.original = false)
    (hformed : ∀ token ∈ l.tokens, Directive.isWellFormed token = true)
    {original file : StoredFile} (hget : files.get? l.original = some original)
    (hfile : files.get? path.text = some file) :
    sourceModified files.look fallbacks ⟨path.text, file.stat⟩ = original.modified := by
  generalize htext : path.text = text at hnames hfile
  cases hnames with
  | root =>
      rw [← htext]
      obtain rfl := Option.some.inj (hget.symm.trans hfile)
      exact sourceModified_of_source (htext ▸ hname) _
  | @derivative other stem extension' x cut hsplit hcut hx =>
      obtain rfl := RequestPath.text_injective htext
      obtain rfl := Option.some.inj ((RequestPath.extension_eq hsplit).symm.trans hpath)
      -- The original has the extension of the path.
      obtain ⟨level, hlevel, -, hsplitLevel⟩ := exists_level hsplit hcut hx
      obtain rfl : x = extension' := by
        simp only at hextension
        rw [← hlevel, extensionOf_text, RequestPath.extension_eq hsplitLevel] at hextension
        exact Option.some.inj hextension
      by_cases hne : cut.tokens = []
      · have hwhole : cut = ⟨stem, []⟩ :=
          cut_eq_of_length_eq hcut (whole_mem_cuts (splitExtension_eq_some.1 hsplit).2.1)
            (by simp [hne])
        simp only [hwhole, ← text_eq_pathOf hsplit] at hname hget
        obtain rfl := Option.some.inj (hget.symm.trans hfile)
        exact sourceModified_of_source hname _
      · exact sourceModified_of_cut _ hsplit (mem_generatedCuts.2 ⟨hcut, hne, hformed⟩) hname hget _

end Ancestry

/-! ### Files that keep the extension of their original -/

/-- A file with an extension in use goes back to an original that is on disk, and that has the same
extension. -/
structure StraightAt (used : String → Prop) (files : Catalog StoredFile) (l : Lineage)
    (name : String) : Prop where
  inUse : ∀ ext, extensionOf name = some ext → used ext
  source : IsSource used l.original
  present : (files.get? l.original).isSome
  alike : extensionOf l.original = extensionOf name

/-- So does every file on disk. -/
def Straight (used : String → Prop) (lineage : String → Lineage) (files : Catalog StoredFile) :
    Prop :=
  ∀ name, (files.get? name).isSome → StraightAt used files (lineage name) name

namespace Straight

variable {used : String → Prop} {lineage lineage' : String → Lineage} {files : Catalog StoredFile}

theorem of_sources (h : ∀ name, (files.get? name).isSome → IsSource used name) :
    Straight used Lineage.root files := by
  intro name hname
  exact ⟨(h name hname).2, h name hname, hname, rfl⟩

/-- Files with the names of derivatives may go. -/
theorem without (h : Straight used lineage files) {names : List String}
    (hnames : ∀ name ∈ names, namesDerivative name = true)
    (hsame : ∀ name, ((files.without names).get? name).isSome → lineage' name = lineage name) :
    Straight used lineage' (files.without names) := by
  intro name hname
  rw [hsame name hname]
  have hname' := h name (Catalog.mem_of_without hname).2
  refine { hname' with present := ?_ }
  rw [Catalog.get?_without, if_neg]
  · exact hname'.present
  · intro hmem
    have := hnames _ hmem
    simp [hname'.source.1] at this

/-- A file may come that goes back to such an original. -/
theorem insert (h : Straight used lineage files) {name : String} {l : Lineage} (file : StoredFile)
    (hnew : StraightAt used (files.insert name file) l name) :
    Straight used (Function.update lineage name l) (files.insert name file) := by
  intro other hother
  by_cases heq : other = name
  · rw [heq, Function.update_self]
    exact hnew
  · rw [Catalog.get?_insert, if_neg heq] at hother
    rw [Function.update_of_ne heq]
    refine { h other hother with present := ?_ }
    rw [Catalog.get?_insert]
    split
    · rfl
    · exact (h other hother).present

end Straight

section Chronicle

variable {γ κ η : Type} {engine : Engine MemoryFiles γ κ η} {used : String → Prop}
  {w₀ w : World MemoryFiles γ κ} {lineage : String → Lineage} {path : RequestPath} {raw : String}
  {now : Timestamp} {source : FoundFile} {chain : Chain} {extension : String}

/-- A request for a path has an extension in use, if any. -/
def InUse (used : String → Prop) (path : RequestPath) : Prop :=
  ∀ ext, path.extension = some ext → used ext

theorem InUse.of_split {stem : String}
    (hsplit : splitExtension path.fileName = some (stem, extension)) (hused : used extension) :
    InUse used path := by
  intro ext hext
  obtain rfl := Option.some.inj ((RequestPath.extension_eq hsplit).symm.trans hext)
  exact hused

variable (hplain : engine.fallbacks.Plain)
  (happart : ∀ x y, used x → used y → y ∈ engine.fallbacks.candidates x → y = x)

include hplain happart

/-- Where no extension in use may stand for another one, a derivative has that of its source. -/
theorem exists_level_source {files : Catalog StoredFile}
    (hresolve : resolveIn files.look engine.fallbacks path
      = .ok (.derived source chain extension))
    (hpath : InUse used path)
    (hsource : ∀ ext, extensionOf source.path = some ext → used ext) :
    ∃ level : RequestPath, level.text = source.path ∧ level.extension = some extension ∧
      path.extension = some extension := by
  obtain ⟨-, stem, hsplit, near, hnear, -, hfound, -⟩ := resolveIn_eq_derived.1 hresolve
  obtain ⟨c, hc, file, -, rfl⟩ := Catalog.exists_of_firstAt hfound
  obtain ⟨level, hlevel, -, hsplitLevel⟩ :=
    exists_level hsplit hnear (hplain.isExtension (RequestPath.isExtension hsplit) hc)
  have hlevelExt := RequestPath.extension_eq hsplitLevel
  have hpathExt := RequestPath.extension_eq hsplit
  have hc' : used c := hsource c (by rw [← hlevel, extensionOf_text, hlevelExt])
  obtain rfl := happart extension c (hpath _ hpathExt) hc' hc
  exact ⟨level, hlevel, hlevelExt, hpathExt⟩

variable (hfiles : engine.files = MemoryFiles.fileSystem) (hdisk : engine.backend = .disk)
  (hsources : ∀ name, (w₀.files.files.get? name).isSome → IsSource used name)
  (h : engine.Chronicle (InUse used) (IsSource used) w₀ lineage w)

include hfiles hdisk hsources h

/-- Then every file keeps the extension of its original, which stays on disk. -/
theorem Engine.Chronicle.straight : Straight used lineage w.files.files := by
  induction h with
  | start => exact .of_sources hsources
  | @source lineage w _ name file hname ih =>
      exact ih.insert file ⟨hname.2, hname, by simp [Lineage.root], rfl⟩
  | @request lineage w h raw now hpath ih =>
      have hleft : ∀ name ∈ engine.removedBy raw w, namesDerivative name = true :=
        fun name => namesDerivative_of_mem_removedBy hplain
      rcases Engine.lineage_cases hfiles hdisk raw now w lineage with
        ⟨hafter, hsame⟩ | ⟨path, source, chain, ext, left, file, execution, hraw, hchain, hmakes,
          ht⟩
      · rw [hafter] at hsame ⊢
        exact ih.without hleft hsame
      · have hstraight : Straight used lineage left :=
          hmakes.removed ▸ ih.without hleft fun _ _ => rfl
        have hsource := hstraight source.path (Option.isSome_of_eq_some hmakes.stored)
        obtain ⟨level, hlevel, hlevelExt, hpathExt⟩ := exists_level_source hplain happart
          hmakes.resolved (hpath path hraw) hsource.inUse
        rw [ht, hmakes.kept, if_neg (by simp [hchain])]
        refine hstraight.insert _ ⟨?_, hsource.source, ?_, ?_⟩
        · rw [extensionOf_text]
          exact hpath path hraw
        · rw [Catalog.get?_insert]
          split
          · rfl
          · exact hsource.present
        · rw [extensionOf_text, hpathExt, ← hlevelExt, ← extensionOf_text, hlevel]
          exact hsource.alike

/-- Then a request that makes a derivative, and the next one that is answered with it, both report
when the original was modified. -/
theorem Engine.Chronicle.reports_original (hraw : RequestPath.ofRequest raw = .ok path)
    (hpath : InUse used path)
    (hsettled : engine.settledAt path now w = .ok (.derived source chain extension))
    (hchain : chain.isEmpty = false)
    (hformed : ∀ token ∈ ((lineage source.path).extend chain).tokens,
      Directive.isWellFormed token = true)
    {served : Served} (hserved : engine.reply raw now w = .ok served) {later : Timestamp}
    {again : Served} (hagain : engine.reply raw later (engine.after raw now w) = .ok again)
    (horigin : again.origin = .file) :
    ∃ original,
      (engine.after raw now w).files.files.get? (lineage source.path).original = some original ∧
      served.lastModified = some original.modified ∧
      again.lastModified = some original.modified := by
  obtain ⟨left, file, execution, hmakes⟩ := Engine.exists_makes hfiles hdisk hraw hsettled hserved
  obtain rfl := Except.ok.inj (hserved.symm.trans hmakes.reply)
  have hafter := h.derive hraw hpath hsettled
  have hstraight := hafter.straight hplain happart hfiles hdisk hsources
  have hkept := hmakes.get?_after hchain path.text
  rw [if_pos rfl] at hkept
  have hstored := hmakes.get?_after hchain source.path
  rw [if_neg hmakes.source_ne, hmakes.stored] at hstored
  -- The derivative and its source go back to one original.
  have hderivative := hstraight path.text (Option.isSome_of_eq_some hkept)
  have hnamed := hafter.names hfiles hdisk hplain (Option.isSome_of_eq_some hkept)
  have hbase := hstraight source.path (Option.isSome_of_eq_some hstored)
  have hnamedBase := hafter.names hfiles hdisk hplain (Option.isSome_of_eq_some hstored)
  rw [Function.update_self] at hderivative hnamed
  rw [Function.update_of_ne hmakes.source_ne] at hbase hnamedBase
  obtain ⟨level, hlevel, hlevelExt, hpathExt⟩ :=
    exists_level_source hplain happart hmakes.resolved hpath hbase.inUse
  have hextension : extensionOf (lineage source.path).original = some extension := by
    rw [hbase.alike, ← hlevel, extensionOf_text, hlevelExt]
  obtain ⟨original, horiginal⟩ := Option.isSome_iff_exists.1 hbase.present
  refine ⟨original, horiginal, ?_, ?_⟩
  · have hnamedLevel : (lineage source.path).Names level.text := by rwa [hlevel]
    have hreported : sourceModified (engine.after raw now w).files.look engine.fallbacks
        ⟨level.text, file.stat⟩ = original.modified :=
      hnamedLevel.sourceModified_eq hlevelExt hextension hbase.source.1
        (fun token htoken => hformed token (List.mem_append_left _ htoken)) horiginal
        (hlevel ▸ hstored)
    rw [hlevel, ← hmakes.stat_eq] at hreported
    exact congrArg some hreported
  · obtain ⟨hreply, -, -⟩ := Engine.reply_eq_file hfiles hdisk hraw hkept
      (Engine.fresh_of_reply_file hfiles hdisk hraw hagain horigin) later
    obtain rfl := Except.ok.inj (hagain.symm.trans hreply)
    simp only [Engine.served]
    rw [hnamed.sourceModified_eq hpathExt hextension hbase.source.1 hformed horiginal hkept]

end Chronicle

/-- Whatever happened before, with extensions in use only and sources on disk at first: a request
makes a derivative by directives, and its source goes back to an original by directives. Then it
reports when that original was modified, and so does the next request for the derivative, if it is
answered with the file. -/
def ReportsOriginal (fallbacks : Fallbacks) (used : String → Prop) : Prop :=
  ∀ (γ κ η : Type) (engine : Engine MemoryFiles γ κ η) (w₀ w : World MemoryFiles γ κ)
    (lineage : String → Lineage) (raw : String) (path : RequestPath) (source : FoundFile)
    (chain : Chain) (extension : String) (now later : Timestamp) (served again : Served),
    engine.files = MemoryFiles.fileSystem → engine.backend = .disk →
    engine.fallbacks = fallbacks →
    (∀ name, (w₀.files.files.get? name).isSome → IsSource used name) →
    engine.Chronicle (InUse used) (IsSource used) w₀ lineage w →
    RequestPath.ofRequest raw = .ok path → InUse used path →
    engine.settledAt path now w = .ok (.derived source chain extension) → chain.isEmpty = false →
    (∀ token ∈ ((lineage source.path).extend chain).tokens,
      Directive.isWellFormed token = true) →
    engine.reply raw now w = .ok served →
    engine.reply raw later (engine.after raw now w) = .ok again → again.origin = .file →
    ∃ original,
      (engine.after raw now w).files.files.get? (lineage source.path).original = some original ∧
      served.lastModified = some original.modified ∧
      again.lastModified = some original.modified

/-! ### A second original comes between -/

namespace Sketching

variable {fallbacks : Fallbacks} {x y : String}

/-- The names that such a photo, its derivatives and theirs have are all different. -/
theorem pathOf_second_ne {base : String} (hbase : base ∈ ["a", "a_q1"]) {c c' : String} :
    pathOf "" base c ≠ pathOf "" "a_q1_q2" c' := by
  have hwhole : ⟨"a_q1_q2", []⟩ ∈ cuts "a_q1_q2" := by decide
  have hcut : ∃ cut ∈ cuts "a_q1_q2", cut.base = base ∧ 0 < cut.tokens.length := by
    revert base
    decide
  obtain ⟨cut, hmem, rfl, hlen⟩ := hcut
  exact (pathOf_ne_pathOf hwhole hmem hlen).symm

/-- A photo, a derivative of it, and a second photo with another extension that came later. -/
def interposed (x y : String) (copied : Content) : Catalog StoredFile :=
  ((Catalog.empty.insert (pathOf "" "a" y) ⟨.text "A", instant 1, instant 1⟩).insert
    (pathOf "" "a_q1" y) ⟨copied, instant 2, instant 2⟩).insert
    (pathOf "" "a" x) ⟨.text "B", instant 3, instant 3⟩

section Interposed

variable {copied : Content}

theorem get?_interposed (name : String) :
    (interposed x y copied).get? name
      = if name = pathOf "" "a" x then some ⟨.text "B", instant 3, instant 3⟩
        else if name = pathOf "" "a_q1" y then some ⟨copied, instant 2, instant 2⟩
        else if name = pathOf "" "a" y then some ⟨.text "A", instant 1, instant 1⟩ else none := by
  simp only [interposed, Catalog.get?_insert, Catalog.get?_empty]

theorem get?_interposed_derivative (c : String) :
    (interposed x y copied).get? (pathOf "" "a_q1" c)
      = if c = y then some ⟨copied, instant 2, instant 2⟩ else none := by
  rw [get?_interposed, if_neg pathOf_photo_ne.symm]
  by_cases hc : c = y
  · rw [if_pos hc, if_pos (by rw [hc])]
  · rw [if_neg hc, if_neg fun heq => hc (pathOf_inj heq), if_neg pathOf_photo_ne.symm]

theorem get?_interposed_second (c : String) :
    (interposed x y copied).get? (pathOf "" "a_q1_q2" c) = none := by
  rw [get?_interposed, if_neg (pathOf_second_ne (by decide)).symm,
    if_neg (pathOf_second_ne (by decide)).symm, if_neg (pathOf_second_ne (by decide)).symm]

theorem get?_interposed_photo (hne : y ≠ x) :
    (interposed x y copied).get? (pathOf "" "a" y)
      = some ⟨.text "A", instant 1, instant 1⟩ := by
  rw [get?_interposed, if_neg fun heq => hne (pathOf_inj heq), if_neg pathOf_photo_ne, if_pos rfl]

theorem newest_interposed_le {name : String} {file : StoredFile}
    (hget : (interposed x y copied).get? name = some file) : file.stat.newest ≤ instant 3 := by
  rw [get?_interposed] at hget
  split_ifs at hget <;> obtain rfl := Option.some.inj hget <;> rw [StoredFile.newest_stat]
  all_goals decide

/-- A derivative of the derivative, with the extension of the second photo, is made of the first
one. -/
theorem resolveIn_interposed (copied : Content) {path : RequestPath}
    (hsplit : splitExtension path.fileName = some ("a_q1_q2", x)) (hdir : path.dir = "")
    (hxy : y ∈ fallbacks.candidates x) :
    ∃ source, source.path = pathOf "" "a_q1" y ∧
      resolveIn (interposed x y copied).look fallbacks path
        = .ok (.derived source (Chain.ofTexts ["q2"]) x) := by
  have hthere : ((interposed x y copied).get? (pathOf "" "a_q1" y)).isSome := by
    rw [get?_interposed_derivative, if_pos rfl]
    rfl
  obtain ⟨source, hsource⟩ :=
    Option.isSome_iff_exists.1 (Catalog.firstAt_isSome.2 ⟨y, hxy, hthere⟩)
  obtain ⟨c, -, file, hget, rfl⟩ := Catalog.exists_of_firstAt hsource
  obtain rfl : c = y := by
    rw [get?_interposed_derivative] at hget
    by_contra hne
    rw [if_neg hne] at hget
    cases hget
  have hshorter : ∀ cut ∈ cuts "a_q1_q2", cut.tokens.length < 1 → cut.base = "a_q1_q2" := by
    decide
  refine ⟨⟨pathOf "" "a_q1" c, file.stat⟩, rfl, resolveIn_eq_derived.2 ⟨?_, _, hsplit,
    ⟨"a_q1", ["q2"]⟩, by decide, rfl, ?_, fun other hother hlen => ?_⟩⟩
  · rw [text_eq_pathOf hsplit, hdir]
    exact Catalog.fileAt_look_eq_none.2 (get?_interposed_second x)
  · rw [hdir]
    exact hsource
  · rw [hshorter other hother hlen, hdir]
    exact firstAt_eq_none.2 fun c _ =>
      Catalog.fileAt_look_eq_none.2 (get?_interposed_second c)

theorem stalenessIn_interposed (hne : y ≠ x) {path : RequestPath}
    (hsplit : splitExtension path.fileName = some ("a_q1", y)) (hdir : path.dir = "") :
    stalenessIn (interposed x y copied).look fallbacks path = .fresh := by
  have hgenerated : generatedCuts "a_q1" = [⟨"a", ["q1"]⟩] := by decide
  have hancestors : ancestorsIn (interposed x y copied).look fallbacks path
      = [⟨pathOf "" "a" y, StoredFile.stat ⟨.text "A", instant 1, instant 1⟩⟩] := by
    rw [ancestorsIn_eq hsplit, hgenerated, hdir]
    simp only [List.filterMap_cons, List.filterMap_nil,
      firstAt_of_get? fallbacks (get?_interposed_photo hne)]
  refine stalenessIn_eq_fresh.2 fun found hfound level hlevel => ?_
  obtain ⟨file, hget, rfl⟩ := Catalog.fileAt_look.1 hfound
  rw [text_eq_pathOf hsplit, hdir, get?_interposed_derivative, if_pos rfl] at hget
  obtain rfl := Option.some.inj hget
  rw [hancestors, List.mem_singleton] at hlevel
  rw [hlevel, StoredFile.newest_stat]
  exact (by decide : ¬ instant 2 < instant 1)

end Interposed

/-- The derivative is requested, then the second photo comes. -/
theorem exists_chronicle_interposed (fallbacks : Fallbacks) {used : String → Prop}
    (hused : ∀ x, used x → IsExtension x) (hx : used x) (hy : used y) :
    ∃ w lineage copied, (copier fallbacks).Chronicle (InUse used) (IsSource used) (photoAs y)
        lineage w ∧ w.files.files = interposed x y copied ∧
      lineage (pathOf "" "a_q1" y) = ⟨pathOf "" "a" y, ["q1"]⟩ := by
  obtain ⟨path, htext, hdir, hsplit⟩ := exists_path "a_q1" (by decide) (hused y hy)
  obtain ⟨onDisk, htextOnDisk, -, hsplitOnDisk⟩ := exists_path "a" (by decide) (hused y hy)
  have hnone : ∀ c ∈ fallbacks.candidates y,
      (photoAs y).files.files.get? (pathOf "" "a_q1" c) = none := by
    intro c _
    simp [photoAs, pathOf_photo_ne.symm]
  obtain ⟨source, hsource, hresolve⟩ :=
    lone_photoAs.resolveIn_eq hsplit hdir List.mem_cons_self hnone
  have hpath : RequestPath.ofRequest source.path = .ok onDisk := by
    rw [hsource, ← htextOnDisk]
    exact onDisk.ofRequest_text
  obtain ⟨hsettled, file, execution, hmakes⟩ :=
    exists_makes_copier (instant 2) hresolve hpath (stalenessIn_photo hsplitOnDisk _)
  have hstart : (copier fallbacks).Chronicle (InUse used) (IsSource used) (photoAs y)
      Lineage.root (photoAs y) := .start
  have hrequest := hstart.derive path.ofRequest_text (.of_split hsplit hy) hsettled
  refine ⟨_, _, execution.result, hrequest.source ⟨.text "B", instant 3, instant 3⟩
    (isSource_photo hused hx), ?_, ?_⟩
  · change Catalog.insert _ _ _ = _
    rw [hmakes.kept, if_neg (by decide), htext]
    rfl
  · rw [Function.update_of_ne pathOf_photo_ne.symm, htext, Function.update_self, hsource,
      Lineage.extend_ofTexts]
    rfl

/-- Then a derivative of the derivative is requested, with the extension of the second photo, and
requested again. The first answer reports the first photo, which the derivative was made of, and the
second one reports the second photo. -/
theorem exists_replies_interposed {w : World MemoryFiles Unit Unit} {copied : Content}
    (hx : IsExtension x) (hy : IsExtension y) (hxy : y ∈ fallbacks.candidates x) (hne : y ≠ x)
    (hw : w.files.files = interposed x y copied) :
    ∃ path source served again, splitExtension path.fileName = some ("a_q1_q2", x) ∧
      source.path = pathOf "" "a_q1" y ∧
      (copier fallbacks).settledAt path (instant 4) w
        = .ok (.derived source (Chain.ofTexts ["q2"]) x) ∧
      (copier fallbacks).reply path.text (instant 4) w = .ok served ∧
      served.lastModified = some (instant 1) ∧
      (copier fallbacks).reply path.text (instant 5)
        ((copier fallbacks).after path.text (instant 4) w) = .ok again ∧
      again.origin = .file ∧ again.lastModified = some (instant 3) := by
  obtain ⟨path, htext, hdir, hsplit⟩ := exists_path "a_q1_q2" (by decide) hx
  obtain ⟨onDisk, htextOnDisk, hdirOnDisk, hsplitOnDisk⟩ := exists_path "a_q1" (by decide) hy
  obtain ⟨source, hsource, hresolve⟩ := resolveIn_interposed copied hsplit hdir hxy
  have hpath : RequestPath.ofRequest source.path = .ok onDisk := by
    rw [hsource, ← htextOnDisk]
    exact onDisk.ofRequest_text
  rw [← hw] at hresolve
  have hfresh : stalenessIn w.files.files.look fallbacks onDisk = .fresh := by
    rw [hw]
    exact stalenessIn_interposed hne hsplitOnDisk hdirOnDisk
  obtain ⟨hsettled, file, execution, hmakes⟩ :=
    exists_makes_copier (instant 4) hresolve hpath hfresh
  rw [hw] at hmakes
  have hafter := hmakes.get?_after rfl
  have hfirst : ((copier fallbacks).after path.text (instant 4) w).files.files.get?
      (pathOf "" "a" y) = some ⟨.text "A", instant 1, instant 1⟩ := by
    rw [hafter, htext, if_neg (pathOf_second_ne (by decide)), get?_interposed_photo hne]
  have hsecond : ((copier fallbacks).after path.text (instant 4) w).files.files.get?
      (pathOf "" "a" x) = some ⟨.text "B", instant 3, instant 3⟩ := by
    rw [hafter, htext, if_neg (pathOf_second_ne (by decide)), get?_interposed, if_pos rfl]
  have hnamed : ∀ c, IsExtension c → namesDerivative (pathOf "" "a" c) = false := by
    intro c hc
    have hself : ∀ x, IsExtension x → IsExtension x := fun _ h => h
    exact (isSource_photo hself hc).1
  have hfiles : (copier fallbacks).files = MemoryFiles.fileSystem := rfl
  have hdisk : (copier fallbacks).backend = .disk := rfl
  have hagain := hmakes.reply_again hfiles hdisk path.ofRequest_text rfl
    (fun name other hget => Int.le_trans (newest_interposed_le hget) (by decide)) (instant 5)
  refine ⟨path, source, _, _, hsplit, hsource, hsettled, hmakes.reply, ?_, hagain, rfl, ?_⟩
  · have hcut : (⟨"a", ["q1"]⟩ : Cut) ∈ generatedCuts "a_q1" := by decide
    rw [← hdirOnDisk] at hfirst hnamed
    have hreported := sourceModified_of_cut fallbacks hsplitOnDisk hcut (hnamed y hy) hfirst
      source.stat
    rw [htextOnDisk, ← hsource] at hreported
    exact congrArg some hreported
  · have hcut : (⟨"a", ["q1", "q2"]⟩ : Cut) ∈ generatedCuts "a_q1_q2" := by decide
    rw [← hdir] at hsecond hnamed
    exact congrArg some (sourceModified_of_cut fallbacks hsplit hcut (hnamed x hx) hsecond _)

end Sketching

/-! ### Which extensions can be used together -/

/-- An extension that may stand for another one brings the two answers apart. -/
theorem not_reportsOriginal {fallbacks : Fallbacks} {used : String → Prop}
    (hused : ∀ x, used x → IsExtension x) {x y : String} (hx : used x) (hy : used y)
    (hxy : y ∈ fallbacks.candidates x) (hne : y ≠ x) : ¬ ReportsOriginal fallbacks used := by
  intro hreports
  obtain ⟨w, lineage, copied, hchronicle, hw, hlineage⟩ :=
    Sketching.exists_chronicle_interposed fallbacks hused hx hy
  obtain ⟨path, source, served, again, hsplit, hsource, hsettled, hserved, hfirst, hagain,
    horigin, hsecond⟩ := Sketching.exists_replies_interposed (hused x hx) (hused y hy) hxy hne hw
  have hsources : ∀ name, ((Sketching.photoAs y).files.files.get? name).isSome →
      IsSource used name := by
    intro name hname
    exact Sketching.eq_of_photoAs hname ▸ Sketching.isSource_photo hused hy
  have hformed : ∀ token ∈ ((lineage source.path).extend (Chain.ofTexts ["q2"])).tokens,
      Directive.isWellFormed token = true := by
    rw [hsource, hlineage, Lineage.extend_ofTexts]
    exact (by decide : ∀ token ∈ ["q1", "q2"], Directive.isWellFormed token = true)
  obtain ⟨original, -, hreported, hreported'⟩ := hreports Unit Unit Content
    (Sketching.copier fallbacks) (Sketching.photoAs y) w lineage path.text path source _ x _ _
    served again rfl rfl rfl hsources hchronicle path.ofRequest_text (.of_split hsplit hx) hsettled
    rfl hformed hserved hagain horigin
  have hsame : Sketching.instant 1 = Sketching.instant 3 :=
    Option.some.inj ((hfirst.symm.trans hreported).trans (hreported'.symm.trans hsecond))
  exact absurd hsame (by decide)

/-- Both answers report the original, whatever happened before with some extensions in use, if and
only if none of these may stand for another one. -/
theorem reports_original_iff {fallbacks : Fallbacks} (hplain : fallbacks.Plain)
    {used : String → Prop} (hused : ∀ x, used x → IsExtension x) :
    ReportsOriginal fallbacks used ↔
      ∀ x y, used x → used y → y ∈ fallbacks.candidates x → y = x := by
  constructor
  · intro hreports x y hx hy hxy
    by_contra hne
    exact not_reportsOriginal hused hx hy hxy hne hreports
  · rintro happart γ κ η engine w₀ w lineage raw path source chain extension now later served again
      hfiles hdisk rfl hsources hchronicle hraw hpath hsettled hchain hformed hserved hagain horigin
    exact hchronicle.reports_original hplain happart hfiles hdisk hsources hraw hpath hsettled
      hchain hformed hserved hagain horigin

/-- With the built-in table a gif and a tif can be used together, and a jpg and a png cannot. -/
theorem reports_original_builtIn :
    ReportsOriginal .builtIn (· ∈ ["gif", "tif"]) ∧
      ¬ ReportsOriginal .builtIn (· ∈ ["jpg", "png"]) := by
  constructor
  · have happart : ∀ x ∈ ["gif", "tif"], ∀ y ∈ ["gif", "tif"],
        y ∈ Fallbacks.builtIn.candidates x → y = x := by decide
    exact (reports_original_iff Fallbacks.plain_builtIn (by decide)).2 fun x y hx hy =>
      happart x hx y hy
  · intro hreports
    have happart := (reports_original_iff Fallbacks.plain_builtIn (by decide)).1 hreports
    exact absurd (happart "jpg" "png" (by decide) (by decide) (by decide)) (by decide)

namespace Reported

open Sketching

/-- A gif, and a check at every request. -/
def photo : World MemoryFiles Unit Codec.Sketch.Record where
  files := ⟨Catalog.empty.insert "a.gif" ⟨.text "A", instant 1, instant 1⟩, instant 1⟩
  cache := ()
  codec := #[]
  sampler := ⟨0, 0⟩

/-- A derivative is requested as a jpg. -/
def requested : World MemoryFiles Unit Codec.Sketch.Record :=
  engine.after "a_q1.jpg" (instant 2) photo

end Reported

/-- A gif is requested as a jpg with one directive, and that one as a tga with one more, twice in a
row. The first answer is made and reports when the gif was modified; the second one is the file that
was kept, and reports when the jpg was. -/
theorem second_answer_reports_derivative :
    let path := RequestPath.single "a_q1_q2.tga" (by decide)
    let w := Reported.requested
    let answer := Sketching.engine.reply path.text (Sketching.instant 3) w
    let again := Sketching.engine.reply path.text (Sketching.instant 4)
      (Sketching.engine.after path.text (Sketching.instant 3) w)
    (Sketching.engine.settledAt path (Sketching.instant 3) w).toOption.map (·.file.path)
        = some "a_q1.jpg" ∧
      answer.toOption.map (·.origin) = some .derived ∧
      answer.toOption.bind (·.lastModified) = some (Sketching.instant 1) ∧
      again.toOption.map (·.origin) = some .file ∧
      again.toOption.bind (·.lastModified) = some (Sketching.instant 2) ∧
      again.toOption.map (·.etag?) = answer.toOption.map (·.etag?) := by
  intro path w answer again
  exact ⟨by decide +kernel, by decide +kernel, by decide +kernel, by decide +kernel,
    by decide +kernel, by decide +kernel⟩

end Rendition
