import Rendition.Proofs.Text.Joining
import Rendition.Resolution

/-!
# Rendition.Proofs.Cuts

The cuts of a stem, described without the walk that lists them: `mem_cuts` says which they are and
`pairwise_cuts` in which order they come, one token more at each. The cuts that an ancestry follows
are those behind which every token is a well-formed directive (`mem_generatedCuts`); the walk stops
at the first token that is none, so no cut further to the front counts either.

Two cuts of one stem never name the same file, whatever the extensions (`pathOf_ne_pathOf`): behind
the shorter base the stem goes on with an underscore where the file name has its dot.
-/

namespace Rendition

open Text

/-! ### Stem and extension -/

/-- A file name has the parts that it is put together from, if they can be a stem and an
extension. -/
theorem splitExtension_eq_some {name stem ext : String} :
    splitExtension name = some (stem, ext) ↔
      name = stem ++ "." ++ ext ∧ stem ≠ "" ∧ ext ≠ "" ∧ '.' ∉ ext.toList := by
  have hdot : String.singleton '.' = "." := rfl
  constructor
  · intro h
    obtain ⟨hcut, hne⟩ := Option.filter_eq_some_iff.1 h
    obtain ⟨hname, hfree⟩ := cutLast_eq_some.1 hcut
    simp only [ne_eq, decide_not, Bool.and_eq_true, Bool.not_eq_true', decide_eq_false_iff_not]
      at hne
    exact ⟨hdot ▸ hname, hne.1, hne.2, hfree⟩
  · rintro ⟨hname, hstem, hext, hfree⟩
    apply Option.filter_eq_some_iff.2
    exact ⟨cutLast_eq_some.2 ⟨hname, hfree⟩, by simp [hstem, hext]⟩

/-! ### The cuts and their order -/

/-- What a cut is: a base that is not empty, and tokens without an underscore, that the stem is put
together from. -/
theorem mem_cuts {stem : String} {cut : Cut} :
    cut ∈ cuts stem ↔ stem = joined '_' (cut.base :: cut.tokens) ∧ cut.base ≠ "" ∧
      ∀ token ∈ cut.tokens, '_' ∉ token.toList := by
  simp only [cuts, List.mem_filter, List.mem_map, List.mem_reverse, List.mem_range,
    decide_eq_true_eq]
  constructor
  · rintro ⟨⟨i, hi, rfl⟩, hbase⟩
    refine ⟨?_, hbase, fun token htoken => ?_⟩
    · have htake : (pieces '_' stem).take (i + 1) ≠ [] := by
        intro h
        rcases List.take_eq_nil_iff.1 h with h | h
        · omega
        · exact pieces_ne_nil '_' stem h
      rw [joined_joined htake, List.take_append_drop, joined_pieces]
    · exact not_mem_of_mem_pieces (List.mem_of_mem_drop htoken)
  · rintro ⟨hstem, hbase, hfree⟩
    refine ⟨⟨(pieces '_' cut.base).length - 1, ?_, ?_⟩, hbase⟩
    · have := List.length_pos_iff.2 (pieces_ne_nil '_' cut.base)
      rw [hstem, pieces_joined_cons hfree, List.length_append]
      omega
    · have hlen : (pieces '_' cut.base).length - 1 + 1 = (pieces '_' cut.base).length := by
        have := List.length_pos_iff.2 (pieces_ne_nil '_' cut.base)
        omega
      rw [hstem, pieces_joined_cons hfree, hlen, List.take_left, List.drop_left, joined_pieces]

/-- The cuts come longest base first, each with more tokens than the one before. -/
theorem pairwise_cuts (stem : String) :
    (cuts stem).Pairwise fun a b => a.tokens.length < b.tokens.length := by
  apply List.Pairwise.filter
  rw [List.pairwise_map, List.pairwise_reverse]
  refine List.Pairwise.imp_of_mem (fun {i j} hi hj hij => ?_) List.pairwise_lt_range
  have hj := List.mem_range.1 hj
  simp only [List.length_drop]
  omega

/-- Two cuts of one stem that leave the same number of tokens are the same. -/
theorem cut_eq_of_length_eq {stem : String} {a b : Cut} (ha : a ∈ cuts stem) (hb : b ∈ cuts stem)
    (hlen : a.tokens.length = b.tokens.length) : a = b := by
  obtain ⟨hstem, -, hfree⟩ := mem_cuts.1 ha
  obtain ⟨hstem', -, hfree'⟩ := mem_cuts.1 hb
  obtain ⟨hbase, htokens⟩ := joined_cons_inj hfree hfree' hlen (hstem ▸ hstem')
  cases a
  cases b
  simp_all

/-- A text that is joined from a part that is not empty is not empty. -/
theorem joined_cons_ne_empty {first : String} (h : first ≠ "") (rest : List String) :
    joined '_' (first :: rest) ≠ "" := by
  obtain ⟨c, hc⟩ := List.exists_mem_of_ne_nil _ (mt String.toList_eq_nil_iff.1 h)
  intro hempty
  have hmem : c ∈ (joined '_' (first :: rest)).toList := mem_joined_of_mem List.mem_cons_self hc
  simp [hempty] at hmem

/-- Tokens can be moved from behind a cut to its base. -/
theorem cut_append_mem {stem base : String} {front back : List String}
    (h : ⟨base, front ++ back⟩ ∈ cuts stem) : ⟨joined '_' (base :: front), back⟩ ∈ cuts stem := by
  obtain ⟨hstem, hbase, hfree⟩ := mem_cuts.1 h
  refine mem_cuts.2 ⟨?_, joined_cons_ne_empty hbase front, fun token htoken => ?_⟩
  · simpa [joined_joined] using hstem
  · exact hfree token (List.mem_append_right _ htoken)

/-- Of two cuts of one stem, the one with the longer base has the tokens between the bases in it. -/
theorem cut_split {stem : String} {a b : Cut} (ha : a ∈ cuts stem) (hb : b ∈ cuts stem)
    (hlen : a.tokens.length ≤ b.tokens.length) :
    ∃ between, b.tokens = between ++ a.tokens ∧ a.base = joined '_' (b.base :: between) := by
  let k := b.tokens.length - a.tokens.length
  have hsplit : b.tokens.take k ++ b.tokens.drop k = b.tokens := List.take_append_drop k b.tokens
  have hmem : ⟨joined '_' (b.base :: b.tokens.take k), b.tokens.drop k⟩ ∈ cuts stem :=
    cut_append_mem (by rw [hsplit]; exact hb)
  have heq := cut_eq_of_length_eq ha hmem (by simp only [List.length_drop, k]; omega)
  exact ⟨b.tokens.take k, by rw [heq, hsplit], by rw [heq]⟩

/-- A cut of the base of a cut is one of the stem, with the tokens of both. -/
theorem cut_trans {stem : String} {a b : Cut} (ha : a ∈ cuts stem) (hb : b ∈ cuts a.base) :
    ⟨b.base, b.tokens ++ a.tokens⟩ ∈ cuts stem := by
  obtain ⟨hstem, -, hfree⟩ := mem_cuts.1 ha
  obtain ⟨hbase, hne, hfree'⟩ := mem_cuts.1 hb
  refine mem_cuts.2 ⟨?_, hne, fun token htoken => ?_⟩
  · rw [hstem, hbase, joined_joined (by simp), List.cons_append]
  · rcases List.mem_append.1 htoken with htoken | htoken
    · exact hfree' token htoken
    · exact hfree token htoken

/-- A cut of a stem with more tokens than another one is a cut of the base of that. -/
theorem cut_of_length_le {stem : String} {a b : Cut} (ha : a ∈ cuts stem) (hb : b ∈ cuts stem)
    (hlen : a.tokens.length ≤ b.tokens.length) :
    ∃ between, b.tokens = between ++ a.tokens ∧ ⟨b.base, between⟩ ∈ cuts a.base := by
  obtain ⟨between, htokens, hbase⟩ := cut_split ha hb hlen
  obtain ⟨-, hne, hfree⟩ := mem_cuts.1 hb
  refine ⟨between, htokens, mem_cuts.2 ⟨hbase, hne, fun token htoken => ?_⟩⟩
  exact hfree token (htokens ▸ List.mem_append_left _ htoken)

theorem whole_mem_cuts {stem : String} (h : stem ≠ "") : ⟨stem, []⟩ ∈ cuts stem :=
  mem_cuts.2 ⟨by simp, h, by simp⟩

/-- The first cut is the whole stem. -/
theorem cuts_eq_cons {stem : String} (h : stem ≠ "") :
    cuts stem = ⟨stem, []⟩ :: (cuts stem).drop 1 := by
  have hmem := whole_mem_cuts h
  have hpair := pairwise_cuts stem
  cases hcuts : cuts stem with
  | nil => simp [hcuts] at hmem
  | cons first rest =>
      rw [hcuts] at hmem hpair
      rcases List.mem_cons.1 hmem with heq | hlater
      · simp [heq]
      · have := (List.pairwise_cons.1 hpair).1 _ hlater
        simp at this

/-! ### The cuts that an ancestry follows -/

/-- In a list whose elements grow, those in front of one are the smaller ones. -/
private theorem mem_takeWhile_of_pairwise {α : Type} {size : α → Nat} {keep : α → Bool} {a : α} :
    ∀ {l : List α}, l.Pairwise (fun x y => size x < size y) →
      (a ∈ l.takeWhile keep ↔ a ∈ l ∧ ∀ b ∈ l, size b ≤ size a → keep b = true)
  | [], _ => by simp
  | x :: rest, hpair => by
      obtain ⟨hfirst, hrest⟩ := List.pairwise_cons.1 hpair
      have ih : a ∈ rest.takeWhile keep ↔ _ := mem_takeWhile_of_pairwise hrest
      by_cases hx : keep x = true
      · rw [List.takeWhile_cons_of_pos hx, List.mem_cons, ih]
        constructor
        · rintro (rfl | ⟨hmem, hall⟩)
          · refine ⟨List.mem_cons_self, fun b hb hle => ?_⟩
            rcases List.mem_cons.1 hb with rfl | hb
            · exact hx
            · have := hfirst b hb
              omega
          · refine ⟨List.mem_cons_of_mem _ hmem, fun b hb hle => ?_⟩
            rcases List.mem_cons.1 hb with rfl | hb
            · exact hx
            · exact hall b hb hle
        · rintro ⟨hmem, hall⟩
          rcases List.mem_cons.1 hmem with rfl | hmem
          · exact Or.inl rfl
          · exact Or.inr ⟨hmem, fun b hb => hall b (List.mem_cons_of_mem _ hb)⟩
      · rw [List.takeWhile_cons_of_neg hx]
        simp only [List.not_mem_nil, false_iff, not_and]
        intro hmem hall
        refine hx (hall x List.mem_cons_self ?_)
        rcases List.mem_cons.1 hmem with rfl | hmem
        · exact Nat.le_refl _
        · exact Nat.le_of_lt (hfirst a hmem)

theorem generatedCuts_sublist (stem : String) : (generatedCuts stem).Sublist (cuts stem) :=
  (List.takeWhile_sublist _).trans (List.drop_sublist 1 _)

theorem pairwise_generatedCuts (stem : String) :
    (generatedCuts stem).Pairwise fun a b => a.tokens.length < b.tokens.length :=
  (pairwise_cuts stem).sublist (generatedCuts_sublist stem)

theorem mem_drop_cuts {stem : String} {cut : Cut} :
    cut ∈ (cuts stem).drop 1 ↔ cut ∈ cuts stem ∧ cut.tokens ≠ [] := by
  by_cases hstem : stem = ""
  · have hnil : cuts stem = [] := by subst hstem; decide
    simp [hnil]
  · have hpair := cuts_eq_cons hstem ▸ pairwise_cuts stem
    have hlater := (List.pairwise_cons.1 hpair).1
    rw [cuts_eq_cons hstem, List.drop_one, List.tail_cons, List.mem_cons]
    constructor
    · intro hmem
      have := hlater cut hmem
      exact ⟨Or.inr hmem, List.length_pos_iff.1 (by simpa using this)⟩
    · rintro ⟨rfl | hmem, hne⟩
      · exact absurd rfl hne
      · exact hmem

/-- An ancestry follows the cuts at underscores behind which every token reads as a directive. -/
theorem mem_generatedCuts {stem : String} {cut : Cut} :
    cut ∈ generatedCuts stem ↔ cut ∈ cuts stem ∧ cut.tokens ≠ [] ∧
      ∀ token ∈ cut.tokens, Directive.isWellFormed token = true := by
  have hpair := (pairwise_cuts stem).sublist (List.drop_sublist 1 _)
  rw [generatedCuts, mem_takeWhile_of_pairwise hpair, mem_drop_cuts, and_assoc]
  refine and_congr_right fun hcut => and_congr_right fun hne => ?_
  constructor
  · intro hall token htoken
    -- The token is the first one behind a cut further back.
    obtain ⟨before, after, hsplit⟩ := List.append_of_mem htoken
    have hback : ⟨joined '_' (cut.base :: before), token :: after⟩ ∈ cuts stem :=
      cut_append_mem (by rw [← hsplit]; exact hcut)
    have := hall _ (mem_drop_cuts.2 ⟨hback, by simp⟩) (by simp [hsplit])
    simpa [Cut.isGenerated] using this
  · intro hall b hb hle
    obtain ⟨hb, hbne⟩ := mem_drop_cuts.1 hb
    obtain ⟨between, htokens, -⟩ := cut_split hb hcut hle
    obtain ⟨token, rest, htoken⟩ := List.exists_cons_of_ne_nil hbne
    have := hall token (by simp [htokens, htoken])
    simpa [Cut.isGenerated, htoken] using this

/-- An ancestry that follows a cut of the base of a followed cut follows the one with the tokens of
both. -/
theorem generatedCut_trans {stem : String} {a b : Cut} (ha : a ∈ generatedCuts stem)
    (hb : b ∈ generatedCuts a.base) : ⟨b.base, b.tokens ++ a.tokens⟩ ∈ generatedCuts stem := by
  obtain ⟨hamem, -, hformed⟩ := mem_generatedCuts.1 ha
  obtain ⟨hbmem, hne, hformed'⟩ := mem_generatedCuts.1 hb
  refine mem_generatedCuts.2 ⟨cut_trans hamem hbmem, by simp [hne], fun token htoken => ?_⟩
  rcases List.mem_append.1 htoken with htoken | htoken
  · exact hformed' token htoken
  · exact hformed token htoken

/-- Of the cuts that an ancestry follows, those with more tokens than one of them are followed from
its base. -/
theorem generatedCut_of_length_lt {stem : String} {a b : Cut} (ha : a ∈ cuts stem)
    (hb : b ∈ generatedCuts stem) (hlen : a.tokens.length < b.tokens.length) :
    ∃ between, b.tokens = between ++ a.tokens ∧ ⟨b.base, between⟩ ∈ generatedCuts a.base := by
  obtain ⟨hbmem, -, hformed⟩ := mem_generatedCuts.1 hb
  obtain ⟨between, htokens, hcut⟩ := cut_of_length_le ha hbmem (Nat.le_of_lt hlen)
  refine ⟨between, htokens, mem_generatedCuts.2 ⟨hcut, ?_, fun token htoken => ?_⟩⟩
  · rintro rfl
    simp [htokens] at hlen
  · exact hformed token (htokens ▸ List.mem_append_left _ htoken)

/-- With a cut, an ancestry follows all that leave fewer tokens. -/
theorem generatedCut_of_length_le {stem : String} {a b : Cut} (ha : a ∈ cuts stem)
    (hne : a.tokens ≠ []) (hb : b ∈ generatedCuts stem)
    (hlen : a.tokens.length ≤ b.tokens.length) : a ∈ generatedCuts stem := by
  obtain ⟨hbmem, -, hformed⟩ := mem_generatedCuts.1 hb
  obtain ⟨between, htokens, -⟩ := cut_split ha hbmem hlen
  refine mem_generatedCuts.2 ⟨ha, hne, fun token htoken => ?_⟩
  exact hformed token (htokens ▸ List.mem_append_right _ htoken)

/-! ### Files at cuts -/

/-- Files at two cuts of one stem have different paths, whatever their extensions. -/
theorem pathOf_ne_pathOf {stem dir ext ext' : String} {a b : Cut} (ha : a ∈ cuts stem)
    (hb : b ∈ cuts stem) (hlen : a.tokens.length < b.tokens.length) :
    pathOf dir a.base ext ≠ pathOf dir b.base ext' := by
  obtain ⟨between, htokens, hbase⟩ := cut_split ha hb (Nat.le_of_lt hlen)
  have hne : between ≠ [] := by
    rintro rfl
    simp [htokens] at hlen
  intro heq
  have hchars := congrArg String.toList heq
  simp [pathOf, hbase, joined_cons hne] at hchars

end Rendition
