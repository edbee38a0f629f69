import Mathlib.Data.List.DropRight
import Mathlib.Data.List.Forall2
import Mathlib.Data.List.Nodup
import Rendition.Fallbacks
import Rendition.Json.Value
import Rendition.Proofs.Text.Utf8

/-!
# Rendition.Proofs.Candidates

Which extensions are looked for, and in which order. `Listed` says which further ones a map of
overrides gives for an extension without going through the map: those of the greatest of its keys
that are the extension up to case, or else the built-in ones. There is one such list
(`Listed.unique`), and it is the one that the table answers (`listed_alternates`), as the later of
two keys of one extension is the greater one in a map in ascending order.

`novel` says which elements of a list are new, each by its own place in the list, and
`candidates_ofOverrides` puts the two together. A map of overrides is a list in ascending order of
its keys, which is what sorting the members of an object leaves (`ascending_sortedMembers`).
-/

namespace Rendition

open Text Json

/-! ### Maps in ascending order -/

variable {α : Type}

/-- Values by name, in ascending order of the bytes of the names. -/
def Ascending (members : List (String × α)) : Prop :=
  members.Pairwise fun earlier later => octets earlier.1 < octets later.1

instance (members : List (String × α)) : Decidable (Ascending members) :=
  inferInstanceAs (Decidable (List.Pairwise _ _))

theorem ascending_iff {members : List (String × α)} :
    Ascending members ↔ members.Pairwise fun earlier later => earlier.1 < later.1 := by
  simp only [Ascending, octets_lt_iff]

theorem mem_insertMember {name : String} {value : α} {members : List (String × α)}
    {entry : String × α} (h : entry ∈ insertMember name value members) :
    entry = (name, value) ∨ entry ∈ members := by
  fun_induction insertMember name value members with
  | case1 => simpa using h
  | case2 other old rest hlt => simpa using h
  | case3 old rest hlt =>
      rcases List.mem_cons.1 h with h | h
      · exact Or.inl h
      · exact Or.inr (List.mem_cons_of_mem _ h)
  | case4 other old rest hlt hne ih =>
      rcases List.mem_cons.1 h with rfl | h
      · simp
      · exact (ih h).imp_right (List.mem_cons_of_mem _)

theorem Ascending.insertMember {members : List (String × α)} (h : Ascending members)
    (name : String) (value : α) : Ascending (insertMember name value members) := by
  rw [ascending_iff] at h ⊢
  fun_induction Json.insertMember name value members with
  | case1 => simp
  | case2 other old rest hlt =>
      refine List.pairwise_cons.2 ⟨fun entry hentry => ?_, h⟩
      rcases List.mem_cons.1 hentry with rfl | hentry
      · exact hlt
      · exact lt_trans hlt ((List.pairwise_cons.1 h).1 entry hentry)
  | case3 old rest hlt => exact List.pairwise_cons.2 (List.pairwise_cons.1 h)
  | case4 other old rest hlt hne ih =>
      obtain ⟨hfirst, hrest⟩ := List.pairwise_cons.1 h
      refine List.pairwise_cons.2 ⟨fun entry hentry => ?_, ih hrest⟩
      rcases mem_insertMember hentry with rfl | hentry
      · exact lt_of_le_of_ne (not_lt.1 hlt) (Ne.symm hne)
      · exact hfirst entry hentry

/-- Sorting members puts them in ascending order. -/
theorem ascending_sortedMembers (members : List (String × α)) :
    Ascending (sortedMembers members) := by
  have hfold : ∀ sorted : List (String × α), Ascending sorted → Ascending (members.foldl
      (fun sorted entry => insertMember entry.1 entry.2 sorted) sorted) := by
    induction members with
    | nil => exact fun sorted h => h
    | cons entry rest ih => exact fun sorted h => ih _ (h.insertMember _ _)
  exact hfold [] List.Pairwise.nil

namespace Fallbacks

/-! ### The further extensions -/

variable {overrides : List (String × List String)} {ext : String} {alternates : List String}

/-- A text is another one without all the dots in front of it. -/
def DropsDots (listed alternate : String) : Prop :=
  (∃ n, listed = String.ofList (List.replicate n '.') ++ alternate) ∧
    ∀ rest, alternate ≠ "." ++ rest

theorem toList_undotted (s : String) :
    (undotted s).toList = s.toList.dropWhile (· = '.') := String.toList_ofList

@[simp] theorem undotted_undotted (s : String) : undotted (undotted s) = undotted s := by
  apply String.toList_injective
  simp only [toList_undotted, List.dropWhile_idempotent]

/-- A text that no dot opens stays as it is. -/
theorem undotted_eq_self_iff {s : String} : undotted s = s ↔ ∀ rest, s ≠ "." ++ rest := by
  rw [← String.toList_inj, toList_undotted, List.dropWhile_eq_self_iff]
  constructor
  · rintro h rest rfl
    exact h (by simp) (by simp)
  · intro h hlength hdot
    obtain ⟨c, rest, hchars⟩ := List.exists_cons_of_length_pos hlength
    refine h (String.ofList rest) (String.toList_injective ?_)
    simpa [hchars] using hdot

theorem dropsDots_iff {listed alternate : String} :
    DropsDots listed alternate ↔ undotted listed = alternate := by
  constructor
  · rintro ⟨⟨n, rfl⟩, hopen⟩
    rw [← undotted_eq_self_iff.2 hopen]
    apply String.toList_injective
    rw [toList_undotted, String.toList_append, String.toList_ofList,
      List.dropWhile_append_of_pos (by simp), ← toList_undotted, undotted_undotted]
  · rintro rfl
    have hdots : listed.toList.takeWhile (· = '.')
        = List.replicate (listed.toList.takeWhile (· = '.')).length '.' :=
      List.eq_replicate_of_mem fun c hc => by simpa using List.mem_takeWhile_imp hc
    have hopen := undotted_eq_self_iff.1 (undotted_undotted listed)
    refine ⟨⟨(listed.toList.takeWhile (· = '.')).length, ?_⟩, hopen⟩
    apply String.toList_injective
    rw [String.toList_append, String.toList_ofList, ← hdots, toList_undotted,
      List.takeWhile_append_dropWhile]

theorem forall₂_dropsDots_iff {list alternates : List String} :
    List.Forall₂ DropsDots list alternates ↔ list.map undotted = alternates := by
  have hdrops : DropsDots = fun listed alternate => undotted listed = alternate := by
    funext listed alternate
    exact propext dropsDots_iff
  rw [hdrops, ← List.forall₂_map_left_iff, List.forall₂_eq_eq_eq]

/-- The further extensions that a map of overrides gives for one: those of the greatest of its keys
that are the extension up to case, without the dots in front of them, or else the built-in ones, or
else none. -/
inductive Listed (overrides : List (String × List String)) (ext : String) : List String → Prop
  | override {key : String} {list alternates : List String} (hmem : (key, list) ∈ overrides)
      (hkey : lower key = lower ext)
      (hgreatest : ∀ entry ∈ overrides, lower entry.1 = lower ext → octets entry.1 ≤ octets key)
      (hlist : List.Forall₂ DropsDots list alternates) : Listed overrides ext alternates
  | kept {alternates : List String} (hnone : ∀ entry ∈ overrides, lower entry.1 ≠ lower ext)
      (hmem : (lower ext, alternates) ∈ builtIn.lists) : Listed overrides ext alternates
  | unlisted (hnone : ∀ entry ∈ overrides, lower entry.1 ≠ lower ext)
      (hunlisted : ∀ entry ∈ builtIn.lists, entry.1 ≠ lower ext) : Listed overrides ext []

theorem nodup_keys_builtIn : (builtIn.lists.map (·.1)).Nodup := by decide

theorem eq_of_mem_builtIn {x y : String × List String} (hx : x ∈ builtIn.lists)
    (hy : y ∈ builtIn.lists) (hkeys : x.1 = y.1) : x = y :=
  List.inj_on_of_nodup_map nodup_keys_builtIn hx hy hkeys

theorem nodup_keys (h : Ascending overrides) : (overrides.map (octets ·.1)).Nodup :=
  (List.pairwise_map.2 h).imp ne_of_lt

namespace Listed

/-- There is one list of further extensions. -/
theorem unique (hmap : Ascending overrides) {others : List String}
    (h : Listed overrides ext alternates) (ho : Listed overrides ext others) :
    others = alternates := by
  cases h with
  | @override key list _ hmem hkey hgreatest hlist =>
      cases ho with
      | @override key' list' _ hmem' hkey' hgreatest' hlist' =>
          have hkeys : octets key' = octets key :=
            le_antisymm (hgreatest _ hmem' hkey') (hgreatest' _ hmem hkey)
          have hentry : (key', list') = (key, list) :=
            List.inj_on_of_nodup_map (nodup_keys hmap) hmem' hmem hkeys
          obtain ⟨-, rfl⟩ := Prod.mk.inj hentry
          exact (forall₂_dropsDots_iff.1 hlist').symm.trans (forall₂_dropsDots_iff.1 hlist)
      | kept hnone _ => exact (hnone (key, list) hmem hkey).elim
      | unlisted hnone _ => exact (hnone (key, list) hmem hkey).elim
  | kept hnone hmem =>
      cases ho with
      | @override key' list' _ hmem' hkey' => exact (hnone (key', list') hmem' hkey').elim
      | kept _ hmem' =>
          have hentry : (lower ext, others) = (lower ext, alternates) :=
            eq_of_mem_builtIn hmem' hmem rfl
          exact (Prod.mk.inj hentry).2
      | unlisted _ hunlisted => exact (hunlisted (lower ext, alternates) hmem rfl).elim
  | unlisted hnone hunlisted =>
      cases ho with
      | @override key' list' _ hmem' hkey' => exact (hnone (key', list') hmem' hkey').elim
      | kept _ hmem' => exact (hunlisted (lower ext, others) hmem' rfl).elim
      | unlisted _ _ => rfl

/-- Only the overrides of an extension decide what is listed for it. -/
theorem congr {others : List (String × List String)} (h : Listed overrides ext alternates)
    (hsame : ∀ entry, lower entry.1 = lower ext → (entry ∈ others ↔ entry ∈ overrides)) :
    Listed others ext alternates := by
  have hnone : (∀ entry ∈ overrides, lower entry.1 ≠ lower ext) →
      ∀ entry ∈ others, lower entry.1 ≠ lower ext := fun hnone entry hentry hkey =>
    hnone entry ((hsame entry hkey).1 hentry) hkey
  cases h with
  | @override key list _ hmem hkey hgreatest hlist =>
      have hmem' : (key, list) ∈ others := (hsame (key, list) hkey).2 hmem
      refine .override hmem' hkey (fun entry hentry hother => ?_) hlist
      exact hgreatest entry ((hsame entry hother).1 hentry) hother
  | kept hkept hmem => exact .kept (hnone hkept) hmem
  | unlisted hkept hunlisted => exact .unlisted (hnone hkept) hunlisted

end Listed

/-- With no override the built-in lists count. -/
theorem listed_alternates_builtIn (ext : String) : Listed [] ext (builtIn.alternates ext) := by
  unfold alternates
  cases hlookup : builtIn.lists.lookup (lower ext) with
  | none =>
      refine .unlisted (by simp) fun entry hentry hkey => ?_
      have hne := List.lookup_eq_none_iff.1 hlookup entry hentry
      simp [hkey] at hne
  | some list =>
      obtain ⟨front, back, hlists, -⟩ := List.lookup_eq_some_iff.1 hlookup
      refine .kept (by simp) ?_
      simp [hlists]

/-- The further extensions that the table answers are the ones that are listed. -/
theorem listed_alternates (hmap : Ascending overrides) (ext : String) :
    Listed overrides ext ((ofOverrides overrides).alternates ext) := by
  -- The last key of a map is its greatest one, and the table was given its list last.
  induction overrides using List.reverseRecOn with
  | nil => exact listed_alternates_builtIn ext
  | append_singleton earlier entry ih =>
      obtain ⟨key, list⟩ := entry
      obtain ⟨hearlier, -, hlast⟩ := List.pairwise_append.1 hmap
      have htable : ofOverrides (earlier ++ [(key, list)])
          = (ofOverrides earlier).replace key list := by simp [ofOverrides]
      rw [htable]
      by_cases hkey : lower key = lower ext
      · have halternates : ((ofOverrides earlier).replace key list).alternates ext
            = list.map undotted := by
          rw [← alternates_replace_self (ofOverrides earlier) key list, alternates, alternates,
            hkey]
        rw [halternates]
        have hmem : (key, list) ∈ earlier ++ [(key, list)] := by simp
        refine .override hmem hkey (fun other hother _ => ?_) (forall₂_dropsDots_iff.2 rfl)
        rcases List.mem_append.1 hother with hother | hother
        · exact (hlast other hother _ (List.mem_singleton_self _)).le
        · rw [List.mem_singleton.1 hother]
      · rw [alternates_replace_of_ne (Ne.symm hkey)]
        refine (ih hearlier).congr fun other hother => ?_
        have hne : other ≠ (key, list) := by
          rintro rfl
          exact hkey hother
        simp [hne]

/-! ### New elements -/

/-- The elements of `l` that equal, up to case, none of `seen` and no earlier element. -/
def novel (seen l : List String) : List String :=
  (l.zipIdx.filter fun (x, i) => ∀ y ∈ seen ++ l.take i, lower y ≠ lower x).map (·.1)

/-- Of the elements seen only the letters count. -/
theorem novel_congr {seen others : List String}
    (h : ∀ z, z ∈ others.map lower ↔ z ∈ seen.map lower) (l : List String) :
    novel others l = novel seen l := by
  have hnew : ∀ x, (∀ y ∈ others, lower y ≠ lower x) ↔ ∀ y ∈ seen, lower y ≠ lower x := by
    intro x
    simpa using not_congr (h (lower x))
  simp only [novel, List.forall_mem_append, hnew]

theorem novel_cons (seen : List String) (x : String) (rest : List String) :
    novel seen (x :: rest) =
      if ∃ y ∈ seen, lower y = lower x then novel (x :: seen) rest
      else x :: novel (x :: seen) rest := by
  have hrest : (((rest.zipIdx 1).filter fun (z, i) =>
      ∀ y ∈ seen ++ (x :: rest).take i, lower y ≠ lower z).map (·.1)) = novel (x :: seen) rest := by
    rw [List.zipIdx_succ, List.filter_map, List.map_map]
    refine congrArg _ (List.filter_congr fun z _ => ?_)
    refine decide_eq_decide.2 (forall_congr' fun y => ?_)
    rw [List.take_succ_cons, List.perm_middle.mem_iff]
    rfl
  rw [← hrest, novel, List.zipIdx_cons, List.filter_cons]
  by_cases hseen : ∃ y ∈ seen, lower y = lower x
  · rw [if_pos hseen, if_neg (by simpa using hseen)]
  · rw [if_neg hseen, if_pos (by simpa using hseen), List.map_cons]

theorem unseen_eq_novel (seen l : List String) : unseen seen l = novel seen l := by
  fun_induction unseen seen l with
  | case1 seen => rfl
  | case2 seen ext rest h ih =>
      have hseen : ∃ y ∈ seen, lower y = lower ext := by simpa [sameLetters_iff] using h
      obtain ⟨y, hy, hletters⟩ := hseen
      rw [novel_cons, if_pos ⟨y, hy, hletters⟩, ih]
      refine (novel_congr (fun z => ?_) rest).symm
      have hmem : lower ext ∈ seen.map lower := hletters ▸ List.mem_map_of_mem hy
      rw [List.map_cons, List.mem_cons]
      exact ⟨fun hz => hz.elim (fun heq => heq ▸ hmem) id, Or.inr⟩
  | case3 seen ext rest h ih =>
      have hseen : ¬ ∃ y ∈ seen, lower y = lower ext := by simpa [sameLetters_iff] using h
      rw [novel_cons, if_neg hseen, ih]

theorem pairwise_unseen (seen l : List String) :
    (∀ y ∈ seen, ∀ x ∈ unseen seen l, lower y ≠ lower x) ∧
      (unseen seen l).Pairwise (lower · ≠ lower ·) := by
  fun_induction unseen seen l with
  | case1 seen => simp
  | case2 seen ext rest h ih => exact ih
  | case3 seen ext rest h ih =>
      obtain ⟨hapart, hpairwise⟩ := ih
      have hfirst : ∀ x ∈ unseen (ext :: seen) rest, lower ext ≠ lower x :=
        hapart ext List.mem_cons_self
      refine ⟨fun y hy x hx => ?_, List.pairwise_cons.2 ⟨hfirst, hpairwise⟩⟩
      rcases List.mem_cons.1 hx with rfl | hx
      · intro hletters
        exact h (List.any_eq_true.2 ⟨y, hy, sameLetters_iff.2 hletters⟩)
      · exact hapart y (List.mem_cons_of_mem _ hy) x hx

/-! ### The extensions that are looked for -/

/-- An extension is looked for as it is requested, and then the new ones of those that are listed
for it. No two of them are equal up to case.

Extensions that are equal up to case have the same further ones, and overrides of one extension make
no difference to another. -/
theorem candidates_ofOverrides {overrides : List (String × List String)}
    (hmap : Ascending overrides) (ext : String) :
    (∃ listed, Listed overrides ext listed ∧
      (∀ others, Listed overrides ext others → others = listed) ∧
      (ofOverrides overrides).candidates ext = ext :: novel [ext] listed) ∧
    ((ofOverrides overrides).candidates ext).Pairwise (lower · ≠ lower ·) ∧
    (∀ other, lower other = lower ext →
      ((ofOverrides overrides).candidates other).tail
        = ((ofOverrides overrides).candidates ext).tail) ∧
    ∀ key others, Ascending others →
      (∀ entry, lower entry.1 ≠ lower key → (entry ∈ others ↔ entry ∈ overrides)) →
      lower ext ≠ lower key →
      (ofOverrides others).candidates ext = (ofOverrides overrides).candidates ext := by
  have hlisted := listed_alternates hmap ext
  refine ⟨⟨_, hlisted, fun others ho => hlisted.unique hmap ho, ?_⟩, ?_, ?_, ?_⟩
  · rw [candidates, unseen_eq_novel]
  · obtain ⟨hapart, hpairwise⟩ := pairwise_unseen [ext] ((ofOverrides overrides).alternates ext)
    exact List.pairwise_cons.2 ⟨hapart ext (List.mem_singleton_self _), hpairwise⟩
  · intro other hother
    have hsame : (ofOverrides overrides).alternates other
        = (ofOverrides overrides).alternates ext := by rw [alternates, alternates, hother]
    simp only [candidates, List.tail_cons, hsame, unseen_eq_novel]
    exact novel_congr (by simp [hother]) _
  · intro key others hothers hsame hne
    have hcongr : Listed others ext ((ofOverrides overrides).alternates ext) :=
      hlisted.congr fun entry hentry => hsame entry (hentry ▸ hne)
    rw [candidates, candidates, hcongr.unique hothers (listed_alternates hothers ext)]

/-- Two keys for one extension, the later one with dots and repetitions in its list. -/
def mixedCase : List (String × List String) :=
  sortedMembers [("png", []), ("jpg", [".webp", "..PNG", "png", "JPG", "gif"]), ("JPG", ["tiff"])]

/-- The list of the later key counts, and what it repeats is looked for once. The other extension
has its own list, with or without the two keys. -/
theorem candidates_ofOverrides_mixed_case :
    (∃ listed, Listed mixedCase "Jpg" listed ∧
      (ofOverrides mixedCase).candidates "Jpg" = "Jpg" :: novel ["Jpg"] listed ∧
      "Jpg" :: novel ["Jpg"] listed = ["Jpg", "webp", "PNG", "gif"]) ∧
    ((ofOverrides mixedCase).candidates "JPG").tail = ["webp", "PNG", "gif"] ∧
    (ofOverrides [("png", [])]).candidates "png" = (ofOverrides mixedCase).candidates "png" := by
  have hmap : Ascending mixedCase := ascending_sortedMembers _
  have hfound : (ofOverrides mixedCase).candidates "Jpg" = ["Jpg", "webp", "PNG", "gif"] := by
    decide
  obtain ⟨⟨listed, hlisted, -, hcandidates⟩, -, htail, -⟩ := candidates_ofOverrides hmap "Jpg"
  obtain ⟨-, -, -, hother⟩ := candidates_ofOverrides hmap "png"
  refine ⟨⟨listed, hlisted, hcandidates, hcandidates.symm.trans hfound⟩, ?_, ?_⟩
  · rw [htail "JPG" (by decide), hfound]
    rfl
  · refine hother "jpg" [("png", [])] (by simp [Ascending]) (fun entry hentry => ?_) (by decide)
    have hsorted : mixedCase = [("JPG", ["tiff"]),
        ("jpg", [".webp", "..PNG", "png", "JPG", "gif"]), ("png", [])] := by decide
    have hupper : lower "JPG" = lower "jpg" := by decide
    rw [hsorted]
    constructor
    · exact fun hmem => List.mem_cons_of_mem _ (List.mem_cons_of_mem _ hmem)
    · intro hmem
      rcases List.mem_cons.1 hmem with rfl | hmem
      · exact absurd hupper hentry
      · rcases List.mem_cons.1 hmem with rfl | hmem
        · exact absurd rfl hentry
        · exact hmem

end Fallbacks

end Rendition
